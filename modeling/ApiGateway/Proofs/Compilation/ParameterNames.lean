import ApiGateway.Proofs.Compilation.Protection
import ApiGateway.Proofs.Compilation.Validators
import ApiGateway.Proofs.Route.Groups
import ApiGateway.Proofs.Validation.Completion

/-!
# The names of path parameters

A route finds the parameters of its path by the groups of its regular expression, and its validator
by the names of its entries. The groups are named after what stands in braces in the path, the
entries after the declared parameters. Both take the capture name, so a declared parameter that the
path mentions has one name in both.

## Main definitions

* `Template.NamesAlike`: a parameter with one name in a regular expression and in a validator.

## Main results

* `Plan.Planned.exists_regex`: the regular expression of the routes of an operation.
* `Plan.Planned.shows_validator`: the validator of a route stands in the output.
* `parameter_names_of_compile`: the names of the path parameters of every operation.
-/
namespace ApiGateway

open Plugin (settings isValidator)

/-- A parameter of a template has one name in a regular expression and in the entries of a validator:
its groups have the name, at its places among the parameters, and so has an entry for a parameter of
the path. -/
structure Template.NamesAlike (t : Template) (regex : String) (entries : List Json)
    (parameter capture : String) : Prop where
  mem_names : parameter ∈ t.names
  group : ∃ mayBeEmpty, Template.group capture mayBeEmpty <:+: regex.toList
  places : ∀ i : ℕ, t.names[i]? = some parameter → (groupNames regex.toList)[i]? = some capture
  entry : ∃ entry ∈ entries, entry.get? "in" = some (.str "path") ∧
    entry.get? "name" = some (.str capture)

/-- The regular expression of a template and the entries of the parameters of its operation have one
name for a parameter. -/
theorem Template.namesAlike_pattern {doc : Document} {naming : Naming} {parameters : List Parameter}
    {entries : List Json} {t : Template}
    (hentries : List.Forall₂ (Parameter.DescribedBy doc naming) parameters entries) {q : Parameter}
    (hq : q ∈ parameters) (hlocation : q.location = "path") (hname : q.name ∈ t.names) :
    t.NamesAlike (String.ofList ('~' :: t.pattern doc naming parameters)) entries q.name
      (naming.capture q.name) := by
  refine ⟨hname, ?_, ?_, ?_⟩
  · obtain ⟨mayBeEmpty, hinfix⟩ := group_infix_pattern doc naming parameters hname
    refine ⟨mayBeEmpty, ?_⟩
    rw [String.toList_ofList]
    exact hinfix.trans (List.suffix_cons _ _).isInfix
  · intro i hi
    rw [String.toList_ofList, groupNames_cons (Or.inl (by decide)), groupNames_pattern,
      List.getElem?_map, hi, Option.map_some]
  · obtain ⟨entry, hentry, hdescribed⟩ := exists_of_mem_forall₂ hentries.flip q hq
    refine ⟨entry, hentry, by rw [hdescribed.location, hlocation], ?_⟩
    rw [hdescribed.name, Parameter.validatedName, if_pos hlocation]

namespace Plan
variable {ctx : Context} {root : String} {plan : Plan}

/-- The paths of a plan are the path items of the document. -/
theorem Planned.pathItems_eq (h : plan.Planned ctx root) :
    ctx.doc.pathItems = .ok (plan.paths.map fun p => (p.path, p.object)) := by
  obtain ⟨items, hitems, hpaths⟩ := h.paths
  have hsame : List.Forall₂ Eq items (plan.paths.map fun p => (p.path, p.object)) :=
    List.forall₂_map_right_iff.2 (hpaths.imp fun _ _ hp => hp.entry_eq)
  rw [List.forall₂_eq_eq_eq] at hsame
  rw [hitems, hsame]

/-- The operations of a path are those of its path item. -/
theorem Planned.operations_eq (h : plan.Planned ctx root) {p : PathPlan} (hp : p ∈ plan.paths) :
    operations p.path p.object = .ok (p.endpoints.map fun op => (op.method, op.object)) := by
  obtain ⟨_, path⟩ := h.exists_path hp
  obtain ⟨entries, hentries, hops⟩ := path.endpoints
  have hsame : List.Forall₂ Eq entries (p.endpoints.map fun op => (op.method, op.object)) :=
    List.forall₂_map_right_iff.2 (hops.imp fun _ _ hop => hop.entry_eq)
  rw [List.forall₂_eq_eq_eq] at hsame
  rw [hentries, hsame]

/-- The routes of an operation have one regular expression, that of the template of its path. -/
theorem Planned.exists_regex (h : plan.Planned ctx root) {p : PathPlan} (hp : p ∈ plan.paths)
    {op : OperationPlan} (hop : op ∈ p.endpoints) :
    ∃ parameters, ∃ t : Template, ctx.doc.parameters p.object op.object = .ok parameters ∧
      t.text = p.path.toList ∧ ∀ x ∈ op.created ctx (p.endpoint ctx.doc op).site,
        (x.complete ctx).get? "paths" = some (.ofStrings
          [String.ofList ('~' :: t.pattern ctx.doc ctx.naming parameters)]) := by
  obtain ⟨⟨_, planned⟩, -⟩ := h.operation_of_mem hp hop
  obtain ⟨parameters, body, path, hparameters, -, -, hpath, hexpand⟩ :=
    operationRoutes_cases planned.routed
  obtain ⟨t, htext, -, hregex, -⟩ := exists_template_of_routePath hpath
  refine ⟨parameters, t, hparameters, htext, ?_⟩
  intro x hx
  obtain ⟨route, hroute, rfl⟩ := List.mem_map.1 hx
  have hpaths : route.get? "paths" = some (.ofStrings [path.regex]) := by
    rw [get?_of_expandHeaders hexpand (by decide) (by decide) (by decide) (by decide) route hroute]
    exact (get?_route ctx op.cascade op.method path).2.2
  rw [Creation.get?_complete _ _ (by decide), ← hregex]
  exact hpaths

/-- The validator of a route stands with the route, or at the top level when it belongs to a
consumer. -/
theorem Planned.shows_validator (h : plan.Planned ctx root) {x : Creation}
    (hx : x ∈ plan.routes ctx) {v : Members} (hv : v ∈ x.validators) :
    x.Shows ctx (plan.configuration ctx) v := by
  cases hconsumer : Plugin.hasConsumer v with
  | false =>
    have hmem : v ∈ (Configuration.pluginsOf (x.complete ctx)).filter isValidator := by
      rw [x.filter_pluginsOf_complete]
      exact List.mem_filter.2 ⟨hv, by rw [hconsumer]; rfl⟩
    exact Or.inl (List.mem_of_mem_filter hmem)
  | true =>
    have hmem : x.share ctx v ∈ (plan.configuration ctx).plugins.filter isValidator := by
      refine h.validators_perm.mem_iff.2 (List.mem_flatMap.2 ⟨x, hx, ?_⟩)
      exact List.mem_map_of_mem (List.mem_filter.2 ⟨hv, hconsumer⟩)
    exact Or.inr (List.mem_of_mem_filter hmem)

end Plan

/-- The names of the path parameters of every operation. Its routes have one regular expression, whose
groups have the capture names of the parameters in the path, in their order. When the template in
effect sets no schemas of parameters itself, the routes of an operation with parameters have one
validator each, which stands in the output and has an entry for every parameter, in their order; and
a parameter that the path mentions has one name in the regular expression and in the entries. Without
parameters there are no schemas of parameters. -/
theorem parameter_names_of_compile {fresh : Uuid} {options : Options} {doc : Document}
    {c : Configuration} (h : compile fresh options doc = .ok c) :
    ∃ ctx root plan, Context.ofRun fresh options doc = .ok (ctx, root) ∧
      Plan.of ctx root = .ok plan ∧
      c.routes.Perm ((plan.routes ctx).map (Creation.complete ctx)) ∧
      doc.pathItems = .ok (plan.paths.map fun p => (p.path, p.object)) ∧
      ∀ p ∈ plan.paths,
        operations p.path p.object = .ok (p.endpoints.map fun op => (op.method, op.object)) ∧
        ∀ op ∈ p.endpoints, ∃ parameters regex, ∃ t : Template,
          doc.parameters p.object op.object = .ok parameters ∧ t.text = p.path.toList ∧
          groupNames regex.toList = t.names.map options.naming.capture ∧
          ∀ x ∈ op.created ctx (p.endpoint doc op).site,
            (x.complete ctx).get? "paths" = some (.ofStrings [regex]) ∧
            ∀ template, p.template? doc op = some template →
              (settings template).get? "parameter_schema" = none →
              (parameters = [] →
                ∀ v ∈ x.validators, (settings v).get? "parameter_schema" = none) ∧
              (parameters ≠ [] → ∃ v entries, x.validators = [v] ∧ x.Shows ctx c v ∧
                (settings v).get? "parameter_schema" = some (.arr entries) ∧
                List.Forall₂ (Parameter.DescribedBy doc options.naming) parameters entries ∧
                ∀ q ∈ parameters, q.location = "path" → Mentions p.path q.name →
                  ∃ capture, t.NamesAlike regex entries q.name capture) := by
  obtain ⟨ctx, root, plan, hrun, hplan, rfl⟩ := exists_plan_of_compile h
  obtain ⟨rfl, rfl, -, -⟩ := Context.ofRun_cases hrun
  have planned := Plan.planned_of_of hplan
  refine ⟨ctx, root, plan, hrun, hplan, Plan.routes_perm_created, planned.pathItems_eq, ?_⟩
  intro p hp
  refine ⟨planned.operations_eq hp, ?_⟩
  intro op hop
  obtain ⟨parameters, t, hparameters, htext, hpaths⟩ := planned.exists_regex hp hop
  obtain ⟨parameters', body, hparameters', -, hvalidators⟩ := planned.exists_validator hp hop
  obtain rfl : parameters = parameters' := Except.ok.inj (hparameters.symm.trans hparameters')
  refine ⟨parameters, String.ofList ('~' :: t.pattern ctx.doc ctx.naming parameters), t,
    hparameters, htext, ?_, ?_⟩
  · rw [String.toList_ofList, groupNames_cons (Or.inl (by decide)), groupNames_pattern]
    rfl
  · intro x hx
    refine ⟨hpaths x hx, ?_⟩
    intro template htemplate hown
    obtain ⟨found, hfound, hmade⟩ := hvalidators x hx
    rw [htemplate] at hfound
    obtain ⟨hnil, hcons⟩ := parameterSchema_of_requestValidator hfound hown
    refine ⟨?_, ?_⟩
    · intro hempty v hv
      rw [hmade] at hv
      exact hnil hempty v (Option.mem_toList.1 hv)
    · intro hne
      obtain ⟨v, entries, rfl, hentries, hdescribed⟩ := hcons hne
      refine ⟨v, entries, hmade, ?_, hentries, hdescribed, ?_⟩
      · have hroute : x ∈ plan.routes ctx :=
          List.mem_flatMap.2 ⟨p, hp, List.mem_flatMap.2 ⟨op, hop, hx⟩⟩
        exact planned.shows_validator hroute (by simp [hmade])
      · intro q hq hlocation hmentions
        exact ⟨_, Template.namesAlike_pattern hdescribed hq hlocation
          ((Template.mem_names_iff htext).2 hmentions)⟩

/-- Two parameters, of which the first has a name that no group can have. -/
def parcelParameters : List Json :=
  [.obj [("in", .str "path"), ("name", .str "parcel-id")],
    .obj [("in", .str "query"), ("name", .str "page")]]

/-- A path item with one operation that has these parameters. -/
def parcelItem : Members := [("get", .obj [("parameters", .arr parcelParameters)])]

/-- A small document that asks for validators, with this path. -/
def parcelDocument : Document :=
  ⟨[("info", .obj [("title", .str "Parcels")]), ("openapi", .str "3.0.0"),
    ("paths", .obj [("/parcels/\x7bparcel-id\x7d", .obj parcelItem)]),
    ("x-kong-plugin-request-validator", .obj [])], "3.0.0"⟩

/-- Its one route and the validator of the route call the parameter by one name, and the validator
has entries for both parameters. -/
theorem parameter_names_of_compile_parcels :
    ∃ c, compile Uuid.dns {} parcelDocument = .ok c ∧ ∃ (ctx : Context) (plan : Plan),
      c.routes.Perm ((plan.routes ctx).map (Creation.complete ctx)) ∧
      ∃ (p : PathPlan) (op : OperationPlan) (t : Template) (regex : String),
        plan.paths = [p] ∧ p.endpoints = [op] ∧
        ∀ x ∈ op.created ctx (p.endpoint parcelDocument op).site,
          (x.complete ctx).get? "paths" = some (.ofStrings [regex]) ∧
          ∃ v entries, x.validators = [v] ∧ x.Shows ctx c v ∧
            (settings v).get? "parameter_schema" = some (.arr entries) ∧ entries.length = 2 ∧
            ∃ capture, t.NamesAlike regex entries "parcel-id" capture := by
  obtain ⟨c, hc⟩ : ∃ c, (compile Uuid.dns {} parcelDocument).toOption = some c :=
    Option.isSome_iff_exists.1 (by decide +kernel)
  rw [toOption_eq_some_iff] at hc
  obtain ⟨ctx, root, plan, -, -, hroutes, hitems, hnames⟩ := parameter_names_of_compile hc
  -- the document has one path with one operation
  have hpaths : parcelDocument.pathItems = .ok [("/parcels/\x7bparcel-id\x7d", parcelItem)] := rfl
  obtain ⟨p, hp, hentry⟩ :=
    List.map_eq_singleton_iff.1 (Except.ok.inj (hitems.symm.trans hpaths))
  obtain ⟨hpath, hitem⟩ := Prod.mk.inj hentry
  obtain ⟨hendpoints, hcreated⟩ := hnames p (by simp [hp])
  rw [hpath, hitem] at hendpoints
  have hoperations : operations "/parcels/\x7bparcel-id\x7d" parcelItem =
      .ok [("get", [("parameters", .arr parcelParameters)])] := rfl
  obtain ⟨op, hop, hentry⟩ :=
    List.map_eq_singleton_iff.1 (Except.ok.inj (hendpoints.symm.trans hoperations))
  obtain ⟨-, hobject⟩ := Prod.mk.inj hentry
  obtain ⟨parameters, regex, t, hparameters, -, -, hroute⟩ := hcreated op (by simp [hop])
  rw [hitem, hobject] at hparameters
  have hread : parcelDocument.parameters parcelItem [("parameters", .arr parcelParameters)] =
      .ok [⟨"parcel-id", "path", false, none, none, none⟩,
        ⟨"page", "query", false, none, none, none⟩] := rfl
  obtain rfl := Except.ok.inj (hparameters.symm.trans hread)
  obtain ⟨template, htemplate, hown⟩ : ∃ template, p.template? parcelDocument op = some template ∧
      (settings template).get? "parameter_schema" = none := by
    rw [PathPlan.template?, hitem, hobject]
    exact ⟨_, rfl, rfl⟩
  refine ⟨c, hc, ctx, plan, hroutes, p, op, t, regex, hp, hop, ?_⟩
  intro x hx
  obtain ⟨hregex, hvalidator⟩ := hroute x hx
  obtain ⟨v, entries, hv, hshown, hschema, hdescribed, hnames⟩ :=
    (hvalidator template htemplate hown).2 (by simp)
  refine ⟨hregex, v, entries, hv, hshown, hschema, hdescribed.length_eq.symm, ?_⟩
  refine hnames _ List.mem_cons_self rfl ⟨by decide, ?_⟩
  rw [hpath]
  exact ⟨"/parcels/".toList, [], by decide⟩

end ApiGateway
