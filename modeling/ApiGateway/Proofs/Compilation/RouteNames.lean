import ApiGateway.Proofs.Compilation.Consumers
import ApiGateway.Proofs.Compilation.Locality
import ApiGateway.Proofs.Compilation.Uniqueness

/-!
# The names of routes

The name of a route is made of slugs: those of the document, of the path and of the operation, as
far as they are not empty, and a number when headers split the operation. Nothing else tells routes
apart. So two operations can meet in one name, but only with the same slugs: the same list of them in
the nested style, where the separator is no part of a slug, and the same joined text in the flat one.

## Main definitions

* `Origin`: a route, by the path and the method that it comes from.
* `Document.origins`: the routes that a document asks for.
* `Origin.Gives`: what a route has from where it comes from.

## Main results

* `Site.base_eq_intercalate`: a base name is its slugs, joined.
* `route_names_of_compile`: the names of the routes of an output.
-/
namespace ApiGateway

/-- A route, by the path and the method that it comes from, with its name and what the name is made
of. -/
structure Origin where
  path : String
  method : String
  owner : Owner

/-- The routes of a path. -/
def PathOutline.origins (naming : Naming) (root : String) (doc : Document) (path : String)
    (p : PathOutline) : List Origin :=
  p.endpoints.flatMap fun e => (e.owners naming root doc).map (Origin.mk path e.method)

/-- The routes that a document asks for under a base name. -/
def Document.origins (naming : Naming) (root : String) (doc : Document) :
    Except Error (List Origin) := do
  let paths ← (← doc.pathItems).mapM fun entry =>
    (PathOutline.of doc entry).map (PathOutline.origins naming root doc entry.1)
  return paths.flatten

/-- A route has its name, the method and the path that it comes from. -/
structure Origin.Gives (naming : Naming) (doc : Document) (o : Origin) (route : Members) : Prop where
  name_eq : route.get? "name" = some (.str o.owner.name)
  methods_eq : route.get? "methods" = some (.ofStrings [o.method.toUpper])
  paths_eq : ∃ parameters priority template,
    routePath doc naming parameters priority o.path = .ok template ∧
    route.get? "paths" = some (.ofStrings [template.regex])

/-! ## Names are made of slugs -/

section Names
variable (naming : Naming) {root : String} (hroot : root ≠ "")
include hroot

/-- A base name is made of the slugs of its site, joined by the separator. -/
theorem Site.base_eq_intercalate (site : Site) :
    site.base naming root =
      String.intercalate (String.singleton naming.separator) (site.sequence naming root) ∧
    site.sequence naming root ≠ [] := by
  obtain ⟨names, objects⟩ := site
  induction names with
  | nil => simp [Site.base, Site.sequence, hroot]
  | cons name names ih =>
    obtain ⟨hbase, hne⟩ := ih
    have hsequence : (⟨name :: names, objects⟩ : Site).sequence naming root =
        (⟨names, objects⟩ : Site).sequence naming root ++ [naming.slug name].filter (· ≠ "") :=
      Site.sequence_enter naming root ⟨names, objects⟩ name []
    rw [Site.base_cons naming root name names objects objects, hsequence]
    by_cases hslug : naming.slug name = ""
    · simp [Naming.extend_of_slug_eq_empty hslug, hslug, hbase, hne]
    · have hparent : (⟨names, objects⟩ : Site).base naming root ≠ "" := by
        intro hempty
        have hlong : root.length ≤ ((⟨names, objects⟩ : Site).base naming root).length :=
          Site.length_le_base _
        rw [hempty] at hlong
        exact hroot (by simpa using hlong)
      rw [Naming.extend, if_neg hslug, if_neg hparent, hbase]
      simp [hslug, String.intercalate_append_of_ne_nil hne]

/-- The name of a route is made of its slugs and its number, joined by the separator. -/
theorem Endpoint.name_eq_intercalate {doc : Document} {e : Endpoint}
    {owner : Owner} (h : owner ∈ e.owners naming root doc) : owner.name =
      String.intercalate (String.singleton naming.separator) owner.sequence := by
  obtain ⟨hbase, hne⟩ := e.site.base_eq_intercalate naming hroot
  unfold Endpoint.owners at h
  split at h
  · rw [List.mem_singleton.1 h, hbase]
  · obtain ⟨i, -, rfl⟩ := List.mem_map.1 h
    simp [hbase, String.intercalate_append_of_ne_nil hne]

end Names

/-! ## The routes of a plan -/

section Plans
variable {ctx : Context} {root : String} {plan : Plan}

/-- The routes of an operation, by where they come from. -/
def OperationPlan.origins (ctx : Context) (root : String) (p : PathPlan) (op : OperationPlan) :
    List Origin :=
  ((p.endpoint ctx.doc op).owners ctx.naming root ctx.doc).map (Origin.mk p.path op.method)

/-- The routes of a plan, by where they come from. -/
def Plan.origins (ctx : Context) (root : String) (plan : Plan) : List Origin :=
  plan.paths.flatMap fun p => p.endpoints.flatMap (OperationPlan.origins ctx root p)

/-- The routes that a document asks for are those of its plan. -/
theorem Plan.Planned.origins_eq (h : plan.Planned ctx root) :
    ctx.doc.origins ctx.naming root = .ok (plan.origins ctx root) := by
  obtain ⟨items, hitems, hpaths⟩ := h.paths
  have hpath : ∀ (entry : String × Members) (p : PathPlan),
      p.Planned ctx plan.root entry →
        (PathOutline.of ctx.doc entry).map
            (PathOutline.origins ctx.naming root ctx.doc entry.1) =
          .ok (p.endpoints.flatMap (OperationPlan.origins ctx root p)) := by
    intro entry p hp
    rw [hp.outline_eq, hp.entry_eq, map_ok, PathOutline.origins, PathPlan.endpoints_outline,
      List.flatMap_map]
    rfl
  simp only [Document.origins, hitems, ok_bind,
    mapM_eq_ok_of_forall₂ (hpaths.imp hpath), Plan.origins, List.flatMap_def]
  rfl

theorem Plan.mem_origins_iff {o : Origin} : o ∈ plan.origins ctx root ↔
    ∃ p ∈ plan.paths, ∃ op ∈ p.endpoints,
      ∃ owner ∈ (p.endpoint ctx.doc op).owners ctx.naming root ctx.doc,
        ⟨p.path, op.method, owner⟩ = o := by
  simp only [Plan.origins, OperationPlan.origins, List.mem_flatMap, List.mem_map]

/-- The routes of an operation correspond to what its headers ask for. -/
theorem OperationPlan.Planned.gives {parent : Cascade} {p : PathPlan} {entry : String × Members}
    {op : OperationPlan} (h : op.Planned ctx parent p.path p.object entry)
    (hsplits : Splits ctx root (p.endpoint ctx.doc op) (op.complete ctx)) :
    List.Forall₂ (Origin.Gives ctx.naming ctx.doc) (op.origins ctx root p) (op.complete ctx) := by
  obtain ⟨parameters, body, template, -, -, -, htemplate, hexpand⟩ :=
    operationRoutes_cases h.routed
  obtain ⟨-, hmethods, hpaths⟩ := get?_route ctx op.cascade op.method template
  have hbears := bearsItsName_of_expandHeaders
    (bearsItsName_route ctx op.cascade op.method template) hexpand
  have hnames : (op.origins ctx root p).map (fun o => o.owner.name) =
      (op.complete ctx).map entityName := by
    rw [hsplits.names_eq, ← Endpoint.map_name_owners _ _ ctx.doc, origins, List.map_map]
    rfl
  refine List.forall₂_iff_zip.2 ⟨by simpa using congrArg List.length hnames, ?_⟩
  intro o route hpair
  obtain ⟨ho, hroute⟩ := List.of_mem_zip hpair
  have hname := eq_of_mem_zip hnames (o, route) hpair
  obtain ⟨owner, -, rfl⟩ := List.mem_map.1 ho
  obtain ⟨own, hown, rfl⟩ := List.mem_map.1 hroute
  -- putting the plugins in changes no other field
  have hkept : ∀ key ≠ "plugins",
      (Route.complete ctx op.cascade.base op.plugins own).get? key = own.get? key := by
    intro key hne
    simp [Route.complete, Members.get?_insert, hne]
  obtain ⟨name, hbearing, -⟩ := hbears own hown
  refine ⟨?_, ?_, parameters, op.cascade.defaultPriority, template, htemplate, ?_⟩
  · simp only [entityName, Members.string?, hkept "name" (by decide), hbearing] at hname ⊢
    simpa using hname.symm
  · rw [hkept _ (by decide), get?_of_expandHeaders hexpand (by decide) (by decide) (by decide)
      (by decide) own hown, hmethods]
  · rw [hkept _ (by decide), get?_of_expandHeaders hexpand (by decide) (by decide) (by decide)
      (by decide) own hown, hpaths]

/-- The routes of a plan correspond to what its document asks for. -/
theorem Plan.Planned.gives (h : plan.Planned ctx root) :
    List.Forall₂ (Origin.Gives ctx.naming ctx.doc) (plan.origins ctx root)
      ((plan.routes ctx).map (Creation.complete ctx)) := by
  have hroutes : (plan.routes ctx).map (Creation.complete ctx) =
      plan.paths.flatMap fun p => p.endpoints.flatMap (OperationPlan.complete ctx) := by
    simp only [routes, PathPlan.created, OperationPlan.created, List.map_flatMap, List.map_map]
    rfl
  rw [hroutes]
  refine forall₂_flatMap fun p hp => forall₂_flatMap fun op hop => ?_
  obtain ⟨⟨_, planned⟩, -⟩ := h.operation_of_mem hp hop
  exact planned.gives (h.splits p hp op hop)

/-- When slugs tell the paths and the operations of each path apart, the slugs of a route tell where
it comes from. -/
theorem DistinctSlugs.origin_eq
    (hslugs : DistinctSlugs ctx.naming (plan.paths.map (PathPlan.outline ctx.doc)))
    {o o' : Origin} (ho : o ∈ plan.origins ctx root) (ho' : o' ∈ plan.origins ctx root)
    (h : o.owner.sequence = o'.owner.sequence) : o.path = o'.path ∧ o.method = o'.method := by
  -- the slugs of path and operation stand behind those of the document
  have hslug : ∀ {p op owner}, p ∈ plan.paths → op ∈ p.endpoints →
      owner ∈ (p.endpoint ctx.doc op).owners ctx.naming root ctx.doc →
      (p.endpoint ctx.doc op).site.sequence ctx.naming root =
        owner.sequence.take (((Site.document ctx.doc).sequence ctx.naming root).length + 2) := by
    intro p op owner hp hop howner
    have hsequence := hslugs.sequence_endpoint root hp hop
    obtain ⟨-, rfl⟩ | ⟨i, -, hnumbered⟩ := Endpoint.mem_owners_cases howner
    · rw [List.take_of_length_le (by simp [Site.routeOwner, hsequence])]
      rfl
    · rw [hnumbered, List.take_left' (by simp [hsequence])]
  obtain ⟨p, hp, op, hop, owner, howner, rfl⟩ := Plan.mem_origins_iff.1 ho
  obtain ⟨p', hp', op', hop', owner', howner', rfl⟩ := Plan.mem_origins_iff.1 ho'
  have hsame : (p.endpoint ctx.doc op).site.sequence ctx.naming root =
      (p'.endpoint ctx.doc op').site.sequence ctx.naming root := by
    rw [hslug hp hop howner, hslug hp' hop' howner', h]
  obtain ⟨rfl, rfl⟩ := hslugs.eq_of_sequence_eq hp hp' hop hop' hsame
  exact ⟨rfl, rfl⟩

end Plans

/-- The names of the routes of an output. Every route comes from a path and a method and has the
slugs of the document, of the path and of the operation as its name, those that are not empty,
followed by its number when headers split the operation, all joined by the separator. With nested
names, routes of one name have the same slugs. So routes of different paths or methods have different
names when slugs tell the paths and the operations of each path apart. The romanization is one that
keeps the letters and digits of ASCII. -/
theorem route_names_of_compile {fresh : Uuid} {options : Options} {doc : Document}
    {c : Configuration} (hspell : ∀ c : Char, c.isAlphanum = true → options.romanize c = [c])
    (h : compile fresh options doc = .ok c) :
    ∃ base origins routes, doc.baseName options fresh = .ok base ∧
      doc.origins options.naming base = .ok origins ∧ c.routes.Perm routes ∧
      List.Forall₂ (Origin.Gives options.naming doc) origins routes ∧
      (∀ o ∈ origins, o.owner.name =
        String.intercalate (String.singleton options.naming.separator) o.owner.sequence) ∧
      (options.flatNames = false → ∀ o ∈ origins, ∀ o' ∈ origins,
        o.owner.name = o'.owner.name → o.owner.sequence = o'.owner.sequence) ∧
      ∀ outline, options.flatNames = false → doc.outline = .ok outline →
        DistinctSlugs options.naming outline → ∀ o ∈ origins, ∀ o' ∈ origins,
          (o.path, o.method) ≠ (o'.path, o'.method) → o.owner.name ≠ o'.owner.name := by
  obtain ⟨ctx, root, plan, hrun, hplan, rfl⟩ := exists_plan_of_compile h
  obtain ⟨hdoc, hoptions, -, hbase⟩ := Context.ofRun_cases hrun
  have planned := Plan.planned_of_of hplan
  have hnaming : ctx.naming = options.naming := by rw [Context.naming, hoptions]
  obtain ⟨text, hroot⟩ := Document.exists_slug_of_baseName hbase
  have hsequence : options.flatNames = false → ∀ o ∈ plan.origins ctx root,
      ∀ o' ∈ plan.origins ctx root,
        o.owner.name = o'.owner.name → o.owner.sequence = o'.owner.sequence := by
    intro hnested o ho o' ho' hname
    have hdecodes : ∀ o ∈ plan.origins ctx root, o.owner.Decodes := by
      intro o ho
      obtain ⟨p, -, op, -, owner, howner, rfl⟩ := Plan.mem_origins_iff.1 ho
      exact Endpoint.decodes_owners (hnaming ▸ hnested) (hnaming ▸ hroot) _ _ owner howner
    rw [← (hdecodes o ho).parts_eq, ← (hdecodes o' ho').parts_eq, hname]
  refine ⟨root, plan.origins ctx root, (plan.routes ctx).map (Creation.complete ctx), hbase, ?_,
    Plan.routes_perm_created, ?_, ?_, hsequence, ?_⟩
  · rw [← hnaming, ← hdoc, planned.origins_eq]
  · rw [← hnaming, ← hdoc]
    exact planned.gives
  · intro o ho
    obtain ⟨p, -, op, -, owner, howner, rfl⟩ := Plan.mem_origins_iff.1 ho
    rw [← hnaming]
    exact Endpoint.name_eq_intercalate _ (Document.baseName_ne_empty hspell hbase) howner
  · intro outline hnested houtline hslugs o ho o' ho' hne hname
    rw [← hdoc, outline_eq_of_planned planned] at houtline
    obtain rfl := Except.ok.inj houtline
    rw [← hnaming] at hslugs
    obtain ⟨hpath, hmethod⟩ := hslugs.origin_eq ho ho' (hsequence hnested o ho o' ho' hname)
    exact hne (by rw [hpath, hmethod])

/-- The lanes and the lounge of the pool have routes of different names. -/
theorem route_names_of_compile_pool :
    ∃ c origins routes, compile Uuid.dns {} poolDocument = .ok c ∧
      poolDocument.origins (Options.naming {}) "pool" = .ok origins ∧ c.routes.Perm routes ∧
      List.Forall₂ (Origin.Gives (Options.naming {}) poolDocument) origins routes ∧
      ∀ o ∈ origins, ∀ o' ∈ origins,
        (o.path, o.method) ≠ (o'.path, o'.method) → o.owner.name ≠ o'.owner.name := by
  obtain ⟨c, hc⟩ : ∃ c, (compile Uuid.dns {} poolDocument).toOption = some c :=
    Option.isSome_iff_exists.1 (by decide +kernel)
  have houtline : (poolDocument.outline.toOption.map fun outline =>
      decide (DistinctSlugs (Options.naming {}) outline)) = some true := by
    decide +kernel
  obtain ⟨outline, houtline, hslugs⟩ := Option.map_eq_some_iff.1 houtline
  rw [toOption_eq_some_iff] at hc houtline
  have hspell : ∀ c : Char, c.isAlphanum = true → Romanization.spell c = [c] := by
    intro c hc
    refine Romanization.spell_of_ascii ?_
    simp [Char.isAlphanum, Char.isAlpha, Char.isUpper, Char.isLower, Char.isDigit,
      UInt32.le_iff_toNat_le] at hc
    omega
  have hbase : (poolDocument.baseName {} Uuid.dns).toOption = some "pool" := by decide +kernel
  obtain ⟨base, origins, routes, hname, horigins, hperm, hgives, -, -, hdistinct⟩ :=
    route_names_of_compile hspell hc
  rw [toOption_eq_some_iff, hname] at hbase
  obtain rfl := Except.ok.inj hbase
  exact ⟨c, origins, routes, hc, horigins, hperm, hgives,
    hdistinct outline rfl houtline (of_decide_eq_true hslugs)⟩

/-- A document with two paths of the same slug. -/
def alleyDocument : Document :=
  ⟨[("info", .obj [("title", .str "Shop")]), ("openapi", .str "3.0.0"),
    ("paths", .obj [("/a-b", .obj [("get", .obj [])]), ("/a/b", .obj [("get", .obj [])])])],
    "3.0.0"⟩

/-- The operations of both paths have routes of one name. -/
theorem exists_same_name_alley : ∃ c r r', compile Uuid.dns {} alleyDocument = .ok c ∧
    c.routes = [r, r'] ∧
    (r.list? "paths").map (·.filterMap Json.asString?) = some ["~/a-b$"] ∧
    (r'.list? "paths").map (·.filterMap Json.asString?) = some ["~/a/b$"] ∧
    r.string? "name" = some "shop_a-b_get" ∧ r'.string? "name" = some "shop_a-b_get" := by
  have hfields : ((compile Uuid.dns {} alleyDocument).toOption.map fun c => c.routes.map fun r =>
      ((r.list? "paths").map (·.filterMap Json.asString?), r.string? "name")) =
      some [(some ["~/a-b$"], some "shop_a-b_get"), (some ["~/a/b$"], some "shop_a-b_get")] := by
    decide +kernel
  obtain ⟨c, hc, hfields⟩ := Option.map_eq_some_iff.1 hfields
  rw [toOption_eq_some_iff] at hc
  obtain ⟨r, rest, hroutes, hfirst, hrest⟩ := List.map_eq_cons_iff.1 hfields
  obtain ⟨r', rfl, hsecond⟩ := List.map_eq_singleton_iff.1 hrest
  obtain ⟨hpaths, hname⟩ := Prod.mk.inj hfirst
  obtain ⟨hpaths', hname'⟩ := Prod.mk.inj hsecond
  exact ⟨c, r, r', hc, hroutes, hpaths, hpaths', hname, hname'⟩

end ApiGateway
