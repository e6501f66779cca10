import ApiGateway.Proofs.Compilation.Cascade

/-!
# Sites

A scope as the document has it, without what the walk computes: its object with those around it,
and its names. The base name, the defaults and the servers of a scope are functions of its site,
and the plan of a document follows its sites at every level.

## Main definitions

* `Site`: a scope as the document has it.
* `Site.base`, `Site.defaults`, `Site.servers`: the base name, the innermost defaults of each
  kind, and the innermost servers.
* `creates`: whether an object makes its scope one with a service.
* `Follows`: a cascade that hands down what its site has.
* `OperationPlan.Planned`, `PathPlan.Planned`, `Plan.Planned`: what a plan that succeeded is.
-/
namespace ApiGateway

/-- A scope as the document has it: its object and those around it, ending with the document,
and the names from the scope up to its path. Both start with the innermost. -/
structure Site where
  names : List String
  objects : List Members

/-- The object that a directive of a scope stands for, if it stands for one. -/
def declaredObject? (doc : Document) (key : String) (object : Members) : Option Members :=
  match Directive.object? doc object key with
  | .ok declared => declared
  | .error _ => none

/-- Whether an object declares service defaults, upstream defaults or servers. -/
def creates (doc : Document) (object : Members) : Bool :=
  (declaredObject? doc Directive.serviceKey object).isSome ||
    (declaredObject? doc Directive.upstreamKey object).isSome || !(serversOf object).isEmpty

namespace Site

/-- The site of the document. -/
def document (doc : Document) : Site := ⟨[], [doc.root]⟩

/-- A site inside another. -/
def enter (site : Site) (name : String) (object : Members) : Site :=
  ⟨name :: site.names, object :: site.objects⟩

/-- The base name: that of the document, extended by the names from the outside inwards. -/
def base (naming : Naming) (root : String) (site : Site) : String :=
  site.names.foldr (fun name base => naming.extend base name) root

/-- The base name of a scope extends that of the scope around it. -/
theorem base_cons (naming : Naming) (root name : String) (names : List String)
    (objects around : List Members) : base naming root ⟨name :: names, objects⟩ =
      naming.extend (base naming root ⟨names, around⟩) name := by
  rw [base, base, List.foldr_cons]

/-- What the innermost object that declares it declares under a key. -/
def innermost? (doc : Document) (key : String) (site : Site) : Option Members :=
  site.objects.findSome? (declaredObject? doc key)

/-- The innermost defaults of each kind. -/
def defaults (doc : Document) (site : Site) : Defaults :=
  ⟨site.innermost? doc Directive.serviceKey, site.innermost? doc Directive.upstreamKey,
    site.innermost? doc Directive.routeKey⟩

/-- The innermost servers. -/
def servers (site : Site) : List Json :=
  ((site.objects.map serversOf).find? fun servers => !servers.isEmpty).getD []

end Site

/-- A cascade that hands down what its site has. -/
structure Follows (ctx : Context) (root : String) (site : Site) (cascade : Cascade) : Prop where
  base_eq : cascade.base = site.base ctx.naming root
  servers_eq : cascade.servers = site.servers
  defaults_eq : cascade.defaults = site.defaults ctx.doc

/-- Readable defaults are the declared objects. -/
theorem eq_of_declaredDefaults {doc : Document} {object : Members} {own : Defaults}
    (h : declaredDefaults doc object = .ok own) :
    own = ⟨declaredObject? doc Directive.serviceKey object,
      declaredObject? doc Directive.upstreamKey object,
      declaredObject? doc Directive.routeKey object⟩ := by
  simp only [declaredDefaults] at h
  obtain ⟨service, hservice, h⟩ := bind_eq_ok_iff.1 h
  obtain ⟨upstream, hupstream, h⟩ := bind_eq_ok_iff.1 h
  obtain ⟨route, hroute, h⟩ := bind_eq_ok_iff.1 h
  obtain rfl := Except.ok.inj h
  simp [declaredObject?, hservice, hupstream, hroute]

theorem makesService_eq_creates {doc : Document} {object : Members} {own : Defaults}
    (h : declaredDefaults doc object = .ok own) :
    makesService own (serversOf object) = creates doc object := by
  rw [eq_of_declaredDefaults h]
  rfl

/-- The document hands down what its site has. -/
theorem Follows.document {ctx : Context} {base : String} {root : Cascade} {made : Made}
    (top : Cascade.Top ctx base root made) :
    Follows ctx base (Site.document ctx.doc) root := by
  refine ⟨top.base_eq, ?_, ?_⟩
  · rw [top.servers_eq]
    cases hservers : ctx.doc.servers with
    | nil => simp [Site.servers, Site.document, ← Document.servers.eq_1, hservers]
    | cons server rest => simp [Site.servers, Site.document, ← Document.servers.eq_1, hservers]
  · rw [eq_of_declaredDefaults top.defaults_eq]
    simp only [Site.defaults, Site.innermost?, Site.document, List.findSome?_cons,
      List.findSome?_nil]
    congr 1 <;> (split <;> simp_all)

/-- A scope inside another hands down what its site has. -/
theorem Follows.enter {ctx : Context} {root name : String} {site : Site}
    {parent child : Cascade} {object : Members} {made : Option Made}
    (h : Follows ctx root site parent) (inside : Cascade.Inside ctx parent object name child made) :
    Follows ctx root (site.enter name object) child := by
  obtain ⟨own, hown, hdefaults, -⟩ := inside.own
  refine ⟨?_, ?_, ?_⟩
  · rw [inside.base_eq, h.base_eq]
    exact (Site.base_cons ..).symm
  · rw [inside.servers_eq, h.servers_eq]
    simp only [Site.servers, Site.enter, List.map_cons, List.find?_cons]
    cases serversOf object <;> simp
  · rw [hdefaults, h.defaults_eq, eq_of_declaredDefaults hown]
    simp only [Defaults.over, Site.defaults, Site.innermost?, Site.enter, List.findSome?_cons]
    congr 1 <;> (split <;> simp_all)

/-- The service of a scope is made from its site. -/
theorem Follows.make_eq {ctx : Context} {root : String} {site : Site} {cascade : Cascade}
    {made : Made} (h : Follows ctx root site cascade) (hmake : cascade.make ctx = .ok made) :
    service ctx.stamp (site.base ctx.naming root) site.servers (site.defaults ctx.doc)
      ctx.options.readUri = .ok (made.service, made.upstream) := by
  rw [← h.base_eq, ← h.servers_eq, ← h.defaults_eq]
  simp only [Cascade.make] at hmake
  obtain ⟨⟨entity, up⟩, hservice, hmake⟩ := bind_eq_ok_iff.1 hmake
  obtain rfl := Except.ok.inj hmake
  exact hservice

/-- A scope makes a service exactly when its object declares something for one, and it is the one
that its site describes. -/
theorem Cascade.Inside.made_cases {ctx : Context} {parent child : Cascade} {object : Members}
    {name : String} {made : Option Made} (inside : Inside ctx parent object name child made) :
    (creates ctx.doc object = true ∧ ∃ m, made = some m ∧ child.make ctx = .ok m) ∨
      (creates ctx.doc object = false ∧ made = none) := by
  obtain ⟨own, hown, -, hcases⟩ := inside.own
  rw [makesService_eq_creates hown] at hcases
  obtain ⟨hyes, -, hmade⟩ | ⟨hno, hnone, -⟩ := hcases
  · exact Or.inl ⟨hyes, hmade⟩
  · exact Or.inr ⟨hno, hnone⟩

/-- The service of a scope is what the scope makes. -/
theorem Cascade.Inside.make_eq {ctx : Context} {parent child : Cascade} {object : Members}
    {name : String} {made : Option Made} (inside : Inside ctx parent object name child made)
    {m : Made} (hmade : made = some m) : child.make ctx = .ok m := by
  obtain ⟨-, n, hn, hmake⟩ | ⟨-, hnone⟩ := inside.made_cases
  · obtain rfl : n = m := Option.some.inj (hn.symm.trans hmade)
    exact hmake
  · rw [hnone] at hmade
    cases hmade

/-- The plugins and routes of an operation, taken apart. -/
theorem operationRoutes_cases {ctx : Context} {scope : Cascade} {path method : String}
    {item operation : Members} {plugins routes : List Members}
    (h : scope.operationRoutes ctx path item method operation = .ok (plugins, routes)) :
    ∃ parameters body template, ctx.doc.parameters item operation = .ok parameters ∧
      ctx.doc.requestBody operation = .ok body ∧
      scope.operationPlugins ctx operation parameters body = .ok plugins ∧
      routePath ctx.doc ctx.naming parameters scope.defaultPriority path = .ok template ∧
      expandHeaders ctx.doc ctx.naming ctx.stamp scope.base parameters
        (scope.route ctx method template) = .ok routes := by
  simp only [Cascade.operationRoutes] at h
  obtain ⟨parameters, hparameters, h⟩ := bind_eq_ok_iff.1 h
  obtain ⟨body, hbody, h⟩ := bind_eq_ok_iff.1 h
  obtain ⟨own, hown, h⟩ := bind_eq_ok_iff.1 h
  obtain ⟨template, htemplate, h⟩ := bind_eq_ok_iff.1 h
  obtain ⟨split, hsplit, h⟩ := bind_eq_ok_iff.1 h
  obtain ⟨rfl, rfl⟩ := Prod.mk.inj (Except.ok.inj h)
  exact ⟨parameters, body, template, hparameters, hbody, hown, htemplate, hsplit⟩

/-- The route of an operation has the base name of its scope, the method in upper case and the
regular expression of its path. -/
theorem get?_route (ctx : Context) (scope : Cascade) (method : String) (path : RoutePath) :
    (scope.route ctx method path).get? "name" = some (.str scope.base) ∧
      (scope.route ctx method path).get? "methods" = some (.ofStrings [method.toUpper]) ∧
      (scope.route ctx method path).get? "paths" = some (.ofStrings [path.regex]) := by
  simp only [Cascade.route]
  refine ⟨?_, ?_, ?_⟩ <;> rw [Members.get?_insertNew_of_ne _ _ _ (by decide)] <;>
    simp [Members.get?_insert]

/-! ## Plans that succeeded -/

/-- What the plan of an operation is. -/
structure OperationPlan.Planned (ctx : Context) (parent : Cascade) (path : String)
    (item : Members) (entry : String × Members) (op : OperationPlan) : Prop where
  entry_eq : entry = (op.method, op.object)
  named : operationName op.method op.object = .ok op.name
  inside : Cascade.Inside ctx parent op.object op.name op.cascade op.made
  routed : op.cascade.operationRoutes ctx path item op.method op.object = .ok (op.plugins, op.routes)

/-- What the plan of a path is. -/
structure PathPlan.Planned (ctx : Context) (root : Cascade) (entry : String × Members)
    (p : PathPlan) : Prop where
  entry_eq : entry = (p.path, p.object)
  named : pathName p.path p.object = .ok p.name
  inside : Cascade.Inside ctx root p.object p.name p.cascade p.made
  endpoints : ∃ entries, operations p.path p.object = .ok entries ∧
    List.Forall₂ (OperationPlan.Planned ctx p.cascade p.path p.object) entries p.endpoints

/-- What the plan of a document is. -/
structure Plan.Planned (ctx : Context) (base : String) (plan : Plan) : Prop where
  top : Cascade.Top ctx base plan.root plan.made
  paths : ∃ items, ctx.doc.pathItems = .ok items ∧
    List.Forall₂ (PathPlan.Planned ctx plan.root) items plan.paths

/-- Every operation of a planned path is planned. -/
theorem PathPlan.Planned.exists_operation {ctx : Context} {root : Cascade}
    {entry : String × Members} {p : PathPlan} (h : p.Planned ctx root entry) {op : OperationPlan}
    (hop : op ∈ p.endpoints) : ∃ entry, op.Planned ctx p.cascade p.path p.object entry := by
  obtain ⟨entries, -, hops⟩ := h.endpoints
  obtain ⟨entry, -, planned⟩ := exists_of_mem_forall₂ hops op hop
  exact ⟨entry, planned⟩

section Scopes
variable {ctx : Context} {base : String} {plan : Plan} (h : plan.Planned ctx base)
include h

/-- Every path of a planned document is planned. -/
theorem Plan.Planned.exists_path {p : PathPlan} (hp : p ∈ plan.paths) :
    ∃ entry, p.Planned ctx plan.root entry := by
  obtain ⟨items, -, hpaths⟩ := h.paths
  obtain ⟨entry, -, planned⟩ := exists_of_mem_forall₂ hpaths p hp
  exact ⟨entry, planned⟩

/-- What the document has and every scope hands down holds of all scopes of a plan. -/
theorem Plan.Planned.forall_scopes (Inv : Cascade → Prop) (htop : Inv plan.root)
    (henter : ∀ {parent child : Cascade} {object : Members} {name : String} {made : Option Made},
      Inv parent → Cascade.Inside ctx parent object name child made → Inv child) :
    ∀ p ∈ plan.paths, Inv p.cascade ∧ ∀ op ∈ p.endpoints, Inv op.cascade := by
  intro p hp
  obtain ⟨_, path⟩ := h.exists_path hp
  have hpath := henter htop path.inside
  refine ⟨hpath, ?_⟩
  intro op hop
  obtain ⟨_, planned⟩ := path.exists_operation hop
  exact henter hpath planned.inside

end Scopes

theorem OperationPlan.planned_of_of {ctx : Context} {parent : Cascade} {path : String}
    {item : Members} {entry : String × Members} {op : OperationPlan}
    (h : OperationPlan.of ctx parent path item entry = .ok op) :
    Planned ctx parent path item entry op := by
  obtain ⟨method, operation⟩ := entry
  simp only [OperationPlan.of] at h
  obtain ⟨name, hname, h⟩ := bind_eq_ok_iff.1 h
  obtain ⟨⟨cascade, made⟩, henter, h⟩ := bind_eq_ok_iff.1 h
  obtain ⟨⟨plugins, routes⟩, hroutes, h⟩ := bind_eq_ok_iff.1 h
  obtain rfl := Except.ok.inj h
  exact ⟨rfl, hname, Cascade.inside_of_enter henter, hroutes⟩

theorem PathPlan.planned_of_of {ctx : Context} {root : Cascade} {entry : String × Members}
    {p : PathPlan} (h : PathPlan.of ctx root entry = .ok p) : Planned ctx root entry p := by
  obtain ⟨path, item⟩ := entry
  simp only [PathPlan.of] at h
  obtain ⟨name, hname, h⟩ := bind_eq_ok_iff.1 h
  obtain ⟨⟨cascade, made⟩, henter, h⟩ := bind_eq_ok_iff.1 h
  obtain ⟨entries, hentries, h⟩ := bind_eq_ok_iff.1 h
  obtain ⟨endpoints, hendpoints, h⟩ := bind_eq_ok_iff.1 h
  obtain rfl := Except.ok.inj h
  exact ⟨rfl, hname, Cascade.inside_of_enter henter, entries, hentries,
    (forall₂_of_mapM_eq_ok hendpoints).imp fun _ _ => OperationPlan.planned_of_of⟩

theorem Plan.planned_of_of {ctx : Context} {base : String} {plan : Plan}
    (h : Plan.of ctx base = .ok plan) : Planned ctx base plan := by
  simp only [Plan.of] at h
  obtain ⟨⟨root, made⟩, hdoc, h⟩ := bind_eq_ok_iff.1 h
  obtain ⟨items, hitems, h⟩ := bind_eq_ok_iff.1 h
  obtain ⟨paths, hpaths, h⟩ := bind_eq_ok_iff.1 h
  obtain rfl := Except.ok.inj h
  exact ⟨Cascade.top_of_ofDocument hdoc, items, hitems,
    (forall₂_of_mapM_eq_ok hpaths).imp fun _ _ => PathPlan.planned_of_of⟩

/-- A compilation that succeeds settles its run, plans the document and lays out the plan. -/
theorem exists_plan_of_compile {fresh : Uuid} {options : Options} {doc : Document}
    {c : Configuration} (h : compile fresh options doc = .ok c) :
    ∃ ctx base plan, Context.ofRun fresh options doc = .ok (ctx, base) ∧
      Plan.of ctx base = .ok plan ∧ c = plan.configuration ctx := by
  rw [compile_eq] at h
  obtain ⟨⟨ctx, base⟩, hrun, h⟩ := bind_eq_ok_iff.1 h
  obtain ⟨plan, hplan, hc⟩ := map_eq_ok_iff.1 h
  exact ⟨ctx, base, plan, hrun, hplan, hc.symm⟩

end ApiGateway
