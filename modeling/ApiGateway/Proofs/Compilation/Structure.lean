import ApiGateway.Proofs.Compilation.Planned
import ApiGateway.Proofs.Route.Header
import Mathlib

/-!
# The structure of a configuration

Which services a document asks for, and which operations each of them hosts, is read off the
document without the walk: the document asks for one, and so does every path and operation that
declares service defaults, upstream defaults or servers. An operation is hosted by the innermost
scope around it that asks for a service. A compilation provides exactly these services with
exactly these routes.

## Main definitions

* `Endpoint`, `PathOutline`, `Document.outline`: the operations and paths of a document.
* `Host`, `Document.hosts`: the services a document asks for, with the operations they host.
* `Splits`: the routes of an operation.
* `Provides`: a service with its upstream and routes.
-/
namespace ApiGateway

/-! ## What a document asks for -/

/-- An operation of a document. -/
structure Endpoint where
  site : Site
  item : Members
  method : String
  operation : Members

/-- A path of a document with its operations. -/
structure PathOutline where
  site : Site
  item : Members
  endpoints : List Endpoint

/-- A service that a document asks for: the scope that makes it, and the operations whose routes
belong to it. -/
structure Host where
  site : Site
  endpoints : List Endpoint

/-- The operation of a method inside a path. -/
def Endpoint.of (site : Site) (item : Members) (entry : String × Members) :
    Except Error Endpoint := do
  let (method, operation) := entry
  return ⟨site.enter (← operationName method operation) operation, item, method, operation⟩

/-- The path of a template. -/
def PathOutline.of (doc : Document) (entry : String × Members) : Except Error PathOutline := do
  let (path, item) := entry
  let site := (Site.document doc).enter (← pathName path item) item
  return ⟨site, item, ← (← operations path item).mapM (Endpoint.of site item)⟩

/-- The paths of a document. -/
def Document.outline (doc : Document) : Except Error (List PathOutline) := do
  (← doc.pathItems).mapM (PathOutline.of doc)

/-- The operations of a path that make no service. -/
def PathOutline.hosted (doc : Document) (p : PathOutline) : List Endpoint :=
  p.endpoints.filter fun e => !creates doc e.operation

/-- The services that a path and its operations ask for. -/
def PathOutline.hosts (doc : Document) (p : PathOutline) : List Host :=
  (if creates doc p.item then [⟨p.site, p.hosted doc⟩] else []) ++
    (p.endpoints.filter fun e => creates doc e.operation).map fun e => ⟨e.site, [e]⟩

/-- The services that a document asks for, its own one first. -/
def Document.hosts (doc : Document) (outline : List PathOutline) : List Host :=
  ⟨Site.document doc,
    (outline.filter fun p => !creates doc p.item).flatMap (PathOutline.hosted doc)⟩ ::
      outline.flatMap (PathOutline.hosts doc)

/-- The numbers of values of the headers that an operation lists values for. -/
def Endpoint.sizes (doc : Document) (e : Endpoint) : List ℕ :=
  match doc.parameters e.item e.operation with
  | .ok parameters => headerSizes doc parameters
  | .error _ => []

/-! ## What a compilation provides -/

/-- The routes of an operation: one for each combination of header values, under the base name
of the operation. -/
structure Splits (ctx : Context) (base : String) (e : Endpoint) (routes : List Members) :
    Prop where
  length_eq : routes.length = (e.sizes ctx.doc).prod
  names_eq : routes.map entityName =
    routeNames ctx.naming (e.site.base ctx.naming base) (e.sizes ctx.doc)
  methods_eq : ∀ route ∈ routes, route.get? "methods" = some (.ofStrings [e.method.toUpper])

/-- A service as its scope makes it, apart from its plugins, with the routes of the operations it
hosts. -/
structure Provides (ctx : Context) (base : String) (host : Host) (slot : Slot) : Prop where
  made : ∃ entity, service ctx.stamp (host.site.base ctx.naming base) host.site.servers
      (host.site.defaults ctx.doc) ctx.options.readUri = .ok (entity, slot.upstream) ∧
    slot.service.erase "plugins" = entity.erase "plugins"
  routes : ∃ routes, slot.routes = routes.flatten ∧
    List.Forall₂ (Splits ctx base) host.endpoints routes

/-! ## The outline of a plan -/

/-- The operation of a plan. -/
def OperationPlan.endpoint (site : Site) (item : Members) (op : OperationPlan) : Endpoint :=
  ⟨site.enter op.name op.object, item, op.method, op.object⟩

/-- The site of a planned path. -/
def PathPlan.site (doc : Document) (p : PathPlan) : Site :=
  (Site.document doc).enter p.name p.object

/-- The path of a plan. -/
def PathPlan.outline (doc : Document) (p : PathPlan) : PathOutline :=
  ⟨p.site doc, p.object, p.endpoints.map (OperationPlan.endpoint (p.site doc) p.object)⟩

/-- Corresponding values are computed from their entries. -/
theorem mapM_eq_ok_of_forall₂ {ε α β γ : Type} {f : α → Except ε γ} {g : β → γ}
    {entries : List α} {planned : List β}
    (h : List.Forall₂ (fun a b => f a = .ok (g b)) entries planned) :
    entries.mapM f = .ok (planned.map g) := by
  induction h with
  | nil => rfl
  | cons hab _ ih =>
    rw [List.mapM_cons, hab, ok_bind, ih]
    rfl

/-- The outline of a path is that of its plan. -/
theorem PathPlan.Planned.outline_eq {ctx : Context} {root : Cascade} {entry : String × Members}
    {p : PathPlan} (h : p.Planned ctx root entry) :
    PathOutline.of ctx.doc entry = .ok (p.outline ctx.doc) := by
  have hoperation : ∀ (entry : String × Members) (op : OperationPlan),
      op.Planned ctx p.cascade p.path p.object entry →
        Endpoint.of (p.site ctx.doc) p.object entry =
          .ok (op.endpoint (p.site ctx.doc) p.object) := by
    intro entry op hop
    obtain rfl := hop.entry_eq
    simp only [Endpoint.of, hop.named, ok_bind]
    rfl
  obtain rfl := h.entry_eq
  obtain ⟨entries, hentries, hops⟩ := h.endpoints
  have hmap := mapM_eq_ok_of_forall₂ (hops.imp hoperation)
  simp only [PathOutline.of, h.named, ok_bind, hentries]
  rw [show (Site.document ctx.doc).enter p.name p.object = p.site ctx.doc from rfl, hmap]
  rfl

/-- The outline of a document is that of its plan. -/
theorem outline_eq_of_planned {ctx : Context} {base : String} {plan : Plan}
    (h : plan.Planned ctx base) :
    ctx.doc.outline = .ok (plan.paths.map (PathPlan.outline ctx.doc)) := by
  obtain ⟨items, hitems, hpaths⟩ := h.paths
  simp only [Document.outline, hitems, ok_bind]
  exact mapM_eq_ok_of_forall₂ (hpaths.imp fun _ _ => PathPlan.Planned.outline_eq)

/-! ## A plan provides what its document asks for -/

/-- A planned operation has the routes that its parameters ask for. -/
theorem splits_of_planned {ctx : Context} {base path : String} {site : Site} {parent : Cascade}
    {item : Members} {entry : String × Members} {op : OperationPlan}
    (hf : Follows ctx base site parent) (h : op.Planned ctx parent path item entry) :
    Splits ctx base (op.endpoint site item) (op.complete ctx) := by
  have hbase := (hf.enter h.inside).base_eq
  obtain ⟨parameters, body, template, hparameters, -, -, -, hexpand⟩ := operationRoutes_cases h.routed
  obtain ⟨hroute, hmethods, -⟩ := get?_route ctx op.cascade op.method template
  have hsizes : (op.endpoint site item).sizes ctx.doc = headerSizes ctx.doc parameters := by
    simp [Endpoint.sizes, OperationPlan.endpoint, hparameters]
  have hnames := entityNames_of_expandHeaders (by simp [entityName, Members.string?, hroute]) hexpand
  refine ⟨?_, ?_, ?_⟩
  · rw [OperationPlan.complete, List.length_map, hsizes]
    obtain ⟨hnil, hroutes⟩ | ⟨-, headers, hlen, hroutes⟩ := expandHeaders_spec hexpand
    · rw [hroutes, hnil]
      rfl
    · rw [hroutes, List.length_mapIdx, hlen]
  · rw [hsizes, show (op.endpoint site item).site = site.enter op.name op.object from rfl, ← hbase,
      ← hnames, OperationPlan.complete, List.map_map]
    refine List.map_congr_left ?_
    intro route _
    simp [entityName, Route.complete, Members.string?, Members.get?_insert]
  · intro route hmem
    obtain ⟨own, hown, rfl⟩ := List.mem_map.1 hmem
    have hkept : own.get? "methods" = some (.ofStrings [op.method.toUpper]) := by
      rw [get?_of_expandHeaders hexpand (by decide) (by decide) (by decide) (by decide) own hown,
        hmethods]
    simpa [Route.complete, Members.get?_insert, OperationPlan.endpoint] using hkept

section Lists
variable {α β γ : Type}

/-- Lists made entry by entry correspond when those of every entry do. -/
theorem forall₂_flatMap {R : β → γ → Prop} {f : α → List β} {g : α → List γ} {entries : List α}
    (h : ∀ a ∈ entries, List.Forall₂ R (f a) (g a)) :
    List.Forall₂ R (entries.flatMap f) (entries.flatMap g) := by
  induction entries with
  | nil => exact List.Forall₂.nil
  | cons a entries ih =>
    rw [List.flatMap_cons, List.flatMap_cons]
    exact List.rel_append (h a (by simp)) (ih fun b hb => h b (by simp [hb]))

/-- A list to which only the entries with a property contribute is made of their contributions. -/
theorem flatMap_eq_flatten_filter {chosen : α → Bool} {f g : α → List β} {entries : List α}
    (h : ∀ a ∈ entries, f a = if chosen a then g a else []) :
    entries.flatMap f = ((entries.filter chosen).map g).flatten := by
  induction entries with
  | nil => rfl
  | cons a entries ih =>
    have hrest := ih fun b hb => h b (by simp [hb])
    rw [List.flatMap_cons, h a (by simp), hrest, List.filter_cons]
    split <;> simp

/-- The entries with a property correspond to the entries that contribute one value each. -/
theorem forall₂_filter_flatMap {R : β → γ → Prop} {chosen : α → Bool} {f : α → β}
    {g : α → List γ} {entries : List α}
    (h : ∀ a ∈ entries, (chosen a = true ∧ ∃ c, g a = [c] ∧ R (f a) c) ∨
      (chosen a = false ∧ g a = [])) :
    List.Forall₂ R ((entries.filter chosen).map f) (entries.flatMap g) := by
  induction entries with
  | nil => exact List.Forall₂.nil
  | cons a entries ih =>
    have hrest := ih fun b hb => h b (by simp [hb])
    rw [List.flatMap_cons, List.filter_cons]
    obtain ⟨hyes, c, hc, hrel⟩ | ⟨hno, hnil⟩ := h a (by simp)
    · rw [if_pos hyes, hc]
      exact List.Forall₂.cons hrel hrest
    · rw [if_neg (by simp [hno]), hnil]
      exact hrest

end Lists

/-- The service that a scope makes is provided, with the routes it is given. -/
theorem Provides.slot {ctx : Context} {base : String} {site : Site} {cascade : Cascade}
    {made : Made} (hf : Follows ctx base site cascade) (hmake : cascade.make ctx = .ok made)
    {endpoints : List Endpoint} {routes : List (List Members)}
    (hroutes : List.Forall₂ (Splits ctx base) endpoints routes) :
    Provides ctx base ⟨site, endpoints⟩ (made.slot ctx cascade.plugins routes.flatten) := by
  refine ⟨⟨made.service, hf.make_eq hmake, ?_⟩, routes, rfl, hroutes⟩
  simp [Made.slot]

/-- The routes of the operations of a path that make no service. -/
def PathPlan.hostedRoutes (ctx : Context) (p : PathPlan) : List (List Members) :=
  (p.endpoints.filter fun op => !creates ctx.doc op.object).map (OperationPlan.complete ctx)

section Paths
variable {ctx : Context} {base : String} {root : Cascade} {entry : String × Members}
  {p : PathPlan}

/-- The routes that a path leaves to services around its operations are those of the operations
that make no service. -/
theorem flatMap_hosted_eq (h : p.Planned ctx root entry) :
    p.endpoints.flatMap (OperationPlan.hosted ctx) = (p.hostedRoutes ctx).flatten := by
  obtain ⟨entries, -, hops⟩ := h.endpoints
  refine flatMap_eq_flatten_filter ?_
  intro op hop
  obtain ⟨_, -, planned⟩ := exists_of_mem_forall₂ hops op hop
  obtain ⟨hyes, m, hm, -⟩ | ⟨hno, hnone⟩ := planned.inside.made_cases
  · simp [OperationPlan.hosted, hyes, hm]
  · simp [OperationPlan.hosted, hno, hnone]

/-- The operations of a path that make no service have the routes they ask for. -/
theorem forall₂_hosted (hf : Follows ctx base (Site.document ctx.doc) root)
    (h : p.Planned ctx root entry) :
    List.Forall₂ (Splits ctx base) ((p.outline ctx.doc).hosted ctx.doc) (p.hostedRoutes ctx) := by
  obtain ⟨entries, -, hops⟩ := h.endpoints
  rw [PathOutline.hosted, PathPlan.outline, List.filter_map, List.forall₂_map_left_iff,
    PathPlan.hostedRoutes, List.forall₂_map_right_iff]
  refine List.forall₂_same.2 ?_
  intro op hop
  obtain ⟨_, -, planned⟩ := exists_of_mem_forall₂ hops op (List.mem_of_mem_filter hop)
  exact splits_of_planned (hf.enter h.inside) planned

/-- A path provides the services that it and its operations ask for. -/
theorem forall₂_slots (hf : Follows ctx base (Site.document ctx.doc) root)
    (h : p.Planned ctx root entry) :
    List.Forall₂ (Provides ctx base) ((p.outline ctx.doc).hosts ctx.doc) (p.slots ctx) := by
  have hpath := hf.enter h.inside
  obtain ⟨entries, -, hops⟩ := h.endpoints
  refine List.rel_append ?_ ?_
  · obtain ⟨hyes, m, hm, hmake⟩ | ⟨hno, hnone⟩ := h.inside.made_cases
    · rw [if_pos (show creates ctx.doc (p.outline ctx.doc).item = true from hyes), hm,
        flatMap_hosted_eq h]
      exact List.Forall₂.cons (Provides.slot hpath hmake (forall₂_hosted hf h)) List.Forall₂.nil
    · rw [if_neg (by simpa using (show creates ctx.doc (p.outline ctx.doc).item = false from hno)),
        hnone]
      exact List.Forall₂.nil
  · rw [PathPlan.outline, List.filter_map, List.map_map]
    refine forall₂_filter_flatMap ?_
    intro op hop
    obtain ⟨_, -, planned⟩ := exists_of_mem_forall₂ hops op hop
    obtain ⟨hyes, m, hm, hmake⟩ | ⟨hno, hnone⟩ := planned.inside.made_cases
    · refine Or.inl ⟨hyes, _, by rw [OperationPlan.slots, hm], ?_⟩
      have := Provides.slot (hpath.enter planned.inside) hmake
        (List.Forall₂.cons (splits_of_planned hpath planned) List.Forall₂.nil)
      rwa [List.flatten_singleton] at this
    · exact Or.inr ⟨hno, by rw [OperationPlan.slots, hnone]⟩

end Paths

/-- A plan provides the services that its document asks for. -/
theorem Plan.Planned.provides {ctx : Context} {base : String} {plan : Plan}
    (h : plan.Planned ctx base) :
    List.Forall₂ (Provides ctx base)
      (ctx.doc.hosts (plan.paths.map (PathPlan.outline ctx.doc))) (plan.slots ctx) := by
  have hf := Follows.document h.top
  obtain ⟨items, -, hpaths⟩ := h.paths
  have hplanned : ∀ p ∈ plan.paths, ∃ entry, p.Planned ctx plan.root entry := by
    intro p hp
    obtain ⟨entry, -, hentry⟩ := exists_of_mem_forall₂ hpaths p hp
    exact ⟨entry, hentry⟩
  have hhosted : plan.paths.flatMap (PathPlan.hosted ctx) =
      ((plan.paths.filter fun p => !creates ctx.doc p.object).flatMap
        (PathPlan.hostedRoutes ctx)).flatten := by
    have hpath : ∀ p ∈ plan.paths, PathPlan.hosted ctx p =
        if !creates ctx.doc p.object then (p.hostedRoutes ctx).flatten else [] := by
      intro p hp
      obtain ⟨entry, planned⟩ := hplanned p hp
      obtain ⟨hyes, m, hm, -⟩ | ⟨hno, hnone⟩ := planned.inside.made_cases
      · simp [PathPlan.hosted, hyes, hm]
      · simp [PathPlan.hosted, hno, hnone, flatMap_hosted_eq planned]
    rw [flatMap_eq_flatten_filter hpath, List.flatMap, List.flatten_flatten, List.map_map]
    rfl
  refine List.Forall₂.cons ?_ ?_
  · rw [hhosted]
    refine Provides.slot hf h.top.make_eq ?_
    rw [List.filter_map, List.flatMap_map]
    refine forall₂_flatMap ?_
    intro p hp
    obtain ⟨entry, planned⟩ := hplanned p (List.mem_of_mem_filter hp)
    exact forall₂_hosted hf planned
  · rw [List.flatMap_map]
    refine forall₂_flatMap ?_
    intro p hp
    obtain ⟨entry, planned⟩ := hplanned p hp
    exact forall₂_slots hf planned

/-! ## The configuration of a plan -/

theorem perm_sortEntities (entities : List Members) : (sortEntities entities).Perm entities :=
  List.mergeSort_perm _ _

theorem pairwise_sortEntities (entities : List Members) :
    (sortEntities entities).Pairwise fun a b => entityName a ≤ entityName b := by
  have h : (sortEntities entities).Pairwise fun a b => !decide (entityName b < entityName a) := by
    refine List.pairwise_mergeSort (fun a b c => ?_) (fun a b => ?_) entities
    · simpa [-String.lt_iff_ltb] using fun hab hbc => le_trans hab hbc
    · simpa [-String.lt_iff_ltb] using le_total (entityName a) (entityName b)
  refine h.imp fun {a b} hab => ?_
  simpa [-String.lt_iff_ltb] using hab

/-- The service of the document is dropped when the document has no servers, there are other
services and no route belongs to it. -/
theorem slots_dropUnused (stamp : Stamp) (hasServers : Bool) (first : Slot) (rest : List Slot)
    (shared : List Members) :
    (Build.dropUnused stamp hasServers ⟨first :: rest, shared⟩).slots =
      if !hasServers && !rest.isEmpty && first.routes.isEmpty then rest else first :: rest := by
  cases rest with
  | nil => simp [Build.dropUnused]
  | cons second rest =>
    simp only [Build.dropUnused, List.isEmpty_cons, Bool.not_false, Bool.and_true]
    split <;> rfl

/-- The routes of a service are those of its slot. -/
theorem list?_complete (slot : Slot) :
    slot.complete.list? "routes" = some (slot.routes.map .obj) := by
  simp [Slot.complete, Members.list?, Json.ofObjects]

/-- The number of routes of a configuration whose services are completed slots. -/
theorem routeCount_eq {c : Configuration} {slots : List Slot}
    (h : c.services.Perm (slots.map Slot.complete)) :
    c.routeCount = (slots.map fun slot => slot.routes.length).sum := by
  rw [Configuration.routeCount, (h.flatMap_right _).length_eq, List.length_flatMap, List.map_map]
  congr 1
  refine List.map_congr_left ?_
  intro slot _
  simp [list?_complete]

/-- An operation has as many routes as its headers have combinations. -/
theorem length_routes_of_provides {ctx : Context} {base : String} {host : Host} {slot : Slot}
    (h : Provides ctx base host slot) :
    slot.routes.length = (host.endpoints.map fun e => (e.sizes ctx.doc).prod).sum := by
  obtain ⟨routes, hroutes, hsplits⟩ := h.routes
  rw [hroutes]
  generalize host.endpoints = endpoints at hsplits
  clear hroutes h
  induction hsplits with
  | nil => rfl
  | cons hsplit _ ih =>
    rw [List.flatten_cons, List.length_append, ih, hsplit.length_eq, List.map_cons, List.sum_cons]

/-- Provided services have as many routes as the operations they host have combinations. -/
theorem sum_routes_of_provides {ctx : Context} {base : String} {hosts : List Host}
    {slots : List Slot} (h : List.Forall₂ (Provides ctx base) hosts slots) :
    (slots.map fun slot => slot.routes.length).sum =
      (hosts.map fun host => (host.endpoints.map fun e => (e.sizes ctx.doc).prod).sum).sum := by
  induction h with
  | nil => rfl
  | cons hprovided _ ih =>
    rw [List.map_cons, List.sum_cons, ih, length_routes_of_provides hprovided, List.map_cons,
      List.sum_cons]

section Sums
variable {α : Type} (weight : α → ℕ) (chosen : α → Bool)

/-- A sum over entries is the sum over those with a property and over those without. -/
theorem sum_filter_add_sum_filter_not (entries : List α) :
    ((entries.filter chosen).map weight).sum +
      ((entries.filter fun a => !chosen a).map weight).sum = (entries.map weight).sum := by
  induction entries with
  | nil => rfl
  | cons a entries ih =>
    rw [List.map_cons, List.sum_cons, ← ih, List.filter_cons, List.filter_cons]
    cases chosen a <;> simp <;> omega

end Sums

/-- The services that a document asks for host each of its operations once. -/
theorem sum_hosts_eq (doc : Document) (weight : Endpoint → ℕ) (outline : List PathOutline) :
    ((doc.hosts outline).map fun host => (host.endpoints.map weight).sum).sum =
      ((outline.flatMap PathOutline.endpoints).map weight).sum := by
  have hpath : ∀ p : PathOutline,
      (if creates doc p.item then 0 else ((p.hosted doc).map weight).sum) +
        ((p.hosts doc).map fun host => (host.endpoints.map weight).sum).sum =
          (p.endpoints.map weight).sum := by
    intro p
    have hsplit := sum_filter_add_sum_filter_not weight (fun e => creates doc e.operation) p.endpoints
    have hown : ((p.endpoints.filter fun e => creates doc e.operation).map
        ((fun host : Host => (host.endpoints.map weight).sum) ∘ fun e => ⟨e.site, [e]⟩)) =
        (p.endpoints.filter fun e => creates doc e.operation).map weight :=
      List.map_congr_left fun e _ => by simp
    rw [PathOutline.hosts, List.map_append, List.sum_append, List.map_map, hown, PathOutline.hosted]
    split
    · simp only [List.map_cons, List.map_nil, List.sum_cons, List.sum_nil]
      omega
    · simp only [List.map_nil, List.sum_nil]
      omega
  rw [Document.hosts, List.map_cons, List.sum_cons]
  induction outline with
  | nil => rfl
  | cons p outline ih =>
    have hp := hpath p
    simp only [List.flatMap_cons, List.map_append, List.sum_append, List.filter_cons] at ih ⊢
    cases hcreates : creates doc p.item <;> simp [hcreates] at hp ih ⊢ <;> omega

/-- The structure of the output. A compilation makes the services that its document asks for,
each from the base name, the innermost defaults and the innermost servers of its scope, with the
routes of the operations it hosts. The configuration has them in the order of their names, and
their upstreams in the order of theirs; the service of the document is left out exactly when the
document has no servers, there are other services and no route belongs to it. There are as many
routes as the operations have combinations of header values. -/
theorem structure_of_compile {fresh : Uuid} {options : Options} {doc : Document}
    {c : Configuration} (h : compile fresh options doc = .ok c) :
    ∃ ctx base outline first rest kept,
      Context.ofRun fresh options doc = .ok (ctx, base) ∧ doc.outline = .ok outline ∧
      List.Forall₂ (Provides ctx base) (doc.hosts outline) (first :: rest) ∧
      kept = (if doc.servers.isEmpty && !rest.isEmpty && first.routes.isEmpty then rest
        else first :: rest) ∧
      c.services.Perm (kept.map Slot.complete) ∧
      c.services.Pairwise (fun a b => entityName a ≤ entityName b) ∧
      c.upstreams.Perm (kept.filterMap Slot.upstream) ∧
      c.upstreams.Pairwise (fun a b => entityName a ≤ entityName b) ∧
      c.routeCount =
        ((outline.flatMap PathOutline.endpoints).map fun e => (e.sizes doc).prod).sum := by
  obtain ⟨ctx, base, plan, hrun, hplan, rfl⟩ := exists_plan_of_compile h
  obtain ⟨hdoc, -⟩ := Context.ofRun_cases hrun
  have planned := Plan.planned_of_of hplan
  have hprovides := planned.provides
  obtain ⟨first, rest, hslots⟩ : ∃ first rest, plan.slots ctx = first :: rest := ⟨_, _, rfl⟩
  rw [hslots, hdoc] at hprovides
  have hkept : (Build.dropUnused ctx.stamp (!doc.servers.isEmpty)
      ⟨first :: rest, plan.shared ctx⟩).slots =
      if doc.servers.isEmpty && !rest.isEmpty && first.routes.isEmpty then rest
        else first :: rest := by
    rw [slots_dropUnused, Bool.not_not]
  have hservices : (plan.configuration ctx).services.Perm
      ((if doc.servers.isEmpty && !rest.isEmpty && first.routes.isEmpty then rest
        else first :: rest).map Slot.complete) := by
    rw [← hkept, ← hslots, ← hdoc]
    exact perm_sortEntities _
  refine ⟨ctx, base, plan.paths.map (PathPlan.outline doc), first, rest, _, hrun,
    hdoc ▸ outline_eq_of_planned planned, hprovides, rfl, hservices, pairwise_sortEntities _, ?_,
    pairwise_sortEntities _, ?_⟩
  · rw [← hkept, ← hslots, ← hdoc]
    exact perm_sortEntities _
  · rw [routeCount_eq hservices, ← sum_hosts_eq doc, ← hdoc, ← sum_routes_of_provides
      (hdoc ▸ hprovides)]
    -- a service that is left out has no routes
    split
    · rename_i hdropped
      simp only [Bool.and_eq_true, List.isEmpty_iff] at hdropped
      simp [hdropped.2]
    · rfl

/-- A small document with an operation for two values of a header. -/
def greetingDocument : Document :=
  ⟨[("info", .obj [("title", .str "Greetings")]),
    ("paths", .obj [("/hello", .obj [("get", .obj [("parameters", .arr [.obj
      [("in", .str "header"), ("name", .str "x-lang"),
        ("schema", .obj [("enum", .arr [.str "en", .str "fr"])])]])])])]),
    ("x-kong-service-defaults", .obj [])], "3.0.0"⟩

/-- The operation of the small document has a route for each value. -/
theorem structure_of_compile_greetings :
    ∃ c, compile Uuid.dns { skipId := true } greetingDocument = .ok c ∧ c.routeCount = 2 := by
  obtain ⟨c, hc⟩ : ∃ c, (compile Uuid.dns { skipId := true } greetingDocument).toOption = some c :=
    Option.isSome_iff_exists.1 (by decide +kernel)
  rw [toOption_eq_some_iff] at hc
  obtain ⟨-, -, outline, -, -, -, -, houtline, -, -, -, -, -, -, hcount⟩ := structure_of_compile hc
  have hsum : (greetingDocument.outline.map fun outline =>
      ((outline.flatMap PathOutline.endpoints).map fun e =>
        (e.sizes greetingDocument).prod).sum) = .ok 2 := rfl
  rw [houtline] at hsum
  exact ⟨c, hc, hcount.trans (Except.ok.inj hsum)⟩

end ApiGateway
