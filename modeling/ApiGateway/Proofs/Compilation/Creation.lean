import ApiGateway.Proofs.Compilation.Entities
import ApiGateway.Proofs.Compilation.Unbound
import ApiGateway.Proofs.Entity.Stamp

/-!
# Creations

Services and routes are made one by one, each with the list of plugins in effect for it at that
moment. What the configuration holds is read off these creations: an owner carries the plugins
without consumers, the others refer to it from the top level. So what is true of every creation is
true of the output, and the one thing left to say is which creations the service of the document
takes along when it is left out.

## Main definitions

* `Creation`: a service or a route with the plugins in effect for it.
* `Creation.complete`, `Creation.share`: the owner as the output has it, and a plugin that refers
  to it.
* `Plan.services`, `Plan.routes`: the creations of a plan, and `Plan.kept`: the services that are
  not left out.
* `Creation.Sound`: what the walk ensures of every creation.
-/
namespace ApiGateway

open Plugin (Ordered AllUnbound)

/-- The field by which plugins refer to an owner, which is also the kind of its identifier. -/
def Holder.label : Holder → String
  | .service => "service"
  | .route => "route"

/-- A service or a route when it is made: the site that makes it, its name, the entity before
plugins are put in, the upstream of a service that has one, and the plugins in effect for it,
stamped for it. -/
structure Creation where
  holder : Holder
  site : Site
  name : String
  entity : Members
  upstream : Option Members
  plugins : List Members

namespace Creation

/-- The service that a scope makes. -/
def ofService (site : Site) (scope : Cascade) (made : Made) : Creation :=
  ⟨.service, site, scope.base, made.service, made.upstream, scope.plugins⟩

/-- A route of an operation with a base name, whose routes are to carry plugins. -/
def ofRoute (ctx : Context) (site : Site) (base : String) (plugins : List Members)
    (route : Members) : Creation :=
  ⟨.route, site, (route.string? "name").getD base, route, none, Route.own ctx base plugins route⟩

/-- The text by which plugins refer to an owner. -/
def key (stamp : Stamp) (x : Creation) : String :=
  if stamp.skipId then x.name else stamp.idText x.name x.holder.label

/-- A plugin that refers to its owner. -/
def share (ctx : Context) (x : Creation) (plugin : Members) : Members :=
  plugin.insert x.holder.label (ctx.stamp.foreignKey x.entity)

/-- The plugins that leave an owner for the top level. -/
def moved (ctx : Context) (x : Creation) : List Members :=
  (Plugin.bubble x.holder.label (ctx.stamp.foreignKey x.entity) x.plugins).1

/-- The owner with the plugins that stay with it. -/
def complete (ctx : Context) (x : Creation) : Members :=
  x.entity.insert "plugins"
    (.ofObjects (Plugin.bubble x.holder.label (ctx.stamp.foreignKey x.entity) x.plugins).2)

/-- The plugins of consumers leave, each referring to the owner. -/
theorem mem_moved_iff {ctx : Context} {x : Creation} {p : Members} :
    p ∈ x.moved ctx ↔ ∃ q ∈ x.plugins, Plugin.hasConsumer q = true ∧ x.share ctx q = p := by
  simp only [moved, Plugin.bubble, List.mem_map, List.mem_filter, and_assoc]
  rfl

/-- The plugins without consumers stay. -/
theorem get?_plugins_complete (ctx : Context) (x : Creation) :
    (x.complete ctx).get? "plugins" =
      some (.ofObjects (x.plugins.filter fun p => !Plugin.hasConsumer p)) := by
  rw [complete, Members.get?_insert_self]
  rfl

theorem get?_complete (ctx : Context) (x : Creation) {key : String} (hne : key ≠ "plugins") :
    (x.complete ctx).get? key = x.entity.get? key := by
  simp [complete, Members.get?_insert, hne]

end Creation

/-! ## The creations of a plan -/

namespace OperationPlan

/-- The service that an operation makes. -/
def services (site : Site) (op : OperationPlan) : List Creation :=
  op.made.toList.map (Creation.ofService site op.cascade)

/-- The routes that an operation makes. -/
def created (ctx : Context) (site : Site) (op : OperationPlan) : List Creation :=
  op.routes.map (Creation.ofRoute ctx site op.cascade.base op.plugins)

end OperationPlan

/-- The services that a path and its operations make. -/
def PathPlan.services (doc : Document) (p : PathPlan) : List Creation :=
  p.made.toList.map (Creation.ofService (p.site doc) p.cascade) ++
    p.endpoints.flatMap fun op => op.services (p.endpoint doc op).site

/-- The routes that the operations of a path make. -/
def PathPlan.created (ctx : Context) (p : PathPlan) : List Creation :=
  p.endpoints.flatMap fun op => op.created ctx (p.endpoint ctx.doc op).site

namespace Plan

/-- The service of the document. -/
def document (ctx : Context) (plan : Plan) : Creation :=
  .ofService (.document ctx.doc) plan.root plan.made

/-- The services that a plan makes, that of the document first. -/
def services (ctx : Context) (plan : Plan) : List Creation :=
  plan.document ctx :: plan.paths.flatMap (PathPlan.services ctx.doc)

/-- The routes that a plan makes. -/
def routes (ctx : Context) (plan : Plan) : List Creation :=
  plan.paths.flatMap (PathPlan.created ctx)

/-- The services that are not left out. -/
def kept (ctx : Context) (plan : Plan) : List Creation :=
  if plan.dropped ctx then plan.paths.flatMap (PathPlan.services ctx.doc) else plan.services ctx

end Plan

section Layout
variable {ctx : Context} {plan : Plan}

/-- The service of the document, of a path that makes one, and of an operation that makes one. -/
theorem Plan.mem_services_iff {x : Creation} : x ∈ plan.services ctx ↔
    x = plan.document ctx ∨ ∃ p ∈ plan.paths,
      (∃ made, p.made = some made ∧ x = .ofService (p.site ctx.doc) p.cascade made) ∨
      ∃ op ∈ p.endpoints, ∃ made, op.made = some made ∧
        x = .ofService (p.endpoint ctx.doc op).site op.cascade made := by
  simp only [services, PathPlan.services, OperationPlan.services, List.mem_cons, List.mem_flatMap,
    List.mem_append, List.mem_map, Option.mem_toList, @eq_comm _ x]

/-- The routes of the operations. -/
theorem Plan.mem_created_iff {x : Creation} : x ∈ plan.routes ctx ↔
    ∃ p ∈ plan.paths, ∃ op ∈ p.endpoints, ∃ route ∈ op.routes, x = .ofRoute ctx
      (p.endpoint ctx.doc op).site op.cascade.base op.plugins route := by
  simp only [routes, PathPlan.created, OperationPlan.created, List.mem_flatMap, List.mem_map,
    @eq_comm _ x]

/-- The services of slots, apart from their routes, are creations. -/
theorem OperationPlan.map_slots (site : Site) (op : OperationPlan) :
    (op.slots ctx).map (fun slot => (slot.service, slot.upstream)) =
      (op.services site).map fun x => (x.complete ctx, x.upstream) := by
  rw [slots_eq, services, List.map_map, List.map_map]
  rfl

theorem PathPlan.map_slots (p : PathPlan) :
    (p.slots ctx).map (fun slot => (slot.service, slot.upstream)) =
      (p.services ctx.doc).map fun x => (x.complete ctx, x.upstream) := by
  have hslots : p.slots ctx = p.ownSlots ctx ++ p.endpoints.flatMap (OperationPlan.slots ctx) := rfl
  rw [hslots, ownSlots_eq, services, List.map_append, List.map_append, List.map_map, List.map_map,
    List.map_flatMap, List.map_flatMap]
  congr 1
  exact List.flatMap_congr fun op _ => OperationPlan.map_slots _ op

/-- The services that are laid out, apart from their routes, are those of the plan. -/
theorem Plan.map_slots (plan : Plan) :
    (plan.slots ctx).map (fun slot => (slot.service, slot.upstream)) =
      (plan.services ctx).map fun x => (x.complete ctx, x.upstream) := by
  rw [slots, services, List.map_cons, List.map_cons, List.map_flatMap, List.map_flatMap]
  exact congrArg _ (List.flatMap_congr fun p _ => PathPlan.map_slots p)

/-- The routes of an operation stand in its own service, or in the service around it. -/
theorem OperationPlan.routes_perm (site : Site) (op : OperationPlan) :
    (op.hosted ctx ++ (op.slots ctx).flatMap Slot.routes).Perm
      ((op.created ctx site).map (Creation.complete ctx)) := by
  have hcreated : (op.created ctx site).map (Creation.complete ctx) = op.complete ctx := by
    rw [created, List.map_map]
    rfl
  rw [hcreated]
  cases hmade : op.made with
  | none => simp [hosted, slots, hmade]
  | some made => simp [hosted, slots, hmade, Made.slot]

/-- The routes of a path stand in the services of the path, or in that of the document. -/
theorem PathPlan.routes_perm (p : PathPlan) :
    (p.hosted ctx ++ (p.slots ctx).flatMap Slot.routes).Perm
      ((p.created ctx).map (Creation.complete ctx)) := by
  have hoperations : (p.endpoints.flatMap (OperationPlan.hosted ctx) ++
      (p.endpoints.flatMap (OperationPlan.slots ctx)).flatMap Slot.routes).Perm
      ((p.created ctx).map (Creation.complete ctx)) := by
    rw [created, List.map_flatMap, List.flatMap_assoc]
    refine (List.flatMap_append_perm _ _ _).trans ?_
    exact List.Perm.flatMap_left _ fun op _ => OperationPlan.routes_perm _ op
  cases hmade : p.made with
  | none => simpa [hosted, slots, hmade] using hoperations
  | some made => simpa [hosted, slots, hmade, Made.slot] using hoperations

/-- The routes that are laid out are those of the plan. -/
theorem Plan.routes_perm (plan : Plan) :
    ((plan.slots ctx).flatMap Slot.routes).Perm
      ((plan.routes ctx).map (Creation.complete ctx)) := by
  have hslots : (plan.slots ctx).flatMap Slot.routes =
      plan.paths.flatMap (PathPlan.hosted ctx) ++
        plan.paths.flatMap fun p => (p.slots ctx).flatMap Slot.routes := by
    rw [slots, List.flatMap_cons, List.flatMap_assoc]
    rfl
  rw [hslots, routes, List.map_flatMap]
  refine (List.flatMap_append_perm _ _ _).trans ?_
  exact List.Perm.flatMap_left _ fun p _ => PathPlan.routes_perm p

/-- The plugins that leave the service of a scope are those of its creation. -/
theorem Made.flatMap_moved (site : Site) (scope : Cascade) (made : Option Made) :
    (made.map (Made.moved ctx scope.plugins)).getD [] =
      (made.toList.map (Creation.ofService site scope)).flatMap (Creation.moved ctx) := by
  cases made with
  | none => rfl
  | some made =>
    rw [Option.toList_some, List.map_singleton, List.flatMap_singleton]
    rfl

theorem OperationPlan.shared_eq (site : Site) (op : OperationPlan) :
    op.shared ctx = (op.services site ++ op.created ctx site).flatMap (Creation.moved ctx) := by
  have hroutes : (op.created ctx site).flatMap (Creation.moved ctx) =
      op.routes.flatMap (Route.moved ctx op.cascade.base op.plugins) := by
    rw [created, List.flatMap_map]
    rfl
  rw [shared, Made.flatMap_moved site, List.flatMap_append, hroutes]
  rfl

theorem PathPlan.shared_perm (p : PathPlan) :
    (p.shared ctx).Perm
      ((p.services ctx.doc ++ p.created ctx).flatMap (Creation.moved ctx)) := by
  have hoperations : p.endpoints.flatMap (OperationPlan.shared ctx) = p.endpoints.flatMap fun op =>
      (op.services (p.endpoint ctx.doc op).site).flatMap (Creation.moved ctx) ++
        (op.created ctx (p.endpoint ctx.doc op).site).flatMap (Creation.moved ctx) :=
    List.flatMap_congr fun op _ => by rw [op.shared_eq, List.flatMap_append]
  rw [shared, Made.flatMap_moved (p.site ctx.doc), hoperations, services, created,
    List.append_assoc, List.flatMap_append, List.flatMap_append, List.flatMap_assoc,
    List.flatMap_assoc]
  exact (List.flatMap_append_perm _ _ _).symm.append_left _

/-- The plugins that are laid out at the top level are those that leave the creations. -/
theorem Plan.shared_perm (plan : Plan) :
    (plan.shared ctx).Perm
      ((plan.services ctx ++ plan.routes ctx).flatMap (Creation.moved ctx)) := by
  have hpaths : (plan.paths.flatMap (PathPlan.shared ctx)).Perm
      (plan.paths.flatMap fun p => (p.services ctx.doc).flatMap (Creation.moved ctx) ++
        (p.created ctx).flatMap (Creation.moved ctx)) := by
    refine List.Perm.flatMap_left _ fun p _ => ?_
    rw [← List.flatMap_append]
    exact p.shared_perm
  rw [shared, services, routes, List.cons_append, List.flatMap_cons, List.flatMap_append,
    List.flatMap_assoc, List.flatMap_assoc]
  exact (hpaths.trans (List.flatMap_append_perm _ _ _).symm).append_left _

end Layout

/-! ## The creations of a configuration -/

/-- The routes of a configuration. -/
def Configuration.routes (c : Configuration) : List Members :=
  c.services.flatMap Configuration.routesOf

/-- Objects that agree but for one key have the same values under other keys. -/
theorem Members.get?_eq_of_erase_eq {members others : Members} {key other : String}
    (h : members.erase key = others.erase key) (hne : other ≠ key) :
    members.get? other = others.get? other := by
  have hget := congrArg (fun m => get? m other) h
  simpa [get?_erase, hne] using hget

namespace Plan
variable {ctx : Context} {plan : Plan}

/-- The slots that are not left out hold the services that are kept. -/
theorem map_keptSlots (ctx : Context) (plan : Plan) :
    (plan.keptSlots ctx).map (fun slot => (slot.service, slot.upstream)) =
      (plan.kept ctx).map fun x => (x.complete ctx, x.upstream) := by
  unfold keptSlots kept
  split
  · rw [List.map_flatMap, List.map_flatMap]
    exact List.flatMap_congr fun p _ => PathPlan.map_slots p
  · exact plan.map_slots

/-- The services of a configuration, apart from their routes, are those that are kept. -/
theorem services_perm_kept : ((plan.configuration ctx).services.map (·.erase "routes")).Perm
    ((plan.kept ctx).map fun x => (x.complete ctx).erase "routes") := by
  have herase : ((plan.keptSlots ctx).map Slot.complete).map (fun s => s.erase "routes") =
      (plan.kept ctx).map fun x => (x.complete ctx).erase "routes" := by
    have := congrArg (List.map fun pair => Members.erase pair.1 "routes") (plan.map_keptSlots ctx)
    simpa [Function.comp_def, Slot.complete] using this
  rw [← herase]
  exact services_perm.map _

theorem upstreams_perm_kept : (plan.configuration ctx).upstreams.Perm
    ((plan.kept ctx).filterMap Creation.upstream) := by
  have hups : (plan.keptSlots ctx).filterMap Slot.upstream =
      (plan.kept ctx).filterMap Creation.upstream := by
    have := congrArg (List.filterMap Prod.snd) (plan.map_keptSlots ctx)
    simpa [List.filterMap_map, Function.comp_def] using this
  rw [← hups]
  exact upstreams_perm

/-- A service that is left out has no routes, so all routes are kept. -/
theorem routes_perm_created : (plan.configuration ctx).routes.Perm
    ((plan.routes ctx).map (Creation.complete ctx)) := by
  have hkept : (plan.keptSlots ctx).flatMap Slot.routes = (plan.slots ctx).flatMap Slot.routes := by
    unfold keptSlots
    split
    · rename_i hdropped
      have hroutes : (plan.ownSlot ctx).routes = [] := by
        simpa using (Bool.and_eq_true_iff.1 hdropped).2
      have hslots : plan.slots ctx =
          plan.ownSlot ctx :: plan.paths.flatMap (PathPlan.slots ctx) := rfl
      rw [hslots, List.flatMap_cons, hroutes, List.nil_append]
    · rfl
  have hroutes : ((plan.keptSlots ctx).map Slot.complete).flatMap Configuration.routesOf =
      (plan.slots ctx).flatMap Slot.routes := by
    rw [List.flatMap_map, ← hkept]
    exact List.flatMap_congr fun slot _ => routesOf_complete slot
  refine (services_perm.flatMap_right _).trans ?_
  rw [hroutes]
  exact plan.routes_perm

/-- A service of a configuration is one that is kept, with routes. -/
theorem exists_kept_of_mem_services {s : Members} (hs : s ∈ (plan.configuration ctx).services) :
    ∃ x ∈ plan.kept ctx, s.erase "routes" = (x.complete ctx).erase "routes" := by
  obtain ⟨x, hx, heq⟩ := List.mem_map.1 (services_perm_kept.mem_iff.1 (List.mem_map_of_mem hs))
  exact ⟨x, hx, heq.symm⟩

/-- A service that is kept stands in the configuration, with routes. -/
theorem exists_mem_services_of_kept {x : Creation} (hx : x ∈ plan.kept ctx) :
    ∃ s ∈ (plan.configuration ctx).services,
      s.erase "routes" = (x.complete ctx).erase "routes" :=
  List.mem_map.1 (services_perm_kept.mem_iff.2 (List.mem_map_of_mem hx))

theorem mem_routes_iff {r : Members} : r ∈ (plan.configuration ctx).routes ↔
    ∃ x ∈ plan.routes ctx, x.complete ctx = r := by
  rw [routes_perm_created.mem_iff, List.mem_map]

/-- A plugin of the top level has left a creation and does not go with the service of the
document. -/
theorem mem_plugins_iff {p : Members} : p ∈ (plan.configuration ctx).plugins ↔
    (∃ x ∈ plan.services ctx ++ plan.routes ctx, p ∈ x.moved ctx) ∧
      plan.survives ctx p = true := by
  rw [plugins_perm.mem_iff, List.mem_filter, plan.shared_perm.mem_iff, List.mem_flatMap]

/-- What a service or a route of a configuration has, its routes apart, is what its creation has. -/
theorem exists_kept_of_mem_owners {owner : Members}
    (howner : owner ∈ (plan.configuration ctx).services ++ (plan.configuration ctx).routes) :
    ∃ x ∈ plan.kept ctx ++ plan.routes ctx, ∀ key ≠ "routes",
      owner.get? key = (x.complete ctx).get? key := by
  rcases List.mem_append.1 howner with hs | hr
  · obtain ⟨x, hx, herase⟩ := exists_kept_of_mem_services hs
    exact ⟨x, List.mem_append_left _ hx, fun key hne => Members.get?_eq_of_erase_eq herase hne⟩
  · obtain ⟨x, hx, rfl⟩ := mem_routes_iff.1 hr
    exact ⟨x, List.mem_append_right _ hx, fun key _ => rfl⟩

theorem kept_subset_services (plan : Plan) : plan.kept ctx ⊆ plan.services ctx := by
  unfold kept
  split
  · exact List.subset_cons_self _ _
  · exact List.Subset.refl _

/-- A service that is not kept is that of the document. -/
theorem mem_kept_or_eq {x : Creation} (hx : x ∈ plan.services ctx) :
    x ∈ plan.kept ctx ∨ (plan.dropped ctx = true ∧ x = plan.document ctx) := by
  unfold kept
  split
  · rename_i hdropped
    rcases List.mem_cons.1 hx with rfl | hx
    · exact Or.inr ⟨hdropped, rfl⟩
    · exact Or.inl hx
  · exact Or.inl hx

end Plan

/-! ## What the walk ensures -/

namespace Creation

/-- A creation that has its name and bears its stamp, whose plugins are in order, stamped for it
and without references to owners, and which is backed by its upstream. -/
structure Sound (ctx : Context) (x : Creation) : Prop where
  named : x.entity.get? "name" = some (.str x.name)
  bears : Bears ctx.stamp x.name x.holder.label x.entity
  ordered : Ordered x.plugins
  restamped : ∀ p ∈ x.plugins, ∃ q, p = Plugin.restamp ctx.stamp x.name q
  allUnbound : AllUnbound ctx.options.openId x.plugins
  backed : ∀ up, x.upstream = some up → Backs ctx.stamp x.name x.entity up

/-- Plugins refer to no owner, but for the one of OpenID Connect. -/
theorem Sound.unbound {ctx : Context} {x : Creation} (h : x.Sound ctx) :
    ∀ p ∈ x.plugins, Plugin.name p ≠ openIdName → Plugin.Unbound p :=
  fun p hp hname => h.allUnbound p hp fun _ => hname

/-- Where no plugin is derived from security requirements, none refers to an owner. -/
theorem Sound.unbound_of_openId_eq_false {ctx : Context} {x : Creation} (h : x.Sound ctx)
    (hopenId : ctx.options.openId = false) : ∀ p ∈ x.plugins, Plugin.Unbound p :=
  fun p hp => h.allUnbound p hp fun hderives => absurd (hopenId.symm.trans hderives) (by decide)

theorem sound_ofService {ctx : Context} (site : Site) {scope : Cascade} {made : Made}
    (hscope : scope.Stamped ctx) (hunbound : scope.Unbound ctx.options.openId)
    (hmake : scope.make ctx = .ok made) :
    (ofService site scope made).Sound ctx := by
  obtain ⟨hname, hbears, hbacks⟩ := bears_of_make hmake
  exact ⟨hname, hbears, hscope.plugins, hscope.restamped, hunbound.plugins, hbacks⟩

theorem sound_ofRoute {ctx : Context} (site : Site) (base : String) {plugins : List Members}
    {route : Members} (hroute : BearsItsName ctx.stamp route) (hord : Ordered plugins)
    (hunbound : AllUnbound ctx.options.openId plugins) :
    (ofRoute ctx site base plugins route).Sound ctx := by
  obtain ⟨name, hname, hbears⟩ := hroute
  -- the base name only stands in for a route without a name, and there is none
  have heq : (ofRoute ctx site base plugins route).name = name := by
    simp [ofRoute, Members.string?, hname]
  refine ⟨heq ▸ hname, heq ▸ hbears, hord.map (Plugin.name_restamp _ _), ?_,
    hunbound.map_restamp _ _, ?_⟩
  · intro p hp
    obtain ⟨q, -, rfl⟩ := List.mem_map.1 hp
    exact ⟨q, rfl⟩
  · intro up hup
    cases hup

end Creation

section Plans
variable {ctx : Context} {root : String} {plan : Plan}

/-- The routes of an operation are sound. -/
theorem OperationPlan.Planned.sound_created {parent : Cascade} {path : String} {item : Members}
    {entry : String × Members} {op : OperationPlan} (h : op.Planned ctx parent path item entry)
    (hscope : op.cascade.Stamped ctx) (hunbound : op.cascade.Unbound ctx.options.openId)
    (site : Site) :
    ∀ x ∈ op.created ctx site, x.Sound ctx := by
  obtain ⟨parameters, body, template, -, -, hplugins, -, hexpand⟩ := operationRoutes_cases h.routed
  have hroutes := bearsItsName_of_expandHeaders
    (bearsItsName_route ctx op.cascade op.method template) hexpand
  intro x hx
  obtain ⟨route, hroute, rfl⟩ := List.mem_map.1 hx
  exact Creation.sound_ofRoute site _ (hroutes route hroute)
    (Cascade.operationPlugins_spec hscope hplugins).1
    (hunbound.operationPlugins hscope hplugins)

/-- All creations of a plan are sound. -/
theorem Plan.Planned.sound_creations (h : plan.Planned ctx root) :
    ∀ x ∈ plan.services ctx ++ plan.routes ctx, x.Sound ctx := by
  have htop : plan.root.Stamped ctx ∧ plan.root.Unbound ctx.options.openId :=
    ⟨Cascade.Stamped.top h.top, Cascade.Unbound.top h.top⟩
  have hscopes : ∀ p ∈ plan.paths, (p.cascade.Stamped ctx ∧ p.cascade.Unbound ctx.options.openId) ∧
      ∀ op ∈ p.endpoints, op.cascade.Stamped ctx ∧ op.cascade.Unbound ctx.options.openId :=
    h.forall_scopes (fun scope => scope.Stamped ctx ∧ scope.Unbound ctx.options.openId) htop
      fun hparent inside => ⟨hparent.1.enter inside, hparent.2.enter hparent.1 inside⟩
  intro x hx
  rcases List.mem_append.1 hx with hservice | hroute
  · obtain rfl | ⟨p, hp, ⟨made, hmade, rfl⟩ | ⟨op, hop, made, hmade, rfl⟩⟩ :=
      mem_services_iff.1 hservice
    · exact Creation.sound_ofService _ htop.1 htop.2 h.top.make_eq
    · obtain ⟨_, path⟩ := h.exists_path hp
      obtain ⟨⟨hstamped, hunbound⟩, -⟩ := hscopes p hp
      exact Creation.sound_ofService _ hstamped hunbound (path.inside.make_eq hmade)
    · obtain ⟨_, path⟩ := h.exists_path hp
      obtain ⟨_, planned⟩ := path.exists_operation hop
      obtain ⟨hstamped, hunbound⟩ := (hscopes p hp).2 op hop
      exact Creation.sound_ofService _ hstamped hunbound (planned.inside.make_eq hmade)
  · obtain ⟨p, hp, op, hop, route, hmem, rfl⟩ := mem_created_iff.1 hroute
    obtain ⟨_, path⟩ := h.exists_path hp
    obtain ⟨_, planned⟩ := path.exists_operation hop
    obtain ⟨hstamped, hunbound⟩ := (hscopes p hp).2 op hop
    exact planned.sound_created hstamped hunbound _ _ (List.mem_map_of_mem hmem)

/-- What is in the output is sound. -/
theorem Plan.Planned.sound_kept (h : plan.Planned ctx root) :
    ∀ x ∈ plan.kept ctx ++ plan.routes ctx, x.Sound ctx := by
  intro x hx
  refine h.sound_creations x ?_
  rcases List.mem_append.1 hx with hx | hx
  · exact List.mem_append_left _ (plan.kept_subset_services hx)
  · exact List.mem_append_right _ hx

end Plans

end ApiGateway
