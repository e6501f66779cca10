import ApiGateway.Proofs.Compilation.Structure
import Mathlib

/-!
# The entities of a configuration

Every entity of an output belongs to a service or a route. The walk knows to which: a service has
the base name of its scope, a route that of its operation with the number of its header
combination. So the entities of a configuration, read off its lists, are those of its plan in
another order, each with its owner.

## Main definitions

* `Kind`: services, upstreams, routes, and plugins by name.
* `Configuration.entities`: the entities of a configuration.
* `Owner`, `Owned`: a service or a route with its name, and an entity that belongs to it.
* `Site.sequence`, `Endpoint.owners`: the slugs a base name is made of, and the routes of an
  operation.
* `Plan.entities`: the entities of a plan with their owners.
-/
namespace ApiGateway

/-- The kinds of entities. Plugins of different names are of different kinds. -/
inductive Kind where
  | service
  | upstream
  | route
  | plugin (name : String)
  deriving DecidableEq

/-- What stands behind the base name in the text that an identifier is derived from. -/
def Kind.suffix : Kind → String
  | .service => "service"
  | .upstream => "upstream"
  | .route => "route"
  | .plugin name => "plugin." ++ name

/-- Different kinds have different suffixes. -/
theorem Kind.suffix_injective : Function.Injective Kind.suffix := by
  have hplugin : ∀ name : String, (suffix (.plugin name)).toList = "plugin.".toList ++ name.toList :=
    fun name => by simp [suffix]
  intro a b h
  have hchars := congrArg String.toList h
  cases a <;> cases b <;>
    first
    | rfl
    | exact absurd h (by decide)
    | (rw [hplugin, hplugin, List.append_cancel_left_eq, String.toList_inj] at hchars
       rw [hchars])
    | (simp only [hplugin] at hchars
       exact absurd (congrArg List.head? hchars) (by simp [suffix]))

namespace Configuration

/-- A plugin with its kind. -/
def ofPlugin (plugin : Members) : Kind × Members := (.plugin (Plugin.name plugin), plugin)

/-- A route with its plugins. -/
def entitiesOfRoute (route : Members) : List (Kind × Members) :=
  (.route, route) :: (pluginsOf route).map ofPlugin

/-- A service with its plugins and routes. -/
def entitiesOfService (service : Members) : List (Kind × Members) :=
  (.service, service) :: (pluginsOf service).map ofPlugin ++
    (routesOf service).flatMap entitiesOfRoute

/-- The entities of a configuration: services with their plugins, routes with theirs, upstreams,
and the plugins of the top level. -/
def entities (c : Configuration) : List (Kind × Members) :=
  c.services.flatMap entitiesOfService ++ c.upstreams.map (fun up => (.upstream, up)) ++
    c.plugins.map ofPlugin

end Configuration

/-! ## Owners -/

/-- What an owner is: a service, to which its upstream belongs too, or a route. -/
inductive Holder where
  | service
  | route
  deriving DecidableEq

/-- A service or a route, with its name and the slugs and the number that this name is made of. -/
structure Owner where
  holder : Holder
  name : String
  sequence : List String

/-- An entity with its owner. -/
structure Owned where
  owner : Owner
  kind : Kind
  entity : Members

/-- An entity without its owner. -/
def Owned.item (o : Owned) : Kind × Members := (o.kind, o.entity)

/-- A plugin of an owner. -/
def Owned.ofPlugin (owner : Owner) (plugin : Members) : Owned :=
  ⟨owner, .plugin (Plugin.name plugin), plugin⟩

/-- The slugs that the base name of a site is made of, from the document inwards. -/
def Site.sequence (naming : Naming) (root : String) (site : Site) : List String :=
  (root :: site.names.reverse.map naming.slug).filter (· ≠ "")

/-- The service of a site. -/
def Site.owner (naming : Naming) (root : String) (site : Site) : Owner :=
  ⟨.service, site.base naming root, site.sequence naming root⟩

/-- The routes of an operation, numbered when its headers list values. -/
def Endpoint.owners (naming : Naming) (root : String) (doc : Document) (e : Endpoint) :
    List Owner :=
  if e.sizes doc = [] then [⟨.route, e.site.base naming root, e.site.sequence naming root⟩]
  else (List.range (e.sizes doc).prod).map fun i =>
    ⟨.route, e.site.base naming root ++ String.singleton naming.separator ++ toString (i + 1),
      e.site.sequence naming root ++ [toString (i + 1)]⟩

/-- The routes of an operation have the names that its headers ask for. -/
theorem Endpoint.map_name_owners (naming : Naming) (root : String) (doc : Document)
    (e : Endpoint) : (e.owners naming root doc).map Owner.name =
      routeNames naming (e.site.base naming root) (e.sizes doc) := by
  unfold Endpoint.owners routeNames
  split
  · rfl
  · simp

/-! ## The entities of a plan -/

/-- A service with its upstream and its plugins. -/
def Slot.owned (owner : Owner) (slot : Slot) : List Owned :=
  ⟨owner, .service, slot.complete⟩ ::
    (slot.upstream.toList.map fun up => (⟨owner, .upstream, up⟩ : Owned)) ++
      (Configuration.pluginsOf slot.service).map (Owned.ofPlugin owner)

/-- A route with its plugins. -/
def Route.owned (owner : Owner) (route : Members) : List Owned :=
  ⟨owner, .route, route⟩ :: (Configuration.pluginsOf route).map (Owned.ofPlugin owner)

namespace OperationPlan

/-- The service that an operation makes, and its routes. -/
def nested (ctx : Context) (root : String) (e : Endpoint) (op : OperationPlan) : List Owned :=
  (op.slots ctx).flatMap (Slot.owned (e.site.owner ctx.naming root)) ++
    ((e.owners ctx.naming root ctx.doc).zip (op.complete ctx)).flatMap fun pair =>
      Route.owned pair.1 pair.2

/-- The plugins that leave the service and the routes of an operation. -/
def top (ctx : Context) (root : String) (e : Endpoint) (op : OperationPlan) : List Owned :=
  ((op.made.map (Made.moved ctx op.cascade.plugins)).getD []).map
      (Owned.ofPlugin (e.site.owner ctx.naming root)) ++
    ((e.owners ctx.naming root ctx.doc).zip op.routes).flatMap fun pair =>
      (Route.moved ctx op.cascade.base op.plugins pair.2).map (Owned.ofPlugin pair.1)

end OperationPlan

namespace PathPlan

/-- An operation of a path as the document has it. -/
def endpoint (doc : Document) (p : PathPlan) (op : OperationPlan) : Endpoint :=
  op.endpoint (p.site doc) p.object

/-- The slot of the service that a path makes. -/
def ownSlots (ctx : Context) (p : PathPlan) : List Slot :=
  match p.made with
  | some made => [made.slot ctx p.cascade.plugins
      (p.endpoints.flatMap (OperationPlan.hosted ctx))]
  | none => []

/-- The service that a path makes, and those of its operations with their routes. -/
def nested (ctx : Context) (root : String) (p : PathPlan) : List Owned :=
  (p.ownSlots ctx).flatMap (Slot.owned ((p.site ctx.doc).owner ctx.naming root)) ++
    p.endpoints.flatMap fun op => op.nested ctx root (p.endpoint ctx.doc op)

/-- The plugins that leave the services and routes of a path. -/
def top (ctx : Context) (root : String) (p : PathPlan) : List Owned :=
  ((p.made.map (Made.moved ctx p.cascade.plugins)).getD []).map
      (Owned.ofPlugin ((p.site ctx.doc).owner ctx.naming root)) ++
    p.endpoints.flatMap fun op => op.top ctx root (p.endpoint ctx.doc op)

end PathPlan

namespace Plan

/-- The owner of what belongs to the service of the document. -/
def owner (ctx : Context) (root : String) : Owner :=
  (Site.document ctx.doc).owner ctx.naming root

/-- The slot of the service of the document. -/
def ownSlot (ctx : Context) (plan : Plan) : Slot :=
  plan.made.slot ctx plan.root.plugins (plan.paths.flatMap (PathPlan.hosted ctx))

/-- The plugins of the top level. -/
def top (ctx : Context) (root : String) (plan : Plan) : List Owned :=
  (plan.made.moved ctx plan.root.plugins).map (Owned.ofPlugin (owner ctx root)) ++
    plan.paths.flatMap (PathPlan.top ctx root)

/-- Whether the service of the document is left out. -/
def dropped (ctx : Context) (plan : Plan) : Bool :=
  ctx.doc.servers.isEmpty && !(plan.paths.flatMap (PathPlan.slots ctx)).isEmpty &&
    (plan.ownSlot ctx).routes.isEmpty

/-- The slots that are not left out. -/
def keptSlots (ctx : Context) (plan : Plan) : List Slot :=
  if plan.dropped ctx then plan.paths.flatMap (PathPlan.slots ctx) else plan.slots ctx

/-- Whether a plugin of the top level stays there: it does not refer to a service that is left
out. -/
def survives (ctx : Context) (plan : Plan) (plugin : Members) : Bool :=
  !plan.dropped ctx || !((plugin.get? "service").map
    (ctx.stamp.foreignKey (plan.ownSlot ctx).service).sameValue).getD false

/-- The entities of the configuration of a plan. -/
def entities (ctx : Context) (root : String) (plan : Plan) : List Owned :=
  (if plan.dropped ctx then [] else (plan.ownSlot ctx).owned (owner ctx root)) ++
    plan.paths.flatMap (PathPlan.nested ctx root) ++
    (plan.top ctx root).filter fun o => plan.survives ctx o.entity

end Plan

theorem OperationPlan.slots_eq (ctx : Context) (op : OperationPlan) : op.slots ctx =
    op.made.toList.map (Made.slot ctx op.cascade.plugins (op.complete ctx)) := by
  unfold slots
  cases op.made <;> rfl

theorem PathPlan.ownSlots_eq (ctx : Context) (p : PathPlan) : p.ownSlots ctx =
    p.made.toList.map (Made.slot ctx p.cascade.plugins
      (p.endpoints.flatMap (OperationPlan.hosted ctx))) := by
  unfold ownSlots
  cases p.made <;> rfl

/-- The routes of an operation with their owners are its routes before plugins are put in. -/
theorem OperationPlan.flatMap_zip_complete (ctx : Context) (owners : List Owner)
    (op : OperationPlan) :
    ((owners.zip (op.complete ctx)).flatMap fun pair => Route.owned pair.1 pair.2) =
      (owners.zip op.routes).flatMap fun pair =>
        Route.owned pair.1 (Route.complete ctx op.cascade.base op.plugins pair.2) := by
  rw [complete, List.zip_map_right, List.flatMap_map]
  rfl

/-! ## Reading the entities off a configuration -/

@[simp] theorem objectsIn_ofObjects (objects : List Members) :
    objectsIn (some (.ofObjects objects)) = objects := by
  simp [objectsIn, Json.ofObjects, List.filterMap_map, Function.comp_def, Json.asObject?]

@[simp] theorem routesOf_complete (slot : Slot) :
    Configuration.routesOf slot.complete = slot.routes := by
  simp [Configuration.routesOf, Slot.complete]

@[simp] theorem pluginsOf_complete (slot : Slot) :
    Configuration.pluginsOf slot.complete = Configuration.pluginsOf slot.service := by
  simp [Configuration.pluginsOf, Slot.complete, Members.get?_insert]

/-- The plugins that a service carries are those that do not leave it. -/
@[simp] theorem pluginsOf_slot (ctx : Context) (plugins routes : List Members) (made : Made) :
    Configuration.pluginsOf (made.slot ctx plugins routes).service =
      (Plugin.bubble "service" (ctx.stamp.foreignKey made.service) plugins).2 := by
  simp [Configuration.pluginsOf, Made.slot]

/-- The plugins that a route carries are those that do not leave it. -/
@[simp] theorem Route.pluginsOf_complete (ctx : Context) (base : String) (plugins : List Members)
    (route : Members) : Configuration.pluginsOf (Route.complete ctx base plugins route) =
      (Plugin.bubble "route" (ctx.stamp.foreignKey route) (Route.own ctx base plugins route)).2 := by
  simp [Configuration.pluginsOf, Route.complete]

/-- The entities of a service with its upstream: what it owns, and its routes with theirs. -/
def Slot.entities (slot : Slot) : List (Kind × Members) :=
  Configuration.entitiesOfService slot.complete ++
    slot.upstream.toList.map fun up => (.upstream, up)

theorem Slot.entities_perm (owner : Owner) (slot : Slot) :
    slot.entities.Perm ((slot.owned owner).map Owned.item ++
      slot.routes.flatMap Configuration.entitiesOfRoute) := by
  have hitems : (slot.owned owner).map Owned.item =
      (.service, slot.complete) :: ((slot.upstream.toList.map fun up => (.upstream, up)) ++
        (Configuration.pluginsOf slot.service).map Configuration.ofPlugin) := by
    simp [Slot.owned, Function.comp_def, Owned.item, Owned.ofPlugin, Configuration.ofPlugin]
  rw [Slot.entities, hitems, Configuration.entitiesOfService, routesOf_complete,
    pluginsOf_complete, List.cons_append, List.cons_append, List.cons_append]
  refine List.Perm.cons _ ?_
  refine List.perm_append_comm.trans ?_
  rw [List.append_assoc]

/-- The entities of completed slots with their upstreams. -/
theorem flatMap_entities_perm (slots : List Slot) :
    (slots.flatMap Slot.entities).Perm
      ((slots.map Slot.complete).flatMap Configuration.entitiesOfService ++
        (slots.filterMap Slot.upstream).map fun up => (.upstream, up)) := by
  have hups : (slots.filterMap Slot.upstream).map (fun up => (Kind.upstream, up)) =
      slots.flatMap fun slot => slot.upstream.toList.map fun up => (.upstream, up) := by
    induction slots with
    | nil => rfl
    | cons slot slots ih =>
      rw [List.flatMap_cons, ← ih, List.filterMap_cons]
      cases slot.upstream <;> rfl
  rw [hups, List.flatMap_map]
  exact (List.flatMap_append_perm _ _ _).symm

/-- Pairs of which only the second side is read. -/
theorem flatMap_zip_snd {α β γ : Type} (f : β → List γ) {as : List α} {bs : List β}
    (h : as.length = bs.length) :
    ((as.zip bs).flatMap fun pair => f pair.2) = bs.flatMap f := by
  conv_rhs => rw [← List.map_snd_zip h.ge, List.flatMap_map]

theorem Route.map_item_owned (owner : Owner) (route : Members) :
    (Route.owned owner route).map Owned.item = Configuration.entitiesOfRoute route := by
  simp [Route.owned, Configuration.entitiesOfRoute, Owned.item, Owned.ofPlugin,
    Configuration.ofPlugin, Function.comp_def]

/-- The routes of an operation are as many as their owners. -/
theorem Splits.length_owners {ctx : Context} {root : String} {e : Endpoint}
    {routes : List Members} (h : Splits ctx root e routes) :
    (e.owners ctx.naming root ctx.doc).length = routes.length := by
  have hnames := h.names_eq.trans (e.map_name_owners ctx.naming root ctx.doc).symm
  simpa using (congrArg List.length hnames).symm

section Operations
variable {ctx : Context} {root : String} {e : Endpoint} {op : OperationPlan}

/-- What belongs to an operation: the routes that it leaves to the service around it, or its own
service with its routes. -/
theorem OperationPlan.nested_perm (h : Splits ctx root e (op.complete ctx)) :
    ((op.nested ctx root e).map Owned.item).Perm
      ((op.hosted ctx).flatMap Configuration.entitiesOfRoute ++
        (op.slots ctx).flatMap Slot.entities) := by
  have hroutes : (((e.owners ctx.naming root ctx.doc).zip (op.complete ctx)).flatMap fun pair =>
      Route.owned pair.1 pair.2).map Owned.item =
      (op.complete ctx).flatMap Configuration.entitiesOfRoute := by
    rw [List.map_flatMap]
    simp only [Route.map_item_owned]
    exact flatMap_zip_snd _ h.length_owners
  rw [nested, List.map_append, hroutes]
  cases hmade : op.made with
  | none => simp [hosted, slots, hmade]
  | some made =>
    simp only [hosted, slots, hmade, List.flatMap_nil, List.nil_append, List.flatMap_singleton]
    exact ((made.slot ctx op.cascade.plugins (op.complete ctx)).entities_perm _).symm

/-- The plugins that leave an operation are those of its owners. -/
theorem OperationPlan.map_entity_top (h : Splits ctx root e (op.complete ctx)) :
    (op.top ctx root e).map Owned.entity = op.shared ctx := by
  have hplugins : ∀ (owner : Owner) (plugins : List Members),
      (plugins.map (Owned.ofPlugin owner)).map Owned.entity = plugins := by
    intro owner plugins
    simp [Function.comp_def, Owned.ofPlugin]
  have hlen : (e.owners ctx.naming root ctx.doc).length = op.routes.length := by
    rw [h.length_owners, complete, List.length_map]
  rw [top, List.map_append, hplugins, List.map_flatMap, shared]
  simp only [hplugins]
  rw [flatMap_zip_snd _ hlen]

end Operations

section Paths
variable {ctx : Context} {root : String} {p : PathPlan}

/-- What belongs to a path: the routes that it leaves to the service of the document, and the
services of the path and its operations. -/
theorem PathPlan.nested_perm
    (h : ∀ op ∈ p.endpoints, Splits ctx root (p.endpoint ctx.doc op) (op.complete ctx)) :
    ((p.nested ctx root).map Owned.item).Perm
      ((p.hosted ctx).flatMap Configuration.entitiesOfRoute ++
        (p.slots ctx).flatMap Slot.entities) := by
  have hops : ((p.endpoints.flatMap fun op =>
      op.nested ctx root (p.endpoint ctx.doc op)).map Owned.item).Perm
      ((p.endpoints.flatMap (OperationPlan.hosted ctx)).flatMap Configuration.entitiesOfRoute ++
        (p.endpoints.flatMap (OperationPlan.slots ctx)).flatMap Slot.entities) := by
    rw [List.map_flatMap, List.flatMap_assoc, List.flatMap_assoc]
    refine List.Perm.trans ?_ (List.flatMap_append_perm _ _ _).symm
    exact List.Perm.flatMap_left _ fun op hop => (OperationPlan.nested_perm (h op hop))
  rw [nested, List.map_append]
  cases hmade : p.made with
  | none => simpa [ownSlots, hosted, slots, hmade] using hops
  | some made =>
    simp only [ownSlots, hosted, slots, hmade, List.flatMap_nil, List.nil_append,
      List.flatMap_append, List.flatMap_singleton]
    have hown := (made.slot ctx p.cascade.plugins
      (p.endpoints.flatMap (OperationPlan.hosted ctx))).entities_perm
        ((p.site ctx.doc).owner ctx.naming root)
    refine (List.Perm.append_left _ hops).trans ?_
    rw [← List.append_assoc]
    exact hown.symm.append_right _

theorem PathPlan.map_entity_top
    (h : ∀ op ∈ p.endpoints, Splits ctx root (p.endpoint ctx.doc op) (op.complete ctx)) :
    (p.top ctx root).map Owned.entity = p.shared ctx := by
  have hops : (p.endpoints.flatMap fun op => op.top ctx root (p.endpoint ctx.doc op)).map
      Owned.entity = p.endpoints.flatMap (OperationPlan.shared ctx) := by
    rw [List.map_flatMap]
    exact List.flatMap_congr fun op hop => OperationPlan.map_entity_top (h op hop)
  rw [top, List.map_append, hops, shared]
  simp [Function.comp_def, Owned.ofPlugin]

end Paths

/-- The plugins of the top level that are kept. -/
theorem shared_dropUnused (stamp : Stamp) (hasServers : Bool) (first : Slot) (rest : List Slot)
    (shared : List Members) :
    (Build.dropUnused stamp hasServers ⟨first :: rest, shared⟩).shared =
      shared.filter fun p => !(!hasServers && !rest.isEmpty && first.routes.isEmpty) ||
        !((p.get? "service").map (stamp.foreignKey first.service).sameValue).getD false := by
  cases rest with
  | nil => simp [Build.dropUnused]
  | cons second rest =>
    simp only [Build.dropUnused, List.isEmpty_cons, Bool.not_false, Bool.and_true]
    split
    · rename_i hdropped
      simp [hdropped]
    · rename_i hkept
      simp [Bool.eq_false_iff.2 hkept]

section Plans
variable {ctx : Context} {root : String} {plan : Plan}

/-- The routes of every operation are those it asks for. -/
theorem Plan.Planned.splits (h : plan.Planned ctx root) :
    ∀ p ∈ plan.paths, ∀ op ∈ p.endpoints,
      Splits ctx root (p.endpoint ctx.doc op) (op.complete ctx) := by
  intro p hp op hop
  have hf := Follows.document h.top
  obtain ⟨items, -, hpaths⟩ := h.paths
  obtain ⟨_, -, path⟩ := exists_of_mem_forall₂ hpaths p hp
  obtain ⟨entries, -, hops⟩ := path.endpoints
  obtain ⟨_, -, planned⟩ := exists_of_mem_forall₂ hops op hop
  exact splits_of_planned (hf.enter path.inside) planned

/-- What belongs to the paths of a plan: the routes that they leave to the service of the
document, and their services. -/
theorem Plan.nested_perm (h : plan.Planned ctx root) :
    ((plan.paths.flatMap (PathPlan.nested ctx root)).map Owned.item).Perm
      ((plan.ownSlot ctx).routes.flatMap Configuration.entitiesOfRoute ++
        (plan.paths.flatMap (PathPlan.slots ctx)).flatMap Slot.entities) := by
  have hroutes : (plan.ownSlot ctx).routes = plan.paths.flatMap (PathPlan.hosted ctx) := rfl
  rw [hroutes, List.map_flatMap, List.flatMap_assoc, List.flatMap_assoc]
  refine List.Perm.trans ?_ (List.flatMap_append_perm _ _ _).symm
  exact List.Perm.flatMap_left _ fun p hp => PathPlan.nested_perm (h.splits p hp)

/-- The plugins of the top level with their owners are those that left their owners. -/
theorem Plan.map_entity_top (h : plan.Planned ctx root) :
    (plan.top ctx root).map Owned.entity = plan.shared ctx := by
  have hpaths : (plan.paths.flatMap (PathPlan.top ctx root)).map Owned.entity =
      plan.paths.flatMap (PathPlan.shared ctx) := by
    rw [List.map_flatMap]
    exact List.flatMap_congr fun p hp => PathPlan.map_entity_top (h.splits p hp)
  rw [top, List.map_append, hpaths, shared]
  simp [Function.comp_def, Owned.ofPlugin]

/-- Everything of the top level is a plugin. -/
theorem Plan.exists_ofPlugin_of_mem_top {o : Owned} (h : o ∈ plan.top ctx root) :
    ∃ owner p, o = Owned.ofPlugin owner p := by
  have hmap : ∀ {owner : Owner} {plugins : List Members},
      o ∈ plugins.map (Owned.ofPlugin owner) → ∃ owner p, o = Owned.ofPlugin owner p := by
    intro owner plugins ho
    obtain ⟨p, -, rfl⟩ := List.mem_map.1 ho
    exact ⟨owner, p, rfl⟩
  simp only [Plan.top, List.mem_append, List.mem_flatMap, PathPlan.top, OperationPlan.top] at h
  obtain h | ⟨p, -, h | ⟨op, -, h | ⟨pair, -, h⟩⟩⟩ := h
  · exact hmap h
  · exact hmap h
  · exact hmap h
  · exact hmap h

/-- A finished build has the slots that are not left out. -/
theorem Plan.slots_eq_keptSlots (ctx : Context) (plan : Plan) :
    (Build.dropUnused ctx.stamp (!ctx.doc.servers.isEmpty)
      ⟨plan.slots ctx, plan.shared ctx⟩).slots = plan.keptSlots ctx := by
  have hslots : plan.slots ctx = plan.ownSlot ctx :: plan.paths.flatMap (PathPlan.slots ctx) := rfl
  rw [hslots, slots_dropUnused, Bool.not_not]
  rfl

/-- The services of a configuration are the completed slots. -/
theorem Plan.services_perm : (plan.configuration ctx).services.Perm
    ((plan.keptSlots ctx).map Slot.complete) := by
  rw [← plan.slots_eq_keptSlots ctx]
  exact perm_sortEntities _

theorem Plan.upstreams_perm : (plan.configuration ctx).upstreams.Perm
    ((plan.keptSlots ctx).filterMap Slot.upstream) := by
  rw [← plan.slots_eq_keptSlots ctx]
  exact perm_sortEntities _

/-- The plugins of the top level of a configuration are those that stay there. -/
theorem Plan.plugins_perm : (plan.configuration ctx).plugins.Perm
    ((plan.shared ctx).filter (plan.survives ctx)) := by
  have hslots : plan.slots ctx = plan.ownSlot ctx :: plan.paths.flatMap (PathPlan.slots ctx) := rfl
  have hshared : (Build.dropUnused ctx.stamp (!ctx.doc.servers.isEmpty)
      ⟨plan.slots ctx, plan.shared ctx⟩).shared =
        (plan.shared ctx).filter (plan.survives ctx) := by
    rw [hslots, shared_dropUnused, Bool.not_not]
    rfl
  rw [← hshared]
  exact List.mergeSort_perm _ _

/-- The entities of the configuration of a plan are those of the plan. -/
theorem Plan.entities_perm (h : plan.Planned ctx root) :
    (plan.configuration ctx).entities.Perm ((plan.entities ctx root).map Owned.item) := by
  have hslots : plan.slots ctx = plan.ownSlot ctx :: plan.paths.flatMap (PathPlan.slots ctx) := rfl
  have hshared : ((plan.shared ctx).filter (plan.survives ctx)).map Configuration.ofPlugin =
      ((plan.top ctx root).filter fun o => plan.survives ctx o.entity).map Owned.item := by
    have hitem : ∀ o ∈ (plan.top ctx root).filter fun o => plan.survives ctx o.entity,
        o.item = Configuration.ofPlugin o.entity := by
      intro o ho
      obtain ⟨owner, p, rfl⟩ := exists_ofPlugin_of_mem_top (List.mem_of_mem_filter ho)
      rfl
    have hfilter : ((plan.top ctx root).filter fun o => plan.survives ctx o.entity).map
        Owned.entity = (plan.shared ctx).filter (plan.survives ctx) := by
      rw [← map_entity_top h, List.filter_map]
      rfl
    rw [List.map_congr_left hitem, ← hfilter, List.map_map]
    rfl
  have hnested : ((plan.keptSlots ctx).flatMap Slot.entities).Perm
      ((if plan.dropped ctx then [] else (plan.ownSlot ctx).owned (owner ctx root)).map Owned.item ++
        (plan.paths.flatMap (PathPlan.nested ctx root)).map Owned.item) := by
    unfold keptSlots
    by_cases hdropped : plan.dropped ctx = true
    · -- a service that is left out has no routes
      have hroutes : (plan.ownSlot ctx).routes = [] := by
        simpa using (Bool.and_eq_true_iff.1 hdropped).2
      have hperm := nested_perm h
      rw [hroutes] at hperm
      simpa [hdropped] using hperm.symm
    · rw [if_neg hdropped, if_neg hdropped, hslots, List.flatMap_cons]
      refine (((plan.ownSlot ctx).entities_perm (owner ctx root)).append_right _).trans ?_
      rw [List.append_assoc]
      exact (nested_perm h).symm.append_left _
  have hservices : ((plan.configuration ctx).services.flatMap Configuration.entitiesOfService ++
      (plan.configuration ctx).upstreams.map fun up => (Kind.upstream, up)).Perm
      ((plan.keptSlots ctx).flatMap Slot.entities) := by
    refine List.Perm.trans ?_ (flatMap_entities_perm _).symm
    exact (services_perm.flatMap_right _).append (upstreams_perm.map _)
  rw [Configuration.entities, Plan.entities, List.map_append, List.map_append, ← hshared]
  exact (hservices.trans hnested).append (plugins_perm.map _)

end Plans

end ApiGateway
