import ApiGateway.Proofs.Compilation.Untagged
import ApiGateway.Proofs.Plugin.Removal

/-!
# Configurations without the plugins of a name

Leaving out the plugins of a name commutes with laying out a plan: the configuration without them is
the configuration of the plan without them. No other plugin, no entity, no reference and no order
depends on them.

## Main definitions

* `Route.without`, `Service.without`, `Configuration.without`: without the plugins of a name at any
  depth.
* `OperationPlan.without`, `PathPlan.without`, `Plan.without`: the same for plans.

## Main results

* `Plan.without_configuration`: leaving out before laying out is leaving out behind it.
-/
namespace ApiGateway

/-- The plugins that a value lists, without those of a name. -/
def Json.withoutPlugin (n : String) (value : Json) : Json :=
  .ofObjects (Plugin.without n (objectsIn (some value)))

/-- A route without the plugins of a name. -/
def Route.without (n : String) (route : Members) : Members :=
  route.mapValues fun key value => if key = "plugins" then value.withoutPlugin n else value

/-- A service without the plugins of a name, neither its own nor those of its routes. -/
def Service.without (n : String) (service : Members) : Members :=
  service.mapValues fun key value =>
    if key = "plugins" then value.withoutPlugin n
    else if key = "routes" then .ofObjects ((objectsIn (some value)).map (Route.without n))
    else value

/-- A configuration without the plugins of a name, nested ones and those of the top level. -/
def Configuration.without (n : String) (c : Configuration) : Configuration :=
  { c with
    services := c.services.map (Service.without n)
    plugins := Plugin.without n c.plugins }

section Entities
variable (n : String) {entity : Members} {key : String}

@[simp] theorem Json.withoutPlugin_ofObjects (plugins : List Members) :
    (Json.ofObjects plugins).withoutPlugin n = .ofObjects (Plugin.without n plugins) := by
  simp [Json.withoutPlugin]

/-- Every other field of a route stays. -/
theorem Route.get?_without (hkey : key ≠ "plugins") :
    (without n entity).get? key = entity.get? key := by
  simp [without, Members.get?_mapValues, hkey]

/-- Every other field of a service stays. -/
theorem Service.get?_without (hplugins : key ≠ "plugins") (hroutes : key ≠ "routes") :
    (without n entity).get? key = entity.get? key := by
  simp [without, Members.get?_mapValues, hplugins, hroutes]

theorem keyField_ne_plugins (stamp : Stamp) :
    stamp.keyField ≠ "plugins" ∧ stamp.keyField ≠ "routes" := by
  unfold Stamp.keyField
  split <;> simp

/-- Entities are referred to as before. -/
theorem Route.foreignKey_without (stamp : Stamp) :
    stamp.foreignKey (without n entity) = stamp.foreignKey entity := by
  rw [Stamp.foreignKey, get?_without n (keyField_ne_plugins stamp).1, Stamp.foreignKey]

theorem Service.foreignKey_without (stamp : Stamp) :
    stamp.foreignKey (without n entity) = stamp.foreignKey entity := by
  obtain ⟨hplugins, hroutes⟩ := keyField_ne_plugins stamp
  rw [Stamp.foreignKey, get?_without n hplugins hroutes, Stamp.foreignKey]

theorem Service.entityName_without : entityName (without n entity) = entityName entity := by
  rw [entityName, entityName, Members.string?, get?_without n (by decide) (by decide),
    Members.string?]

end Entities

/-! ## Plans -/

/-- A service as it is made, without the plugins of a name. -/
def Made.without (n : String) (made : Made) : Made := ⟨Service.without n made.service, made.upstream⟩

/-- What a scope hands down without the plugins of a name, and without that of its security
requirements. -/
def Cascade.without (n : String) (scope : Cascade) : Cascade :=
  { scope with
    plugins := Plugin.without n scope.plugins
    pending := Plugin.without n scope.pending
    openId := none }

def OperationPlan.without (n : String) (op : OperationPlan) : OperationPlan :=
  { op with
    cascade := op.cascade.without n
    made := op.made.map (Made.without n)
    plugins := Plugin.without n op.plugins
    routes := op.routes.map (Route.without n) }

def PathPlan.without (n : String) (p : PathPlan) : PathPlan :=
  { p with
    cascade := p.cascade.without n
    made := p.made.map (Made.without n)
    endpoints := p.endpoints.map (OperationPlan.without n) }

def Plan.without (n : String) (plan : Plan) : Plan :=
  ⟨plan.root.without n, plan.made.without n, plan.paths.map (PathPlan.without n)⟩

/-- A slot without the plugins of a name. -/
def Slot.without (n : String) (slot : Slot) : Slot :=
  ⟨Service.without n slot.service, slot.upstream, slot.routes.map (Route.without n)⟩

/-! ## Laying out -/

section Layout
variable (n : String) (ctx : Context)

namespace Route
variable (base : String) (plugins : List Members) (route : Members)

theorem without_own : Plugin.without n (own ctx base plugins route) =
    own ctx base (Plugin.without n plugins) (without n route) := by
  have hname : (without n route).string? "name" = route.string? "name" := by
    rw [Members.string?, get?_without n (by decide), Members.string?]
  rw [own, own, hname]
  exact Plugin.without_map n (Plugin.name_restamp _ _) plugins

theorem without_complete : without n (complete ctx base plugins route) =
    complete ctx base (Plugin.without n plugins) (without n route) := by
  have hkept := (Plugin.without_bubble n (by decide : "name" ≠ "route") (ctx.stamp.foreignKey route)
    (own ctx base plugins route)).2
  rw [without_own] at hkept
  rw [complete, complete, foreignKey_without, without, Members.mapValues_insert]
  simp only [if_true, Json.withoutPlugin_ofObjects, hkept]
  rfl

theorem without_moved : Plugin.without n (moved ctx base plugins route) =
    moved ctx base (Plugin.without n plugins) (without n route) := by
  rw [moved, moved, foreignKey_without, ← without_own]
  exact (Plugin.without_bubble n (by decide : "name" ≠ "route") _ _).1

end Route

namespace Made
variable (plugins routes : List Members) (made : Made)

theorem without_slot : (made.slot ctx plugins routes).without n =
    (made.without n).slot ctx (Plugin.without n plugins) (routes.map (Route.without n)) := by
  have hkept := (Plugin.without_bubble n (by decide : "name" ≠ "service")
    (ctx.stamp.foreignKey made.service) plugins).2
  have hservice : Service.without n (made.slot ctx plugins routes).service =
      ((made.without n).slot ctx (Plugin.without n plugins)
        (routes.map (Route.without n))).service := by
    rw [slot, slot, Made.without, Service.foreignKey_without, ← hkept, Service.without,
      Members.mapValues_insert]
    simp only [if_true, Json.withoutPlugin_ofObjects]
    rfl
  rw [Slot.without, hservice]
  rfl

theorem without_moved : Plugin.without n (made.moved ctx plugins) =
    (made.without n).moved ctx (Plugin.without n plugins) := by
  rw [moved, moved, Made.without, Service.foreignKey_without]
  exact (Plugin.without_bubble n (by decide : "name" ≠ "service") _ _).1

/-- So are the plugins that leave a service that may not be made. -/
theorem without_map_moved (made : Option Made) :
    Plugin.without n ((made.map (moved ctx plugins)).getD []) =
      ((made.map (Made.without n)).map (moved ctx (Plugin.without n plugins))).getD [] := by
  cases made with
  | none => rfl
  | some made => exact without_moved n ctx plugins made

end Made

namespace OperationPlan
variable (op : OperationPlan)

theorem made_without : (op.without n).made = op.made.map (Made.without n) := rfl

theorem without_complete : (op.complete ctx).map (Route.without n) =
    (op.without n).complete ctx := by
  simp only [complete, without, List.map_map, Function.comp_def, Route.without_complete]
  rfl

theorem without_hosted : (op.hosted ctx).map (Route.without n) = (op.without n).hosted ctx := by
  have hcomplete := op.without_complete n ctx
  unfold hosted
  rw [op.made_without n]
  cases op.made with
  | none => exact hcomplete
  | some made => rfl

theorem without_slots : (op.slots ctx).map (Slot.without n) = (op.without n).slots ctx := by
  rw [slots_eq, slots_eq, ← op.without_complete n ctx, List.map_map]
  rw [op.made_without n]
  cases op.made with
  | none => rfl
  | some made => exact congrArg (fun slot => [slot]) (Made.without_slot n ctx _ _ made)

theorem without_shared : Plugin.without n (op.shared ctx) = (op.without n).shared ctx := by
  have hroutes : Plugin.without n (op.routes.flatMap (Route.moved ctx op.cascade.base op.plugins)) =
      (op.without n).routes.flatMap
        (Route.moved ctx (op.without n).cascade.base (op.without n).plugins) := by
    simp only [Plugin.without_flatMap, Route.without_moved, without, List.flatMap_map,
      Cascade.without]
  rw [shared, shared, Plugin.without_append, hroutes, Made.without_map_moved]
  rfl

end OperationPlan

namespace PathPlan
variable (p : PathPlan)

theorem made_without : (p.without n).made = p.made.map (Made.without n) := rfl

theorem without_endpoints :
    (p.endpoints.flatMap (OperationPlan.hosted ctx)).map (Route.without n) =
      (p.without n).endpoints.flatMap (OperationPlan.hosted ctx) := by
  simp only [List.map_flatMap, OperationPlan.without_hosted, without, List.flatMap_map]

theorem without_hosted : (p.hosted ctx).map (Route.without n) = (p.without n).hosted ctx := by
  have hendpoints := p.without_endpoints n ctx
  unfold hosted
  rw [p.made_without n]
  cases p.made with
  | none => exact hendpoints
  | some made => rfl

theorem without_slots : (p.slots ctx).map (Slot.without n) = (p.without n).slots ctx := by
  have hoperations : (p.endpoints.flatMap (OperationPlan.slots ctx)).map (Slot.without n) =
      (p.without n).endpoints.flatMap (OperationPlan.slots ctx) := by
    simp only [List.map_flatMap, OperationPlan.without_slots, without, List.flatMap_map]
  unfold slots
  rw [List.map_append, hoperations, ← p.without_endpoints n ctx]
  rw [p.made_without n]
  congr 1
  cases p.made with
  | none => rfl
  | some made => exact congrArg (fun slot => [slot]) (Made.without_slot n ctx _ _ made)

theorem without_shared : Plugin.without n (p.shared ctx) = (p.without n).shared ctx := by
  have hoperations : Plugin.without n (p.endpoints.flatMap (OperationPlan.shared ctx)) =
      (p.without n).endpoints.flatMap (OperationPlan.shared ctx) := by
    simp only [Plugin.without_flatMap, OperationPlan.without_shared, without, List.flatMap_map]
  rw [shared, shared, Plugin.without_append, hoperations, Made.without_map_moved]
  rfl

end PathPlan

namespace Plan
variable (plan : Plan)

theorem without_slots : (plan.slots ctx).map (Slot.without n) = (plan.without n).slots ctx := by
  have hhosted : (plan.paths.flatMap (PathPlan.hosted ctx)).map (Route.without n) =
      (plan.without n).paths.flatMap (PathPlan.hosted ctx) := by
    simp only [List.map_flatMap, PathPlan.without_hosted, without, List.flatMap_map]
  have hpaths : (plan.paths.flatMap (PathPlan.slots ctx)).map (Slot.without n) =
      (plan.without n).paths.flatMap (PathPlan.slots ctx) := by
    simp only [List.map_flatMap, PathPlan.without_slots, without, List.flatMap_map]
  rw [slots, slots, List.map_cons, Made.without_slot, hhosted, hpaths]
  rfl

theorem without_shared : Plugin.without n (plan.shared ctx) = (plan.without n).shared ctx := by
  have hpaths : Plugin.without n (plan.paths.flatMap (PathPlan.shared ctx)) =
      (plan.without n).paths.flatMap (PathPlan.shared ctx) := by
    simp only [Plugin.without_flatMap, PathPlan.without_shared, without, List.flatMap_map]
  rw [shared, shared, Plugin.without_append, hpaths, Made.without_moved]
  rfl

end Plan

end Layout

/-! ## Finishing -/

section Finish
variable (n : String) (stamp : Stamp) (hasServers : Bool)

/-- A build without the plugins of a name. -/
def Build.without (n : String) (build : Build) : Build :=
  ⟨build.slots.map (Slot.without n), Plugin.without n build.shared⟩

theorem Slot.without_complete (slot : Slot) :
    Service.without n slot.complete = (slot.without n).complete := by
  rw [complete, complete, Service.without, Members.mapValues_insert]
  simp [Slot.without, Service.without]

/-- The service of the document is dropped as before. -/
theorem Build.without_dropUnused (build : Build) :
    (build.dropUnused stamp hasServers).without n =
      (build.without n).dropUnused stamp hasServers := by
  obtain ⟨slots, shared⟩ := build
  cases slots with
  | nil => rfl
  | cons first rest =>
    cases rest with
    | nil => rfl
    | cons second rest =>
      have hempty : (first.without n).routes.isEmpty = first.routes.isEmpty := List.isEmpty_map
      have howner : stamp.foreignKey (first.without n).service = stamp.foreignKey first.service :=
        Service.foreignKey_without n stamp
      simp only [Build.without, dropUnused, List.map_cons, hempty, howner]
      split
      · simp only [List.map_cons, Plugin.without_filter]
      · rfl

/-- A finished configuration without the plugins of a name is the one of the build without them. -/
theorem Build.without_finish (build : Build) : (build.finish stamp hasServers).without n =
    (build.without n).finish stamp hasServers := by
  have hupstream : ∀ slots : List Slot,
      (slots.map (Slot.without n)).filterMap (·.upstream) = slots.filterMap (·.upstream) := by
    intro slots
    rw [List.filterMap_map]
    rfl
  simp only [finish, ← build.without_dropUnused n stamp hasServers]
  generalize build.dropUnused stamp hasServers = kept
  simp only [Configuration.without, Build.without, hupstream, Plugin.without_sortShared,
    map_sortEntities fun _ => Service.entityName_without n, List.map_map, Function.comp_def,
    Slot.without_complete]

end Finish

/-- Leaving out the plugins of a name before laying out is leaving them out behind it. -/
theorem Plan.without_configuration (n : String) (ctx : Context) (plan : Plan) :
    (plan.configuration ctx).without n = (plan.without n).configuration ctx := by
  rw [configuration, configuration, Build.without_finish, Build.without, without_slots,
    without_shared]

end ApiGateway
