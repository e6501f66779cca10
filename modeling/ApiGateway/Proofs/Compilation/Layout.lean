import ApiGateway.Proofs.Compilation.Planned
import ApiGateway.Proofs.Compilation.View

/-!
# Configurations without one mark

Nothing in a configuration is placed by tags or identifiers, but for the plugins of the top level:
plans that agree but for one mark have the same services, routes and upstreams in the same order,
with the same plugins on them, once the mark is erased on every level. The same service is dropped.

## Main definitions

* `Plugin.strip`, `Route.strip`, `Service.strip`, `Upstream.strip`: what is left of an entity without
  a mark on any level.
* `Slot.strip`: the same of a slot.

## Main results

* `View.strip_configuration_congr`: plans that agree but for a mark are laid out alike.
-/
namespace ApiGateway

/-! ## What is left without a mark -/

/-- An object without a mark, and with the values of other keys replaced. -/
def Members.stripWith (mark : Mark) (nested : String → Json → Json) (members : Members) : Members :=
  (members.mapValues nested).erase mark.key

/-- A plugin without its mark. -/
def Plugin.strip (mark : Mark) (plugin : Members) : Members := plugin.erase mark.key

/-- A route without its mark and those of its plugins. -/
def Route.strip (mark : Mark) (route : Members) : Members :=
  route.stripWith mark fun key value =>
    if key = "plugins" then value.mapObjects (Plugin.strip mark) else value

/-- A value under a key of a service, where plugins and routes are without their marks. -/
def Service.stripNested (mark : Mark) (key : String) (value : Json) : Json :=
  if key = "plugins" then value.mapObjects (Plugin.strip mark)
  else if key = "routes" then value.mapObjects (Route.strip mark)
  else value

/-- A service without its mark and those of its plugins and routes. -/
def Service.strip (mark : Mark) (service : Members) : Members :=
  service.stripWith mark (Service.stripNested mark)

/-- An upstream without its mark and those of its targets. -/
def Upstream.strip (mark : Mark) (upstream : Members) : Members :=
  upstream.stripWith mark (View.without mark).nested

namespace Members
variable {mark : Mark} {members others : Members} {nested : String → Json → Json}

/-- Objects that agree but for a mark do so when values are put in that are nested alike. -/
theorem hide_mapValues_insert_congr {key : String} {value value' : Json}
    (hnull : nested mark.key .null = .null) (h : members.hide [mark.key] = others.hide [mark.key])
    (hvalue : nested key value = nested key value') :
    ((members.insert key value).mapValues nested).hide [mark.key] =
      ((others.insert key value').mapValues nested).hide [mark.key] := by
  have hnull' : ∀ key ∈ [mark.key], nested key .null = .null := by
    intro key hkey
    rw [List.mem_singleton.1 hkey, hnull]
  rw [mapValues_insert, mapValues_insert]
  refine hide_insert_congr ?_ fun _ => hvalue
  rw [hide_mapValues hnull', hide_mapValues hnull', h]

/-- They are then the same without the mark. -/
theorem stripWith_insert_congr {key : String} {value value' : Json}
    (hnull : nested mark.key .null = .null) (h : members.hide [mark.key] = others.hide [mark.key])
    (hvalue : nested key value = nested key value') :
    (members.insert key value).stripWith mark nested =
      (others.insert key value').stripWith mark nested := by
  rw [stripWith, stripWith, ← erase_hide, hide_mapValues_insert_congr hnull h hvalue, erase_hide]

/-- A field other than the mark is the same without the mark. -/
theorem get?_stripWith {key : String} (hkey : key ≠ mark.key) :
    (members.stripWith mark nested).get? key = (members.get? key).map (nested key) := by
  rw [stripWith, get?_erase, if_neg hkey, get?_mapValues]

end Members

theorem Route.stripped_null (mark : Mark) : (if mark.key = "plugins" then
    Json.null.mapObjects (Plugin.strip mark) else Json.null) = Json.null := by
  cases mark <;> simp [Mark.key]

theorem Service.stripNested_null (mark : Mark) :
    Service.stripNested mark mark.key .null = .null := by
  cases mark <;> simp [Service.stripNested, Mark.key]

namespace Plugin
variable (mark : Mark)

/-- Plugins that agree but for a mark are the same without it. -/
theorem strip_congr {p q : Members} (h : p.hide [mark.key] = q.hide [mark.key]) :
    strip mark p = strip mark q := by
  rw [strip, strip, ← Members.erase_hide, h, Members.erase_hide]

theorem hasConsumer_hide (p : Members) :
    hasConsumer (p.hide [mark.key]) = hasConsumer p := by
  rw [hasConsumer, hasConsumer, Members.get?_hide (Mark.notMem_key (by decide) (by decide))]

/-- What is filtered by consumers agrees when the lists do. -/
theorem filter_hasConsumer_congr (choose : Bool → Bool) {plugins plugins' : List Members}
    (h : plugins.map (Members.hide [mark.key]) = plugins'.map (Members.hide [mark.key])) :
    (plugins.filter fun p => choose (hasConsumer p)).map (Members.hide [mark.key]) =
      (plugins'.filter fun p => choose (hasConsumer p)).map (Members.hide [mark.key]) :=
  filter_congr_of_map_eq h fun p p' hp => by
    rw [← hasConsumer_hide mark p, hp, hasConsumer_hide]

/-- The plugins that stay agree when the lists do, whatever the others refer to. -/
theorem bubble_snd_congr (field : String) (owner owner' : Json) {plugins plugins' : List Members}
    (h : plugins.map (Members.hide [mark.key]) = plugins'.map (Members.hide [mark.key])) :
    (bubble field owner plugins).2.map (Members.hide [mark.key]) =
      (bubble field owner' plugins').2.map (Members.hide [mark.key]) :=
  filter_hasConsumer_congr mark not h

/-- The plugins that leave agree when the lists do and they refer to the same. -/
theorem bubble_fst_congr (field : String) (owner : Json) {plugins plugins' : List Members}
    (h : plugins.map (Members.hide [mark.key]) = plugins'.map (Members.hide [mark.key])) :
    (bubble field owner plugins).1.map (Members.hide [mark.key]) =
      (bubble field owner plugins').1.map (Members.hide [mark.key]) := by
  simp only [bubble, List.map_map]
  exact map_congr_of_map_eq (filter_hasConsumer_congr mark id h)
    fun p p' hp => Members.hide_insert_congr hp fun _ => rfl

end Plugin

/-! ## Laying out -/

/-- A slot without the mark of its routes and of what is nested in its service and its upstream, as
it is looked at without the mark. -/
def Slot.strip (mark : Mark) (slot : Slot) : Slot :=
  ⟨(slot.service.mapValues (Service.stripNested mark)).hide [mark.key],
    slot.upstream.map (View.without mark).upstream, slot.routes.map (Route.strip mark)⟩

/-- Operations agree when they do in each part that is laid out. -/
theorem View.operation_without {mark : Mark} {op op' : OperationPlan}
    (h : (View.without mark).operation op = (View.without mark).operation op') :
    op.cascade.base = op'.cascade.base ∧
      op.cascade.plugins.map (Members.hide [mark.key]) =
        op'.cascade.plugins.map (Members.hide [mark.key]) ∧
      op.made.map (View.without mark).made = op'.made.map (View.without mark).made ∧
      op.plugins.map (Members.hide [mark.key]) = op'.plugins.map (Members.hide [mark.key]) ∧
      op.routes.map (Members.hide [mark.key]) = op'.routes.map (Members.hide [mark.key]) :=
  ⟨congrArg (·.cascade.base) h, congrArg (·.cascade.plugins) h, congrArg (·.made) h,
    congrArg (·.plugins) h, congrArg (·.routes) h⟩

/-- Paths agree when they do in each part that is laid out. -/
theorem View.path_without {mark : Mark} {p p' : PathPlan}
    (h : (View.without mark).path p = (View.without mark).path p') :
    p.cascade.plugins.map (Members.hide [mark.key]) =
        p'.cascade.plugins.map (Members.hide [mark.key]) ∧
      p.made.map (View.without mark).made = p'.made.map (View.without mark).made ∧
      p.endpoints.map (View.without mark).operation =
        p'.endpoints.map (View.without mark).operation :=
  ⟨congrArg (·.cascade.plugins) h, congrArg (·.made) h, congrArg (·.endpoints) h⟩

section Layout
variable {mark : Mark} (ctx : Context) (given : Option (List String)) (skipId : Bool)
variable {stamp : Stamp} (hstamp : mark.Alike ctx.stamp stamp)
variable {plugins plugins' routes routes' : List Members}
include hstamp

/-- The plugins of a route agree when those of its operation do. -/
theorem Route.own_congr (base : String) {route route' : Members}
    (hroute : route.hide [mark.key] = route'.hide [mark.key])
    (h : plugins.map (Members.hide [mark.key]) = plugins'.map (Members.hide [mark.key])) :
    (own ctx base plugins route).map (Members.hide [mark.key]) =
      (own (ctx.vary given skipId stamp) base plugins' route').map (Members.hide [mark.key]) := by
  have hname := Members.string?_eq_of_hide
    (Mark.notMem_key (by decide) (by decide) : "name" ∉ [mark.key]) hroute
  have halike : (View.without mark).Alike ctx.stamp stamp := hstamp
  simp only [own, List.map_map, hname]
  exact map_congr_of_map_eq h fun p p' => Plugin.hide_restamp_congr halike rfl

/-- A complete route is the same without the mark. -/
theorem Route.strip_complete_congr (base : String) {route route' : Members}
    (hroute : route.hide [mark.key] = route'.hide [mark.key])
    (h : plugins.map (Members.hide [mark.key]) = plugins'.map (Members.hide [mark.key])) :
    strip mark (complete ctx base plugins route) =
      strip mark (complete (ctx.vary given skipId stamp) base plugins' route') := by
  have hkept := Plugin.bubble_snd_congr mark "route" (ctx.stamp.foreignKey route)
    (stamp.foreignKey route') (own_congr ctx given skipId hstamp base hroute h)
  refine Members.stripWith_insert_congr (Route.stripped_null mark) hroute ?_
  simp only [if_true, Json.mapObjects_ofObjects]
  exact congrArg Json.ofObjects (map_congr_of_map_eq hkept fun p p' => Plugin.strip_congr mark)

omit hstamp in
/-- The slot of a service is the same without the mark. -/
theorem Made.strip_slot_congr {made made' : Made}
    (hmade : (View.without mark).made made = (View.without mark).made made')
    (hplugins : plugins.map (Members.hide [mark.key]) = plugins'.map (Members.hide [mark.key]))
    (hroutes : routes.map (Route.strip mark) = routes'.map (Route.strip mark)) :
    (made.slot ctx plugins routes).strip mark =
      (made'.slot (ctx.vary given skipId stamp) plugins' routes').strip mark := by
  have hservice : made.service.hide [mark.key] = made'.service.hide [mark.key] :=
    congrArg Made.service hmade
  have hupstream : made.upstream.map (View.without mark).upstream =
      made'.upstream.map (View.without mark).upstream := congrArg Made.upstream hmade
  have hkept := Plugin.bubble_snd_congr mark "service" (ctx.stamp.foreignKey made.service)
    (stamp.foreignKey made'.service) hplugins
  have hcarried : ((made.service.insert "plugins" (.ofObjects (Plugin.bubble "service"
      (ctx.stamp.foreignKey made.service) plugins).2)).mapValues (Service.stripNested mark)).hide
        [mark.key] =
      ((made'.service.insert "plugins" (.ofObjects (Plugin.bubble "service"
        (stamp.foreignKey made'.service) plugins').2)).mapValues (Service.stripNested mark)).hide
          [mark.key] := by
    refine Members.hide_mapValues_insert_congr (Service.stripNested_null mark) hservice ?_
    simp only [Service.stripNested, if_true, Json.mapObjects_ofObjects]
    exact congrArg Json.ofObjects (map_congr_of_map_eq hkept fun p p' => Plugin.strip_congr mark)
  simp only [slot, Slot.strip, Context.stamp_vary, hcarried, hupstream, hroutes]

section Operation
variable {op op' : OperationPlan}
variable (h : (View.without mark).operation op = (View.without mark).operation op')
include h

/-- The complete routes of an operation are the same without the mark. -/
theorem OperationPlan.strip_complete_congr : (op.complete ctx).map (Route.strip mark) =
    (op'.complete (ctx.vary given skipId stamp)).map (Route.strip mark) := by
  obtain ⟨hbase, -, -, hplugins, hroutes⟩ := View.operation_without h
  rw [complete, complete, List.map_map, List.map_map, hbase]
  exact map_congr_of_map_eq hroutes
    fun r r' hr => Route.strip_complete_congr ctx given skipId hstamp _ hr hplugins

/-- So are those that it leaves to the service around it. -/
theorem OperationPlan.strip_hosted_congr : (op.hosted ctx).map (Route.strip mark) =
    (op'.hosted (ctx.vary given skipId stamp)).map (Route.strip mark) := by
  have hcomplete := strip_complete_congr ctx given skipId hstamp h
  obtain ⟨-, -, hmade, -, -⟩ := View.operation_without h
  unfold hosted
  obtain ⟨hm, hm'⟩ | ⟨m, m', hm, hm', -⟩ := cases_of_map_eq hmade
  · rw [hm, hm']
    exact hcomplete
  · rw [hm, hm']

/-- The slot that an operation makes is the same without the mark. -/
theorem OperationPlan.strip_slots_congr : (op.slots ctx).map (Slot.strip mark) =
    (op'.slots (ctx.vary given skipId stamp)).map (Slot.strip mark) := by
  have hcomplete := strip_complete_congr ctx given skipId hstamp h
  obtain ⟨-, hplugins, hmade, -, -⟩ := View.operation_without h
  unfold slots
  obtain ⟨hm, hm'⟩ | ⟨m, m', hm, hm', heq⟩ := cases_of_map_eq hmade
  · rw [hm, hm']
  · rw [hm, hm']
    exact congrArg (fun slot => [slot])
      (Made.strip_slot_congr ctx given skipId heq hplugins hcomplete)

end Operation

section Path
variable {p p' : PathPlan} (h : (View.without mark).path p = (View.without mark).path p')
include h

theorem PathPlan.strip_endpoints_congr :
    (p.endpoints.flatMap (OperationPlan.hosted ctx)).map (Route.strip mark) =
      (p'.endpoints.flatMap (OperationPlan.hosted (ctx.vary given skipId stamp))).map
        (Route.strip mark) := by
  rw [List.map_flatMap, List.map_flatMap]
  exact flatMap_congr_of_map_eq (View.path_without h).2.2
    fun op op' => OperationPlan.strip_hosted_congr ctx given skipId hstamp

/-- The routes that a path leaves to the service of the document are the same without the mark. -/
theorem PathPlan.strip_hosted_congr : (p.hosted ctx).map (Route.strip mark) =
    (p'.hosted (ctx.vary given skipId stamp)).map (Route.strip mark) := by
  have hendpoints := strip_endpoints_congr ctx given skipId hstamp h
  unfold hosted
  obtain ⟨hm, hm'⟩ | ⟨m, m', hm, hm', -⟩ := cases_of_map_eq (View.path_without h).2.1
  · rw [hm, hm']
    exact hendpoints
  · rw [hm, hm']

/-- The slots of a path and its operations are the same without the mark. -/
theorem PathPlan.strip_slots_congr : (p.slots ctx).map (Slot.strip mark) =
    (p'.slots (ctx.vary given skipId stamp)).map (Slot.strip mark) := by
  have hendpoints := strip_endpoints_congr ctx given skipId hstamp h
  obtain ⟨hplugins, hmade, hoperations⟩ := View.path_without h
  rw [slots, slots, List.map_append, List.map_append, List.map_flatMap, List.map_flatMap,
    flatMap_congr_of_map_eq hoperations
      fun op op' => OperationPlan.strip_slots_congr ctx given skipId hstamp]
  congr 1
  obtain ⟨hm, hm'⟩ | ⟨m, m', hm, hm', heq⟩ := cases_of_map_eq hmade
  · rw [hm, hm']
  · rw [hm, hm']
    exact congrArg (fun slot => [slot])
      (Made.strip_slot_congr ctx given skipId heq hplugins hendpoints)

end Path

/-- All slots are the same without the mark. -/
theorem Plan.strip_slots_congr {plan plan' : Plan}
    (h : (View.without mark).plan plan = (View.without mark).plan plan') :
    (plan.slots ctx).map (Slot.strip mark) =
      (plan'.slots (ctx.vary given skipId stamp)).map (Slot.strip mark) := by
  have hplugins : plan.root.plugins.map (Members.hide [mark.key]) =
      plan'.root.plugins.map (Members.hide [mark.key]) := congrArg (·.root.plugins) h
  have hpaths : plan.paths.map (View.without mark).path =
      plan'.paths.map (View.without mark).path := congrArg Plan.paths h
  rw [slots, slots, List.map_cons, List.map_cons, List.map_flatMap, List.map_flatMap,
    flatMap_congr_of_map_eq hpaths fun p p' => PathPlan.strip_slots_congr ctx given skipId hstamp]
  congr 1
  refine Made.strip_slot_congr ctx given skipId (congrArg Plan.made h) hplugins ?_
  rw [List.map_flatMap, List.map_flatMap]
  exact flatMap_congr_of_map_eq hpaths
    fun p p' => PathPlan.strip_hosted_congr ctx given skipId hstamp

end Layout

/-! ## Finishing -/

section Finishing
variable {mark : Mark}

/-- Complete services are the same without the mark. -/
theorem Slot.strip_complete_congr {slot slot' : Slot} (h : slot.strip mark = slot'.strip mark) :
    Service.strip mark slot.complete = Service.strip mark slot'.complete := by
  have hservice : (slot.service.mapValues (Service.stripNested mark)).hide [mark.key] =
      (slot'.service.mapValues (Service.stripNested mark)).hide [mark.key] :=
    congrArg Slot.service h
  have hroutes : slot.routes.map (Route.strip mark) = slot'.routes.map (Route.strip mark) :=
    congrArg Slot.routes h
  have hnested : Service.stripNested mark "routes" (.ofObjects slot.routes) =
      Service.stripNested mark "routes" (.ofObjects slot'.routes) := by
    simp [Service.stripNested, hroutes]
  rw [Service.strip, Service.strip, complete, complete, Members.stripWith, Members.stripWith,
    Members.mapValues_insert, Members.mapValues_insert, ← Members.erase_hide,
    Members.hide_insert_congr hservice fun _ => hnested, Members.erase_hide]

/-- The complete upstreams of slots are the same without the mark. -/
theorem Slot.strip_upstream_congr {slot slot' : Slot} (h : slot.strip mark = slot'.strip mark) :
    slot.upstream.map (Upstream.strip mark) = slot'.upstream.map (Upstream.strip mark) := by
  have herase : ∀ upstream : Option Members, upstream.map (Upstream.strip mark) =
      (upstream.map (View.without mark).upstream).map (Members.erase · mark.key) := by
    intro upstream
    rw [Option.map_map]
    congr 1
    funext u
    exact (Members.erase_hide mark.key (u.mapValues (View.without mark).nested)).symm
  have hupstream : slot.upstream.map (View.without mark).upstream =
      slot'.upstream.map (View.without mark).upstream := congrArg Slot.upstream h
  rw [herase, hupstream, ← herase]

theorem Slot.isEmpty_routes_congr {slot slot' : Slot} (h : slot.strip mark = slot'.strip mark) :
    slot.routes.isEmpty = slot'.routes.isEmpty := by
  have hroutes : slot.routes.map (Route.strip mark) = slot'.routes.map (Route.strip mark) :=
    congrArg Slot.routes h
  rw [← List.isEmpty_map, hroutes, List.isEmpty_map]

/-- The service of the document is dropped alike. -/
theorem Build.slots_dropUnused_congr (stamp stamp' : Stamp) (hasServers : Bool)
    {build build' : Build}
    (h : build.slots.map (Slot.strip mark) = build'.slots.map (Slot.strip mark)) :
    (build.dropUnused stamp hasServers).slots.map (Slot.strip mark) =
      (build'.dropUnused stamp' hasServers).slots.map (Slot.strip mark) := by
  obtain ⟨slots, shared⟩ := build
  obtain ⟨slots', shared'⟩ := build'
  cases slots with
  | nil =>
    obtain rfl : slots' = [] := by simpa using h.symm
    rfl
  | cons first rest =>
    obtain ⟨first', rest', rfl, hfirst, hrest⟩ := List.map_eq_cons_iff.1 h.symm
    cases rest with
    | nil =>
      obtain rfl : rest' = [] := by simpa using hrest
      exact h
    | cons second rest =>
      obtain ⟨second', rest', rfl, -, -⟩ := List.map_eq_cons_iff.1 hrest
      have hempty := Slot.isEmpty_routes_congr hfirst.symm
      simp only [dropUnused, hempty]
      split
      · exact hrest.symm
      · exact h

theorem map_sortEntities {f : Members → Members} (hf : ∀ e, entityName (f e) = entityName e)
    (entities : List Members) : (sortEntities entities).map f = sortEntities (entities.map f) := by
  refine List.map_mergeSort fun a _ b _ => ?_
  rw [hf, hf]

theorem entityName_stripWith {nested : String → Json → Json}
    (hnested : ∀ value, nested "name" value = value) (entity : Members) :
    entityName (entity.stripWith mark nested) = entityName entity := by
  have hid : nested "name" = id := funext hnested
  have hname : "name" ≠ mark.key := by cases mark <;> simp [Mark.key]
  rw [entityName, entityName, Members.string?, Members.get?_stripWith hname, hid,
    Option.map_id, id, Members.string?]

/-- Plans that agree but for a mark are laid out alike: they have the same services with their routes
and plugins, and the same upstreams. -/
theorem View.strip_configuration_congr (ctx : Context) (given : Option (List String))
    (skipId : Bool) {stamp : Stamp} (hstamp : mark.Alike ctx.stamp stamp) {plan plan' : Plan}
    (h : (View.without mark).plan plan = (View.without mark).plan plan') :
    (plan.configuration ctx).services.map (Service.strip mark) =
        (plan'.configuration (ctx.vary given skipId stamp)).services.map (Service.strip mark) ∧
      (plan.configuration ctx).upstreams.map (Upstream.strip mark) =
        (plan'.configuration (ctx.vary given skipId stamp)).upstreams.map (Upstream.strip mark) := by
  have hservice : ∀ e, entityName (Service.strip mark e) = entityName e :=
    entityName_stripWith (by simp [Service.stripNested])
  have hupstream : ∀ e, entityName (Upstream.strip mark e) = entityName e :=
    entityName_stripWith (by cases mark <;> simp [View.nested, untagTargets])
  have hlaid : (⟨plan.slots ctx, plan.shared ctx⟩ : Build).slots.map (Slot.strip mark) =
      (⟨plan'.slots (ctx.vary given skipId stamp), plan'.shared (ctx.vary given skipId stamp)⟩ :
        Build).slots.map (Slot.strip mark) := Plan.strip_slots_congr ctx given skipId hstamp h
  have hslots := Build.slots_dropUnused_congr ctx.stamp stamp (!ctx.doc.servers.isEmpty) hlaid
  have hfilterMap : ∀ slots : List Slot,
      (slots.filterMap fun slot => slot.upstream.map (Upstream.strip mark)) =
        (slots.map fun slot => slot.upstream.map (Upstream.strip mark)).filterMap id := by
    intro slots
    rw [List.filterMap_map]
    rfl
  simp only [Plan.configuration, Context.stamp_vary, Context.doc_vary, Build.finish,
    map_sortEntities hservice, map_sortEntities hupstream, List.map_map, List.map_filterMap,
    Function.comp_def, hfilterMap]
  rw [map_congr_of_map_eq hslots fun slot slot' h => Slot.strip_complete_congr h,
    map_congr_of_map_eq hslots fun slot slot' h => Slot.strip_upstream_congr h]
  exact ⟨rfl, rfl⟩

end Finishing

end ApiGateway
