import ApiGateway.Proofs.Compilation.Identifiers
import Mathlib

/-!
# Groups of entities

A service with its upstream and its plugins is one group of entities, and so is a route with its
plugins. A plugin that leaves its owner for the top level still counts for the group of its owner.
So the entities of a plan are those of its groups, in another order, less what is left out with
the service of the document.

## Main definitions

* `Group`: an owner with the kinds of what belongs to it.
* `Plan.groups`: the groups of a plan.
* `Owned.place`: the owner and the kind of an entity.
-/
namespace ApiGateway

/-- An owner with the kinds of the entities that belong to it. -/
structure Group where
  owner : Owner
  kinds : List Kind

/-- The kinds of plugins. -/
def pluginKinds (plugins : List Members) : List Kind :=
  plugins.map fun p => .plugin (Plugin.name p)

/-- A service with its upstream and the plugins of its scope. -/
def Made.group (owner : Owner) (plugins : List Members) (made : Made) : Group :=
  ⟨owner, .service :: (made.upstream.toList.map fun _ => .upstream) ++ pluginKinds plugins⟩

/-- A route with the plugins of its operation. -/
def Route.group (plugins : List Members) (owner : Owner) : Group :=
  ⟨owner, .route :: pluginKinds plugins⟩

/-- The groups of an operation: its service, if it makes one, and its routes. -/
def OperationPlan.groups (ctx : Context) (root : String) (e : Endpoint) (op : OperationPlan) :
    List Group :=
  op.made.toList.map (Made.group (e.site.owner ctx.naming root) op.cascade.plugins) ++
    (e.owners ctx.naming root ctx.doc).map (Route.group op.plugins)

/-- The groups of a path: its service, if it makes one, and the groups of its operations. -/
def PathPlan.groups (ctx : Context) (root : String) (p : PathPlan) : List Group :=
  p.made.toList.map (Made.group ((p.site ctx.doc).owner ctx.naming root) p.cascade.plugins) ++
    p.endpoints.flatMap fun op => op.groups ctx root (p.endpoint ctx.doc op)

/-- The groups of a plan: the service of the document, and the groups of the paths. -/
def Plan.groups (ctx : Context) (root : String) (plan : Plan) : List Group :=
  plan.made.group (Plan.owner ctx root) plan.root.plugins ::
    plan.paths.flatMap (PathPlan.groups ctx root)

/-- The owner and the kind of an entity. -/
def Owned.place (o : Owned) : Owner × Kind := (o.owner, o.kind)

/-- The places of a group. -/
def Group.places (g : Group) : List (Owner × Kind) := g.kinds.map (Prod.mk g.owner)

/-! ## A plan has the entities of its groups -/

/-- Lists that start with parts of their own and go on entry by entry, put together. -/
theorem append_flatMap_perm {α β : Type} (front back : List β) (f g : α → List β)
    (entries : List α) :
    ((front ++ entries.flatMap f) ++ (back ++ entries.flatMap g)).Perm
      ((front ++ back) ++ entries.flatMap fun a => f a ++ g a) := by
  have hswap : (front ++ entries.flatMap f ++ (back ++ entries.flatMap g)).Perm
      (front ++ back ++ (entries.flatMap f ++ entries.flatMap g)) := by
    rw [List.append_assoc, List.append_assoc]
    refine List.Perm.append_left _ ?_
    rw [← List.append_assoc, ← List.append_assoc]
    exact List.perm_append_comm.append_right _
  exact hswap.trans (List.Perm.append_left _ (List.flatMap_append_perm _ _ _))

section Places
variable {ctx : Context} {root : String}

/-- The plugins that stay with an owner and those that leave it are all its plugins. -/
theorem places_bubble_perm (owner : Owner) {field : String} (hname : "name" ≠ field) (key : Json)
    (plugins : List Members) :
    (((Plugin.bubble field key plugins).2.map (Owned.ofPlugin owner)).map Owned.place ++
      ((Plugin.bubble field key plugins).1.map (Owned.ofPlugin owner)).map Owned.place).Perm
      ((pluginKinds plugins).map (Prod.mk owner)) := by
  have hplace : ∀ p, (Owned.ofPlugin owner (p.insert field key)).place =
      (Owned.ofPlugin owner p).place := by
    intro p
    simp only [Owned.place, Owned.ofPlugin, Plugin.name_insert_of_ne hname]
  have hmoved : ((Plugin.bubble field key plugins).1.map (Owned.ofPlugin owner)).map Owned.place =
      (plugins.filter Plugin.hasConsumer).map fun p => (Owned.ofPlugin owner p).place := by
    simp only [Plugin.bubble, List.map_map]
    exact List.map_congr_left fun p _ => hplace p
  have hkept : ((Plugin.bubble field key plugins).2.map (Owned.ofPlugin owner)).map Owned.place =
      (plugins.filter fun p => !Plugin.hasConsumer p).map
        fun p => (Owned.ofPlugin owner p).place := by
    simp only [Plugin.bubble, List.map_map]
    rfl
  have hall : (pluginKinds plugins).map (Prod.mk owner) =
      plugins.map fun p => (Owned.ofPlugin owner p).place := by
    simp only [pluginKinds, List.map_map]
    rfl
  rw [hmoved, hkept, hall, ← List.map_append]
  exact (List.perm_append_comm.trans (List.filter_append_perm _ _)).map _

/-- A service with its upstream and its plugins, those that leave it among them, is its group. -/
theorem Made.places_perm (ctx : Context) (owner : Owner) (made : Made)
    (plugins routes : List Members) :
    (((made.slot ctx plugins routes).owned owner).map Owned.place ++
      ((made.moved ctx plugins).map (Owned.ofPlugin owner)).map Owned.place).Perm
      (made.group owner plugins).places := by
  have hbubble := places_bubble_perm owner (show "name" ≠ "service" by decide)
    (ctx.stamp.foreignKey made.service) plugins
  have hups : ((made.upstream.toList.map fun up => (⟨owner, .upstream, up⟩ : Owned)).map
      Owned.place) = (made.upstream.toList.map fun _ => Kind.upstream).map (Prod.mk owner) := by
    simp only [List.map_map]
    rfl
  have hupstream : (made.slot ctx plugins routes).upstream = made.upstream := rfl
  rw [Slot.owned, pluginsOf_slot, hupstream, Group.places, Made.group, List.cons_append, List.cons_append,
    List.map_cons, List.map_cons, List.map_append, List.map_append, hups, List.cons_append,
    List.append_assoc]
  exact (hbubble.append_left _).cons _

/-- So it is for the service of a scope that makes one. -/
theorem Made.toList_places_perm (ctx : Context) (owner : Owner) (made : Option Made)
    (plugins routes : List Members) :
    (((made.toList.map (Made.slot ctx plugins routes)).flatMap (Slot.owned owner) ++
      ((made.map (Made.moved ctx plugins)).getD []).map (Owned.ofPlugin owner)).map
        Owned.place).Perm
      ((made.toList.map (Made.group owner plugins)).flatMap Group.places) := by
  cases made with
  | none => simp
  | some made => simpa using made.places_perm ctx owner plugins routes

/-- A route with its plugins, those that leave it among them, is its group. -/
theorem Route.places_perm (owner : Owner) (base : String) (plugins : List Members)
    (route : Members) :
    ((Route.owned owner (Route.complete ctx base plugins route)).map Owned.place ++
      ((Route.moved ctx base plugins route).map (Owned.ofPlugin owner)).map Owned.place).Perm
      (Route.group plugins owner).places := by
  have hbubble := places_bubble_perm owner (show "name" ≠ "route" by decide)
    (ctx.stamp.foreignKey route) (Route.own ctx base plugins route)
  have hkinds : pluginKinds (Route.own ctx base plugins route) = pluginKinds plugins := by
    simp only [pluginKinds, Route.own, List.map_map]
    exact List.map_congr_left fun p _ => by simp
  rw [hkinds] at hbubble
  simp only [Route.owned, Route.pluginsOf_complete, List.map_cons, Group.places, Route.group, Route.moved,
    List.cons_append]
  exact hbubble.cons _

/-- What belongs to an operation is what belongs to its groups. -/
theorem OperationPlan.places_perm {e : Endpoint} {op : OperationPlan}
    (h : Splits ctx root e (op.complete ctx)) :
    ((op.nested ctx root e ++ op.top ctx root e).map Owned.place).Perm
      ((op.groups ctx root e).flatMap Group.places) := by
  have hlen : (e.owners ctx.naming root ctx.doc).length = op.routes.length := by
    rw [h.length_owners, complete, List.length_map]
  have hroutes : (e.owners ctx.naming root ctx.doc).flatMap
      (fun owner => (Route.group op.plugins owner).places) =
      ((e.owners ctx.naming root ctx.doc).zip op.routes).flatMap
        fun pair => (Route.group op.plugins pair.1).places := by
    conv_lhs => rw [← List.map_fst_zip hlen.le, List.flatMap_map]
  have hrest : ((((e.owners ctx.naming root ctx.doc).zip op.routes).flatMap fun pair =>
      Route.owned pair.1 (Route.complete ctx op.cascade.base op.plugins pair.2) ++
        (Route.moved ctx op.cascade.base op.plugins pair.2).map (Owned.ofPlugin pair.1)).map
          Owned.place).Perm
      (((e.owners ctx.naming root ctx.doc).map (Route.group op.plugins)).flatMap
        Group.places) := by
    rw [List.flatMap_map, hroutes, List.map_flatMap]
    refine List.Perm.flatMap_left _ ?_
    intro pair _
    rw [List.map_append]
    exact Route.places_perm pair.1 op.cascade.base op.plugins pair.2
  rw [nested, top, slots_eq, flatMap_zip_complete, groups, List.flatMap_append]
  refine ((append_flatMap_perm _ _ _ _ _).map Owned.place).trans ?_
  rw [List.map_append]
  exact (Made.toList_places_perm ctx _ _ _ _).append hrest

/-- What belongs to a path is what belongs to its groups. -/
theorem PathPlan.places_perm {p : PathPlan}
    (h : ∀ op ∈ p.endpoints, Splits ctx root (p.endpoint ctx.doc op) (op.complete ctx)) :
    ((p.nested ctx root ++ p.top ctx root).map Owned.place).Perm
      ((p.groups ctx root).flatMap Group.places) := by
  have hrest : ((p.endpoints.flatMap fun op => op.nested ctx root (p.endpoint ctx.doc op) ++
      op.top ctx root (p.endpoint ctx.doc op)).map Owned.place).Perm
      ((p.endpoints.flatMap fun op => op.groups ctx root (p.endpoint ctx.doc op)).flatMap
        Group.places) := by
    rw [List.map_flatMap, List.flatMap_assoc]
    exact List.Perm.flatMap_left _ fun op hop => OperationPlan.places_perm (h op hop)
  rw [nested, top, ownSlots_eq, groups, List.flatMap_append]
  refine ((append_flatMap_perm _ _ _ _ _).map Owned.place).trans ?_
  rw [List.map_append]
  exact (Made.toList_places_perm ctx _ _ _ _).append hrest

/-- The entities of a plan have different places of its groups. -/
theorem Plan.places_subperm {plan : Plan} (h : plan.Planned ctx root) :
    ((plan.entities ctx root).map Owned.place).Subperm
      ((plan.groups ctx root).flatMap Group.places) := by
  have hservice := plan.made.places_perm ctx (owner ctx root) plan.root.plugins
    (plan.paths.flatMap (PathPlan.hosted ctx))
  have hpaths : ((plan.paths.flatMap fun p => p.nested ctx root ++ p.top ctx root).map
      Owned.place).Perm
      ((plan.paths.flatMap (PathPlan.groups ctx root)).flatMap Group.places) := by
    rw [List.map_flatMap, List.flatMap_assoc]
    exact List.Perm.flatMap_left _ fun p hp => PathPlan.places_perm (h.splits p hp)
  have hkept : (plan.entities ctx root).Sublist
      (((plan.ownSlot ctx).owned (owner ctx root) ++
        plan.paths.flatMap (PathPlan.nested ctx root)) ++ plan.top ctx root) := by
    refine List.Sublist.append (List.Sublist.append_right ?_ _) List.filter_sublist
    split
    · exact List.nil_sublist _
    · exact List.Sublist.refl _
  refine (hkept.map Owned.place).subperm.trans (List.Perm.subperm ?_)
  rw [top, groups, List.flatMap_cons]
  refine ((append_flatMap_perm _ _ _ _ _).map Owned.place).trans ?_
  rw [List.map_append]
  refine List.Perm.append ?_ hpaths
  rw [List.map_append]
  exact hservice

/-- Every entity of a plan belongs to one of its groups. -/
theorem Plan.exists_group_of_mem {plan : Plan} (h : plan.Planned ctx root) {o : Owned}
    (ho : o ∈ plan.entities ctx root) :
    ∃ g ∈ plan.groups ctx root, o.owner = g.owner ∧ o.kind ∈ g.kinds := by
  have hplace := (places_subperm h).subset (List.mem_map_of_mem ho)
  obtain ⟨g, hg, hmem⟩ := List.mem_flatMap.1 hplace
  obtain ⟨kind, hkind, heq⟩ := List.mem_map.1 hmem
  obtain ⟨hown, rfl⟩ := Prod.mk.inj heq
  exact ⟨g, hg, hown.symm, hkind⟩

/-- The group of the document, of a path with a service, of an operation with a service, and of a
route. -/
theorem Plan.mem_groups_iff {plan : Plan} {g : Group} : g ∈ plan.groups ctx root ↔
    g = plan.made.group (owner ctx root) plan.root.plugins ∨ ∃ p ∈ plan.paths,
      (∃ made, p.made = some made ∧
        g = made.group ((p.site ctx.doc).owner ctx.naming root) p.cascade.plugins) ∨
      ∃ op ∈ p.endpoints,
        (∃ made, op.made = some made ∧ g = made.group
          ((p.endpoint ctx.doc op).site.owner ctx.naming root) op.cascade.plugins) ∨
        ∃ owner ∈ (p.endpoint ctx.doc op).owners ctx.naming root ctx.doc,
          g = Route.group op.plugins owner := by
  simp only [groups, PathPlan.groups, OperationPlan.groups, List.mem_cons, List.mem_flatMap,
    List.mem_append, List.mem_map, Option.mem_toList, @eq_comm _ g]

end Places

end ApiGateway
