import ApiGateway.Proofs.Compilation.Creation

/-!
# Where routes stand

Every route of a configuration stands in a service. Which one it is follows from the scopes around
its operation: the service that the operation makes, else that of its path, else that of the
document. The walk finds it by number; here it is read off the plan, one path at a time, so that
what a path gives to a configuration does not mention the other paths.

## Main definitions

* `Configuration.placed`: the routes of a configuration, each with its service.
* `PathPlan.host`: the service that the routes of an operation belong to.
* `PathPlan.placed`: the routes of a path, each with its service.
-/
namespace ApiGateway

/-- The routes of a configuration, each with the service it stands in, apart from the routes of
that service. -/
def Configuration.placed (c : Configuration) : List (Members × Members) :=
  c.services.flatMap fun s => (routesOf s).map fun route => (s.erase "routes", route)

/-- The routes of a slot, each with the service. -/
def Slot.placed (slot : Slot) : List (Members × Members) :=
  slot.routes.map fun route => (slot.service.erase "routes", route)

/-- An owner as others see it, apart from its routes. -/
def Creation.outside (ctx : Context) (x : Creation) : Members := (x.complete ctx).erase "routes"

/-- The service of a scope: the one that the scope makes, else the one around it. -/
def Creation.within (around : Creation) (site : Site) (scope : Cascade) (made : Option Made) :
    Creation :=
  (made.map (Creation.ofService site scope)).getD around

namespace PathPlan

/-- The service of a path. -/
def around (ctx : Context) (document : Creation) (p : PathPlan) : Creation :=
  document.within (p.site ctx.doc) p.cascade p.made

/-- The service that the routes of an operation belong to. -/
def host (ctx : Context) (document : Creation) (p : PathPlan) (op : OperationPlan) : Creation :=
  (p.around ctx document).within (p.endpoint ctx.doc op).site op.cascade op.made

/-- The routes of a path, each with its service. -/
def placed (ctx : Context) (document : Creation) (p : PathPlan) : List (Members × Members) :=
  p.endpoints.flatMap fun op => (op.created ctx (p.endpoint ctx.doc op).site).map fun x =>
    ((p.host ctx document op).outside ctx, x.complete ctx)

end PathPlan

/-- The routes of a plan, each with its service. -/
def Plan.placed (ctx : Context) (plan : Plan) : List (Members × Members) :=
  plan.paths.flatMap (PathPlan.placed ctx (plan.document ctx))

section Layout
variable {ctx : Context}

/-- The routes of a service in a configuration are those of its slot. -/
theorem Slot.placed_eq (slot : Slot) :
    ((Configuration.routesOf slot.complete).map fun route =>
      (slot.complete.erase "routes", route)) = slot.placed := by
  have herase : slot.complete.erase "routes" = slot.service.erase "routes" :=
    Members.erase_insert_self _ _ _
  rw [routesOf_complete, herase, Slot.placed]

/-- The slot of a service places the routes it is given. -/
theorem Made.placed_slot (site : Site) (scope : Cascade) (routes : List Members) (made : Made) :
    (made.slot ctx scope.plugins routes).placed =
      routes.map fun route => ((Creation.ofService site scope made).outside ctx, route) := rfl

/-- An operation places its routes in its own service, or leaves them to the service around it. -/
theorem OperationPlan.placed_perm (around : Creation) (site : Site) (op : OperationPlan) :
    ((op.hosted ctx).map (fun route => (around.outside ctx, route)) ++
        (op.slots ctx).flatMap Slot.placed).Perm
      ((op.created ctx site).map fun x =>
        ((around.within site op.cascade op.made).outside ctx, x.complete ctx)) := by
  have hcomplete : ∀ host : Creation, ((op.created ctx site).map fun x =>
      (host.outside ctx, x.complete ctx)) =
        (op.complete ctx).map fun route => (host.outside ctx, route) := by
    intro host
    rw [created, complete, List.map_map, List.map_map]
    rfl
  rw [hcomplete]
  cases hmade : op.made with
  | none => simp [hosted, slots, hmade, Creation.within]
  | some made => simp [hosted, slots, hmade, Creation.within, Made.placed_slot site]

/-- A path places the routes of its operations in its own services, or leaves them to the service
around it. -/
theorem PathPlan.placed_perm (document : Creation) (p : PathPlan) :
    ((p.hosted ctx).map (fun route => (document.outside ctx, route)) ++
        (p.slots ctx).flatMap Slot.placed).Perm (p.placed ctx document) := by
  have hoperations : ((p.endpoints.flatMap (OperationPlan.hosted ctx)).map
      (fun route => ((p.around ctx document).outside ctx, route)) ++
      (p.endpoints.flatMap (OperationPlan.slots ctx)).flatMap Slot.placed).Perm
        (p.placed ctx document) := by
    rw [placed, List.map_flatMap, List.flatMap_assoc]
    refine (List.flatMap_append_perm _ _ _).trans ?_
    exact List.Perm.flatMap_left _ fun op _ => OperationPlan.placed_perm _ _ op
  cases hmade : p.made with
  | none => simpa [hosted, slots, hmade, around, Creation.within] using hoperations
  | some made =>
    simpa [hosted, slots, hmade, around, Creation.within, Made.placed_slot (p.site ctx.doc)]
      using hoperations

/-- Every slot that is laid out places the routes of the plan. -/
theorem Plan.slots_placed_perm (plan : Plan) :
    ((plan.slots ctx).flatMap Slot.placed).Perm (plan.placed ctx) := by
  have hown : (plan.ownSlot ctx).placed = (plan.paths.flatMap (PathPlan.hosted ctx)).map
      fun route => ((plan.document ctx).outside ctx, route) := rfl
  have hslots : plan.slots ctx = plan.ownSlot ctx :: plan.paths.flatMap (PathPlan.slots ctx) := rfl
  rw [hslots, List.flatMap_cons, hown, List.map_flatMap, List.flatMap_assoc, placed]
  refine (List.flatMap_append_perm _ _ _).trans ?_
  exact List.Perm.flatMap_left _ fun p _ => p.placed_perm _

/-- The routes of a configuration stand in the services that the plan says. -/
theorem Plan.placed_perm (plan : Plan) : (plan.configuration ctx).placed.Perm (plan.placed ctx) := by
  have hkept : (plan.keptSlots ctx).flatMap Slot.placed = (plan.slots ctx).flatMap Slot.placed := by
    unfold keptSlots
    split
    · -- a service that is left out has no routes
      rename_i hdropped
      have hroutes : (plan.ownSlot ctx).routes = [] := by
        simpa using (Bool.and_eq_true_iff.1 hdropped).2
      have hslots : plan.slots ctx =
          plan.ownSlot ctx :: plan.paths.flatMap (PathPlan.slots ctx) := rfl
      rw [hslots, List.flatMap_cons, Slot.placed, hroutes, List.map_nil, List.nil_append]
    · rfl
  have hslots : ((plan.keptSlots ctx).map Slot.complete).flatMap (fun s =>
      (Configuration.routesOf s).map fun route => (s.erase "routes", route)) =
        (plan.slots ctx).flatMap Slot.placed := by
    rw [List.flatMap_map, ← hkept]
    exact List.flatMap_congr fun slot _ => slot.placed_eq
  refine (services_perm.flatMap_right _).trans ?_
  rw [hslots]
  exact plan.slots_placed_perm

end Layout

section Hosts
variable {ctx : Context} {plan : Plan} {p : PathPlan} {op : OperationPlan}

/-- The service of a scope is one that the scope makes, or the one around it. -/
theorem Creation.within_cases (around : Creation) (site : Site) (scope : Cascade)
    (made : Option Made) :
    (∃ m, made = some m ∧ around.within site scope made = .ofService site scope m) ∨
      (made = none ∧ around.within site scope made = around) := by
  cases made with
  | none => exact Or.inr ⟨rfl, rfl⟩
  | some m => exact Or.inl ⟨m, rfl, rfl⟩

/-- The host of an operation is a service of the plan. -/
theorem Plan.host_mem_services (hp : p ∈ plan.paths) (hop : op ∈ p.endpoints) :
    p.host ctx (plan.document ctx) op ∈ plan.services ctx := by
  rw [mem_services_iff]
  obtain ⟨m, hm, heq⟩ | ⟨-, heq⟩ := (p.around ctx (plan.document ctx)).within_cases
    (p.endpoint ctx.doc op).site op.cascade op.made
  · exact Or.inr ⟨p, hp, Or.inr ⟨op, hop, m, hm, heq⟩⟩
  · obtain ⟨m, hm, heq'⟩ | ⟨-, heq'⟩ := (plan.document ctx).within_cases (p.site ctx.doc)
      p.cascade p.made
    · exact Or.inr ⟨p, hp, Or.inl ⟨m, hm, heq.trans heq'⟩⟩
    · exact Or.inl (heq.trans heq')

/-- The service of the document hosts an operation only if neither the operation nor its path makes
one. -/
theorem Plan.made_eq_none_of_host_eq (h : p.host ctx (plan.document ctx) op = plan.document ctx) :
    op.made = none ∧ p.made = none := by
  have hnames := congrArg (fun x : Creation => x.site.names) h
  obtain ⟨m, -, heq⟩ | ⟨hop, heq⟩ := (p.around ctx (plan.document ctx)).within_cases
    (p.endpoint ctx.doc op).site op.cascade op.made
  · rw [PathPlan.host, heq] at hnames
    cases hnames
  · obtain ⟨m, -, heq'⟩ | ⟨hp, -⟩ := (plan.document ctx).within_cases (p.site ctx.doc)
      p.cascade p.made
    · rw [PathPlan.host, heq, PathPlan.around, heq'] at hnames
      cases hnames
    · exact ⟨hop, hp⟩

/-- A service that hosts a route is kept. -/
theorem Plan.host_mem_kept (hp : p ∈ plan.paths) (hop : op ∈ p.endpoints) (hroutes : op.routes ≠ []) :
    p.host ctx (plan.document ctx) op ∈ plan.kept ctx := by
  have hservice : p.host ctx (plan.document ctx) op ∈ plan.services ctx := host_mem_services hp hop
  obtain hkept | ⟨hdropped, hdocument⟩ := mem_kept_or_eq hservice
  · exact hkept
  · obtain ⟨hmade, hpath⟩ := made_eq_none_of_host_eq hdocument
    have hempty : plan.paths.flatMap (PathPlan.hosted ctx) = [] :=
      List.isEmpty_iff.1 (Bool.and_eq_true_iff.1 hdropped).2
    have hhosted : p.hosted ctx = [] := List.flatMap_eq_nil_iff.1 hempty p hp
    simp only [PathPlan.hosted, hpath, List.flatMap_eq_nil_iff] at hhosted
    have hcomplete := hhosted op hop
    simp only [OperationPlan.hosted, hmade, OperationPlan.complete, List.map_eq_nil_iff] at hcomplete
    exact absurd hcomplete hroutes

end Hosts

end ApiGateway
