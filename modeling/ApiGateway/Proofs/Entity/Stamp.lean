import ApiGateway.Proofs.Entity.Service
import ApiGateway.Proofs.Route.Header

/-!
# Stamped entities

A stamp is the first thing that an entity gets, and everything else that is set on the entity is
set beside it. So services, upstreams and routes bear the stamp of their name and kind when they
are finished, whatever their defaults say under `id` and `tags`.

## Main definitions

* `Bears`: an entity with the tags of a run and the identifier of a name and a kind.
* `Backs`: an upstream of a service.
-/
namespace ApiGateway

/-- An entity with the tags of a run and, unless identifiers are left out, the identifier of a
name and a kind. -/
structure Bears (stamp : Stamp) (name kind : String) (entity : Members) : Prop where
  tags_eq : entity.get? "tags" = some stamp.tagList
  id_eq : stamp.skipId = false → entity.get? "id" = some (.str (stamp.idText name kind))

section Fields
variable {stamp : Stamp} {name kind : String} {entity : Members}

theorem bears_apply (stamp : Stamp) (entity : Members) (name kind : String) :
    Bears stamp name kind (stamp.apply entity name kind) := by
  constructor
  · simp
  · intro hids
    simp [Stamp.apply, hids, Members.get?_insert]

/-- A plugin bears the stamp of its owner under its own name. -/
theorem bears_restamp (stamp : Stamp) (base : String) (plugin : Members) :
    Bears stamp base ("plugin." ++ Plugin.name plugin) (Plugin.restamp stamp base plugin) :=
  bears_apply stamp plugin base _

/-- Other fields than those of the stamp may be set. -/
theorem Bears.insert (h : Bears stamp name kind entity) {key : String} (value : Json)
    (hid : "id" ≠ key) (htags : "tags" ≠ key) :
    Bears stamp name kind (entity.insert key value) := by
  constructor
  · simpa [Members.get?_insert, htags] using h.tags_eq
  · intro hids
    simpa [Members.get?_insert, hid] using h.id_eq hids

theorem Bears.insertNew (h : Bears stamp name kind entity) (key : String) (value : Json)
    (hid : "id" ≠ key) (htags : "tags" ≠ key) :
    Bears stamp name kind (entity.insertNew key value) := by
  unfold Members.insertNew
  split
  · exact h
  · exact h.insert value hid htags

end Fields

/-! ## Services and upstreams -/

/-- An upstream that bears the stamp of the name of a service, lists targets with the tags of the
run, and is the host of the service. -/
structure Backs (stamp : Stamp) (base : String) (service up : Members) : Prop where
  bears : Bears stamp base "upstream" up
  name_eq : up.get? "name" = some (.str (upstreamName base))
  host_eq : service.get? "host" = some (.str (upstreamName base))
  targets : ∃ targets, up.get? "targets" = some (.arr targets) ∧
    ∀ target : Members, .obj target ∈ targets → target.get? "tags" = some stamp.tagList

/-- The declared targets that are objects get the tags of the run. -/
theorem get?_tags_of_mem_declaredTarget {stamp : Stamp} {declared : List Json} {target : Members}
    (h : .obj target ∈ declared.map (declaredTarget stamp)) :
    target.get? "tags" = some stamp.tagList := by
  obtain ⟨entry, -, hentry⟩ := List.mem_map.1 h
  cases entry with
  | obj members =>
    obtain rfl := Json.obj.inj hentry
    simp
  | _ => cases hentry

theorem get?_tags_of_mem_serverTarget {stamp : Stamp} {targets : List Target} {target : Members}
    (h : .obj target ∈ targets.map (serverTarget stamp)) :
    target.get? "tags" = some stamp.tagList := by
  obtain ⟨t, -, ht⟩ := List.mem_map.1 h
  obtain rfl := Json.obj.inj ht
  simp

/-- An upstream bears its stamp and lists stamped targets. -/
theorem backs_upstream (stamp : Stamp) (base : String) (targets : List Target)
    (defaults : Option Members) (service : Members) :
    Backs stamp base (service.insert "host" (.str (upstreamName base)))
      (upstream stamp base targets defaults) := by
  have hbears : Bears stamp base "upstream" (upstream stamp base targets defaults) :=
    ((bears_apply stamp _ base "upstream").insert _ (by decide) (by decide)).insert _
      (by decide) (by decide)
  refine ⟨hbears, by simp [upstream, Members.get?_insert], by simp, ?_⟩
  simp only [upstream, Members.get?_insert_self, Option.some.injEq, Json.arr.injEq, exists_eq_left']
  split
  · intro target htarget
    exact get?_tags_of_mem_declaredTarget htarget
  · intro target htarget
    exact get?_tags_of_mem_serverTarget htarget

/-- A service has its name, bears its stamp, and is backed by its upstream. -/
theorem bears_of_service {stamp : Stamp} {base : String} {servers : List Json}
    {defaults : Defaults} {readUri : String → Except UriError Uri} {entity : Members}
    {up : Option Members} (h : service stamp base servers defaults readUri = .ok (entity, up)) :
    entity.get? "name" = some (.str base) ∧ Bears stamp base "service" entity ∧
      ∀ u, up = some u → Backs stamp base entity u := by
  obtain ⟨first, rest, filled, -, hfilled, hcases⟩ := service_cases h
  have hname : filled.get? "name" = some (.str base) := by
    rw [hfilled]
    simp [filledService, Members.get?_insertNew_of_ne, Members.get?_insert]
  -- protocol, path and port are set beside the stamp, and so is the host
  have hbears : Bears stamp base "service" filled := by
    rw [hfilled]
    have hstamped := (((bears_apply stamp (defaults.service.getD []) base "service").insert
      (.str base) (by decide : "id" ≠ "name") (by decide)).insert (.arr [])
        (by decide : "id" ≠ "plugins") (by decide)).insert (.arr [])
          (by decide : "id" ≠ "routes") (by decide)
    exact ((hstamped.insertNew "protocol" _ (by decide) (by decide)).insertNew "path" _
      (by decide) (by decide)).insertNew "port" _ (by decide) (by decide)
  have hhost : ∀ host, (filled.insert "host" host).get? "name" = some (.str base) ∧
      Bears stamp base "service" (filled.insert "host" host) := fun host =>
    ⟨by simpa [Members.get?_insert] using hname, hbears.insert host (by decide) (by decide)⟩
  obtain ⟨-, rfl, rfl⟩ | ⟨-, -, -, rfl, rfl⟩ | ⟨-, -, rfl, rfl⟩ := hcases
  · exact ⟨hname, hbears, by simp⟩
  · exact ⟨(hhost _).1, (hhost _).2, by simp⟩
  · refine ⟨(hhost _).1, (hhost _).2, ?_⟩
    intro u hu
    obtain rfl := Option.some.inj hu
    exact backs_upstream stamp base _ defaults.upstream _

/-- The service that a scope makes has its name, bears its stamp, and is backed by its upstream. -/
theorem bears_of_make {ctx : Context} {scope : Cascade} {made : Made}
    (h : scope.make ctx = .ok made) :
    made.service.get? "name" = some (.str scope.base) ∧
      Bears ctx.stamp scope.base "service" made.service ∧
      ∀ u, made.upstream = some u → Backs ctx.stamp scope.base made.service u := by
  simp only [Cascade.make] at h
  obtain ⟨⟨entity, up⟩, hservice, h⟩ := bind_eq_ok_iff.1 h
  obtain rfl := Except.ok.inj h
  exact bears_of_service hservice

/-! ## Routes -/

/-- A route with a name that bears the stamp of this name. -/
def BearsItsName (stamp : Stamp) (route : Members) : Prop :=
  ∃ name, route.get? "name" = some (.str name) ∧ Bears stamp name "route" route

theorem bearsItsName_route (ctx : Context) (scope : Cascade) (method : String)
    (path : RoutePath) : BearsItsName ctx.stamp (scope.route ctx method path) := by
  have hstamped : Bears ctx.stamp scope.base "route"
      (ctx.stamp.apply (scope.defaults.route.getD []) scope.base "route") := bears_apply _ _ _ _
  refine ⟨scope.base, ?_, ?_⟩
  · simp [Cascade.route, Members.get?_insertNew_of_ne, Members.get?_insert]
  · exact ((((hstamped.insert _ (by decide) (by decide)).insert _ (by decide) (by decide)).insert _
      (by decide) (by decide)).insert _ (by decide) (by decide)).insertNew _ _ (by decide) (by decide)

theorem bears_numberedRoute (naming : Naming) (stamp : Stamp) (base : String) (route : Members)
    (number : ℕ) (headers : List (String × String)) :
    Bears stamp (base ++ String.singleton naming.separator ++ toString number) "route"
      (numberedRoute naming stamp base route number headers) :=
  ((bears_apply stamp route _ "route").insert _ (by decide) (by decide)).insert _
    (by decide) (by decide)

theorem bearsItsName_numberedRoute (naming : Naming) (stamp : Stamp) (base : String)
    (route : Members) (number : ℕ) (headers : List (String × String)) :
    BearsItsName stamp (numberedRoute naming stamp base route number headers) :=
  ⟨_, by simp [numberedRoute, Members.get?_insert], bears_numberedRoute _ _ _ _ _ _⟩

/-- The routes of an operation bear the stamps of their names. -/
theorem bearsItsName_of_expandHeaders {stamp : Stamp} {doc : Document} {naming : Naming}
    {base : String} {parameters : List Parameter} {route : Members} {routes : List Members}
    (hroute : BearsItsName stamp route)
    (h : expandHeaders doc naming stamp base parameters route = .ok routes) :
    ∀ r ∈ routes, BearsItsName stamp r := by
  intro r hr
  obtain ⟨-, rfl⟩ | ⟨-, headers, -, rfl⟩ := expandHeaders_spec h
  · rwa [List.mem_singleton.1 hr]
  · obtain ⟨i, hi, rfl⟩ := List.mem_mapIdx.1 hr
    exact bearsItsName_numberedRoute naming stamp base route (i + 1) _

end ApiGateway
