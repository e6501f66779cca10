import ApiGateway.Proofs.Directive.Reference
import ApiGateway.Proofs.Entity.Stamp
import ApiGateway.Proofs.Plugin.Declared

/-!
# Building the list of a scope

The list of a scope is the map of the inherited plugins with the directives of the scope laid over
it. Whether it can be built depends on the directives alone; the order of the inherited plugins does
not matter, and neither does the owner they were stamped for, since every entry is stamped anew.

## Main results

* `Plugin.exists_error_build_iff`: when a list cannot be built.
* `Plugin.map_restamp_build`: a list built for one owner and stamped for another is the list built
  for the other.
* `Plugin.overlay_of_build`: a list as a map.
-/
namespace ApiGateway.Plugin

variable {doc : Document} {stamp : Stamp} {base base' n key : String}
  {scope scope' m p : Members} {inherited permuted result : List Members}

/-! ## When a list can be built -/

theorem get?_of_mem_directives {d : String × String} (h : d ∈ directives scope) :
    ∃ value, scope.get? d.1 = some value ∧ d.1 = Directive.pluginStart ++ d.2 := by
  obtain ⟨hkey, hname⟩ := mem_directives.1 h
  obtain ⟨value, hvalue⟩ := Option.isSome_iff_exists.1 (Members.mem_keys_iff.1 hkey)
  exact ⟨value, hvalue, hname⟩

/-- A directive declares no plugin when it names none or cannot be read. -/
theorem exists_error_addDirective_iff (plugins : List Members) :
    (∃ e, addDirective doc stamp base scope plugins (key, n) = .error e) ↔
      n = "" ∨ ∃ e, Directive.object? doc scope key = .error e := by
  unfold addDirective ofDirective
  by_cases hn : n = ""
  · simp [hn]
  · simp only [hn, if_false, false_or]
    cases hobject : Directive.object? doc scope key with
    | error e => simp
    | ok declared => cases declared <;> simp [pure, Except.pure]

/-- A list cannot be built exactly when some directive of the scope names no plugin, or has a value
that is no object or has a `$ref` that stands for none. -/
theorem exists_error_build_iff : (∃ e, build doc stamp base scope inherited = .error e) ↔
    ∃ n value, scope.get? (Directive.pluginStart ++ n) = some value ∧
      (n = "" ∨ value.asObject? = none ∨ Directive.Dangles doc value) := by
  rw [build_eq_foldlM, exists_error_foldlM_iff
    (fun d => d.2 = "" ∨ ∃ e, Directive.object? doc scope d.1 = .error e)
    fun d _ plugins => exists_error_addDirective_iff plugins]
  have hmeans : ∀ value : Json, (¬ ∃ target, Directive.Means doc value target) ↔
      value.asObject? = none ∨ Directive.Dangles doc value := by
    intro value
    rw [Directive.exists_means_iff, not_and_or, not_not, not_not]
  simp only [Directive.exists_error_object?_iff, hmeans]
  constructor
  · rintro ⟨d, hd, hfails⟩
    obtain ⟨value, hvalue, hkey⟩ := get?_of_mem_directives hd
    rw [hkey] at hvalue hfails
    refine ⟨d.2, value, hvalue, hfails.imp_right ?_⟩
    rintro ⟨value', hvalue', hbad⟩
    exact Option.some.inj (hvalue'.symm.trans hvalue) ▸ hbad
  · rintro ⟨n, value, hvalue, hfails⟩
    have hkey : Directive.pluginStart ++ n ∈ scope.keys :=
      Members.mem_keys_iff.2 (Option.isSome_iff_exists.2 ⟨value, hvalue⟩)
    exact ⟨(_, n), mem_directives.2 ⟨hkey, rfl⟩, hfails.imp_right fun h => ⟨value, hvalue, h⟩⟩

/-! ## Owners and orders that do not matter -/

/-- What a directive declares for one owner and is stamped for another is what it declares for the
other. -/
theorem map_restamp_ofDirective (base base' : String) :
    (ofDirective doc stamp base' scope key n).map (Option.map (restamp stamp base)) =
      ofDirective doc stamp base scope key n := by
  unfold ofDirective
  by_cases hn : n = ""
  · simp [hn]
  · simp only [hn, if_false]
    cases Directive.object? doc scope key with
    | error e => rfl
    | ok declared => cases declared <;> simp [pure, Except.pure]

/-- A list built for one owner and stamped for another is the list built for the other. -/
theorem map_restamp_build (base base' : String) :
    (build doc stamp base' scope inherited).map (List.map (restamp stamp base)) =
      build doc stamp base scope inherited := by
  have hstep : ∀ (plugins plugins' : List Members) (d : String × String),
      plugins.map (restamp stamp base) = id plugins' →
      (addDirective doc stamp base' scope plugins d).map (List.map (restamp stamp base)) =
        (addDirective doc stamp base scope plugins' d).map id := by
    rintro plugins _ ⟨key, n⟩ rfl
    simp only [addDirective, ← map_restamp_ofDirective base base']
    cases ofDirective doc stamp base' scope key n with
    | error e => rfl
    | ok found =>
      cases found with
      | none => rfl
      | some plugin =>
        simp [pure, Except.pure, map_insert (name_restamp stamp base)]
  rw [build_eq_foldlM, build_eq_foldlM]
  refine (map_foldlM_congr ?_ hstep).trans (congrFun Except.map_id _)
  rw [map_sortByName (name_restamp stamp base), List.map_map]
  simp [Function.comp_def]

/-- The order of inherited plugins of different names does not matter. -/
theorem build_perm (hnodup : (inherited.map name).Nodup) (hperm : permuted.Perm inherited) :
    build doc stamp base scope permuted = build doc stamp base scope inherited := by
  have hstamped : ((inherited.map (restamp stamp base)).map name).Nodup := by
    simpa [Function.comp_def] using hnodup
  have hpermuted := hperm.map (restamp stamp base)
  have hsorted : sortByName (permuted.map (restamp stamp base)) =
      sortByName (inherited.map (restamp stamp base)) := by
    have hnodup' := ((hpermuted.map name).nodup_iff).2 hstamped
    refine (ordered_sortByName hnodup').ext (ordered_sortByName hstamped) fun n => ?_
    rw [find?_sortByName hnodup', find?_sortByName hstamped,
      find?_eq_of_mem_iff hnodup' hstamped fun p => hpermuted.mem_iff]
  rw [build_eq_foldlM, hsorted, ← build_eq_foldlM]

/-- A list built on another is the same whatever owner the other was built for. -/
theorem build_bind_build (parent : Members) (base base' owner : String) :
    (build doc stamp base' parent inherited >>= build doc stamp owner scope) =
      (build doc stamp base parent inherited >>= build doc stamp owner scope) := by
  have hbuild : ∀ plugins, build doc stamp owner scope plugins =
      build doc stamp owner scope (plugins.map (restamp stamp base)) := by
    intro plugins
    rw [build_eq_foldlM, build_eq_foldlM, List.map_map]
    simp [Function.comp_def]
  rw [← map_restamp_build base base']
  cases build doc stamp base' parent inherited with
  | error e => rfl
  | ok plugins => exact hbuild plugins

/-! ## A list as a map -/

/-- What a directive declares stands in the list, stamped. -/
theorem restamp_mem_of_means (hnodup : (inherited.map name).Nodup)
    (h : build doc stamp base scope inherited = .ok result) {value : Json}
    (hvalue : scope.get? (Directive.pluginStart ++ n) = some value)
    (hmeans : Directive.Means doc value m) :
    restamp stamp base (((m.erase "service").erase "route").insert "name" (.str n)) ∈ result := by
  obtain ⟨hord, hfind⟩ := build_spec hnodup h
  have hdeclared : declared? doc scope n =
      some (((m.erase "service").erase "route").insert "name" (.str n)) := by
    rw [declared?, Directive.object?_eq_ok_some_iff.2 ⟨value, hvalue, hmeans⟩]
  have hentry := hfind n
  rw [hdeclared] at hentry
  exact ((find?_eq_some_iff hord.nodup_names).1 hentry).1

/-- An inherited plugin without a directive of its name stands in the list, stamped anew. -/
theorem restamp_mem_of_inherited (hnodup : (inherited.map name).Nodup)
    (h : build doc stamp base scope inherited = .ok result) (hp : p ∈ inherited)
    (hkey : Directive.pluginStart ++ name p ∉ scope.keys) : restamp stamp base p ∈ result := by
  obtain ⟨hord, hfind⟩ := build_spec hnodup h
  have hentry := hfind (name p)
  rw [declared?_eq_none hkey, (find?_eq_some_iff hnodup).2 ⟨hp, rfl⟩] at hentry
  exact ((find?_eq_some_iff hord.nodup_names).1 hentry).1

/-- A plugin directive of a scope whose list is built names a plugin and stands for an object. -/
theorem means_of_build (h : build doc stamp base scope inherited = .ok result) {value : Json}
    (hvalue : scope.get? (Directive.pluginStart ++ n) = some value) :
    n ≠ "" ∧ ∃ target, Directive.Means doc value target := by
  have hgood : ¬ (n = "" ∨ value.asObject? = none ∨ Directive.Dangles doc value) := by
    intro hbad
    obtain ⟨e, he⟩ := exists_error_build_iff.2 ⟨n, value, hvalue, hbad⟩
    cases he.symm.trans h
  simp only [not_or] at hgood
  exact ⟨hgood.1, Directive.exists_means_iff.2 hgood.2⟩

/-- The list has the inherited names and those of the directives. -/
theorem mem_names_build (hnodup : (inherited.map name).Nodup)
    (h : build doc stamp base scope inherited = .ok result) :
    n ∈ result.map name ↔ n ∈ inherited.map name ∨ Directive.pluginStart ++ n ∈ scope.keys := by
  constructor
  · intro hn
    obtain ⟨p, hp, rfl⟩ := List.mem_map.1 hn
    obtain ⟨q, rfl, hdeclared | hq⟩ := cases_of_mem_build hnodup h p hp
    · rw [name_restamp]
      by_contra hnone
      cases hdeclared.symm.trans (declared?_eq_none (not_or.1 hnone).2)
    · exact .inl (List.mem_map.2 ⟨q, hq, (name_restamp ..).symm⟩)
  · intro hn
    by_cases hkey : Directive.pluginStart ++ n ∈ scope.keys
    · obtain ⟨value, hvalue⟩ := Option.isSome_iff_exists.1 (Members.mem_keys_iff.1 hkey)
      obtain ⟨-, m, hmeans⟩ := means_of_build h hvalue
      refine List.mem_map.2 ⟨_, restamp_mem_of_means hnodup h hvalue hmeans, ?_⟩
      rw [name_restamp]
      simp [name, Members.string?]
    · obtain ⟨p, hp, rfl⟩ := List.mem_map.1 (hn.resolve_right hkey)
      exact List.mem_map.2 ⟨_, restamp_mem_of_inherited hnodup h hp hkey, name_restamp ..⟩

/-- The list of a scope as a map. It cannot be built exactly when a plugin directive of the scope
names no plugin, or has a value that is no object or has a `$ref` that stands for none. Otherwise
it is in strictly increasing order of names and has the inherited names and those of the
directives: under the name of a directive its object without owners, with that name, and under any
other name the inherited plugin, all stamped for the scope. Neither the order of the inherited
plugins matters nor, when they are a list that another scope has built, the owner it was built
for. -/
theorem overlay_of_build (doc : Document) (stamp : Stamp) (base : String) (scope : Members)
    {inherited : List Members} (hnodup : (inherited.map name).Nodup) :
    ((∃ e, build doc stamp base scope inherited = .error e) ↔
      ∃ n value, scope.get? (Directive.pluginStart ++ n) = some value ∧
        (n = "" ∨ value.asObject? = none ∨ Directive.Dangles doc value)) ∧
    (∀ result, build doc stamp base scope inherited = .ok result →
      Ordered result ∧
      (∀ n, n ∈ result.map name ↔
        n ∈ inherited.map name ∨ Directive.pluginStart ++ n ∈ scope.keys) ∧
      (∀ n value m, scope.get? (Directive.pluginStart ++ n) = some value →
        Directive.Means doc value m →
          restamp stamp base (((m.erase "service").erase "route").insert "name" (.str n)) ∈
            result) ∧
      (∀ p ∈ inherited, Directive.pluginStart ++ name p ∉ scope.keys →
        restamp stamp base p ∈ result) ∧
      ∀ p ∈ result, Bears stamp base ("plugin." ++ name p) p) ∧
    (∀ permuted : List Members, permuted.Perm inherited →
      build doc stamp base scope permuted = build doc stamp base scope inherited) ∧
    ∀ (parent : Members) (owner owner' : String),
      (build doc stamp owner parent inherited >>= build doc stamp base scope) =
        (build doc stamp owner' parent inherited >>= build doc stamp base scope) := by
  refine ⟨exists_error_build_iff, ?_, fun permuted => build_perm hnodup,
    fun parent owner owner' => build_bind_build parent owner' owner base⟩
  intro result h
  refine ⟨(build_spec hnodup h).1, fun n => mem_names_build hnodup h,
    fun n value m => restamp_mem_of_means hnodup h, fun p => restamp_mem_of_inherited hnodup h, ?_⟩
  intro p hp
  obtain ⟨q, rfl, -⟩ := cases_of_mem_build hnodup h p hp
  rw [name_restamp]
  exact bears_restamp stamp base q

/-- A document with a plugin that scopes may refer to. -/
def turnstileDocument : Document :=
  ⟨[("components", .obj [("x-kong", .obj [("auth", .obj
      [("config", .obj [("hide_credentials", .bool true)]), ("service", .str "elsewhere")])])]),
    ("openapi", .str "3.0.0"), ("paths", .obj [])], "3.0.0"⟩

/-- A scope with a plugin of its own and one by reference. -/
def turnstileScope : Members :=
  [("x-kong-plugin-cors", .obj []),
    ("x-kong-plugin-key-auth", .obj [("$ref", .str "#/components/x-kong/auth")])]

/-- Two inherited plugins in the wrong order, of which the scope declares one anew. -/
def turnstileInherited : List Members :=
  [[("name", .str "rate-limiting"), ("tags", .arr [])],
    [("enabled", .bool false), ("name", .str "cors")]]

/-- The plugin that is referred to loses its owner, the one that is not declared anew stays, and the
other order of the inherited ones gives the same list. -/
theorem overlay_of_build_turnstile : (turnstileInherited.map name).Nodup ∧
    ∃ result, build turnstileDocument ⟨["gate"], Uuid.dns, true, Uuid.named⟩ "turnstile"
        turnstileScope turnstileInherited = .ok result ∧
      Ordered result ∧
      [("config", .obj [("hide_credentials", .bool true)]), ("name", .str "key-auth"),
        ("tags", .arr [.str "gate"])] ∈ result ∧
      [("name", .str "rate-limiting"), ("tags", .arr [.str "gate"])] ∈ result ∧
      build turnstileDocument ⟨["gate"], Uuid.dns, true, Uuid.named⟩ "turnstile" turnstileScope
        turnstileInherited.reverse = .ok result := by
  have hnodup : (turnstileInherited.map name).Nodup := by decide
  have hsome : (build turnstileDocument ⟨["gate"], Uuid.dns, true, Uuid.named⟩ "turnstile"
      turnstileScope turnstileInherited).toOption.isSome = true := by
    decide +kernel
  obtain ⟨result, h⟩ := Option.isSome_iff_exists.1 hsome
  rw [toOption_eq_some_iff] at h
  obtain ⟨-, hresult, hperm, -⟩ := overlay_of_build turnstileDocument
    ⟨["gate"], Uuid.dns, true, Uuid.named⟩ "turnstile" turnstileScope hnodup
  obtain ⟨hord, -, hdeclared, hinherited, -⟩ := hresult result h
  refine ⟨hnodup, result, h, hord, ?_, ?_, (hperm _ (List.reverse_perm _)).trans h⟩
  · exact hdeclared "key-auth" _ _ rfl (Directive.means_obj_iff.2 rfl)
  · exact hinherited [("name", .str "rate-limiting"), ("tags", .arr [])] List.mem_cons_self
      (by decide)

end ApiGateway.Plugin
