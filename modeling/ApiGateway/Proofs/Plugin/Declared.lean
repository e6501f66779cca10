import ApiGateway.Proofs.Outcome
import ApiGateway.Proofs.Plugin.Overlay

/-!
# The plugins a scope declares

Building the list of a scope is an overlay of maps: the directives of the scope over the
inherited plugins, everything stamped for the scope.

## Main definitions

* `Plugin.declared?`: the plugin that a scope declares under a name.
-/
namespace ApiGateway

namespace Plugin

/-- The plugin that a scope declares under a name, before it is stamped. -/
def declared? (doc : Document) (object : Members) (sought : String) : Option Members :=
  match Directive.object? doc object (Directive.pluginStart ++ sought) with
  | .ok (some plugin) =>
    some (((plugin.erase "service").erase "route").insert "name" (.str sought))
  | _ => none

theorem name_of_declared? {doc : Document} {object : Members} {sought : String} {p : Members}
    (h : declared? doc object sought = some p) : name p = sought := by
  unfold declared? at h
  split at h
  · obtain rfl := Option.some.inj h
    simp [name, Members.string?]
  · simp at h

/-- Only a key of the scope declares a plugin. -/
theorem declared?_eq_none {doc : Document} {object : Members} {sought : String}
    (h : Directive.pluginStart ++ sought ∉ object.keys) : declared? doc object sought = none := by
  have hget : object.get? (Directive.pluginStart ++ sought) = none := by
    simpa [Members.mem_keys_iff] using h
  simp [declared?, Directive.object?, hget]

/-- The directives of a scope are its keys that start as plugin directives do. -/
theorem mem_directives {object : Members} {key sought : String} :
    (key, sought) ∈ directives object ↔
      key ∈ object.keys ∧ key = Directive.pluginStart ++ sought := by
  simp only [directives, List.mem_filterMap, Option.map_eq_some_iff, Prod.mk.injEq,
    Text.after?_eq_some_iff]
  constructor
  · rintro ⟨_, hkey, rest, htext, rfl, rfl⟩
    exact ⟨hkey, String.toList_inj.1 (by simp [htext])⟩
  · rintro ⟨hkey, rfl⟩
    exact ⟨_, hkey, sought.toList, by simp, rfl, by simp⟩

/-- A directive that can be read gives the plugin that the scope declares, stamped. -/
theorem eq_declared?_of_ofDirective {doc : Document} {stamp : Stamp} {base : String}
    {object : Members} {sought : String} {p : Option Members}
    (h : ofDirective doc stamp base object (Directive.pluginStart ++ sought) sought = .ok p) :
    p = (declared? doc object sought).map (restamp stamp base) := by
  unfold ofDirective at h
  split at h
  · cases h
  · cases hobject : Directive.object? doc object (Directive.pluginStart ++ sought) with
    | error e => rw [hobject] at h; cases h
    | ok declared =>
      rw [hobject] at h
      obtain rfl := Except.ok.inj h
      cases declared <;> simp [declared?, hobject]

/-- One step of building a list: the plugin of a directive is put into it. -/
def addDirective (doc : Document) (stamp : Stamp) (base : String) (object : Members)
    (plugins : List Members) (directive : String × String) : Except Error (List Members) := do
  match ← ofDirective doc stamp base object directive.1 directive.2 with
  | some plugin => return insert plugins plugin
  | none => return plugins

theorem build_eq_foldlM (doc : Document) (stamp : Stamp) (base : String) (object : Members)
    (inherited : List Members) : build doc stamp base object inherited =
      (directives object).foldlM (addDirective doc stamp base object)
        (sortByName (inherited.map (restamp stamp base))) := rfl

/-- Scopes with the same keys whose directives are read alike have the same lists. -/
theorem build_congr {doc doc' : Document} {object object' : Members}
    (hkeys : object.keys = object'.keys)
    (h : ∀ key sought, (key, sought) ∈ directives object →
      Directive.object? doc object key = Directive.object? doc' object' key)
    (stamp : Stamp) (base : String) (inherited : List Members) :
    build doc stamp base object inherited = build doc' stamp base object' inherited := by
  have hdirectives : directives object = directives object' := by
    rw [directives, directives, hkeys]
  rw [build_eq_foldlM, build_eq_foldlM, ← hdirectives]
  refine foldlM_congr _ ?_
  rintro ⟨key, sought⟩ hmem plugins
  simp only [addDirective, ofDirective, h key sought hmem]

/-- A step keeps the order, and sets the value of the name of the directive. -/
theorem addDirective_spec {doc : Document} {stamp : Stamp} {base : String} {object : Members}
    {plugins result : List Members} {sought : String} (hord : Ordered plugins)
    (h : addDirective doc stamp base object plugins (Directive.pluginStart ++ sought, sought) =
      .ok result) :
    Ordered result ∧ ∀ n, find? result n =
      if n = sought then
        (declared? doc object n).map (restamp stamp base) <|> find? plugins n
      else find? plugins n := by
  unfold addDirective at h
  cases hdir : ofDirective doc stamp base object (Directive.pluginStart ++ sought) sought with
  | error e => rw [hdir] at h; cases h
  | ok p =>
    rw [hdir] at h
    have hp := eq_declared?_of_ofDirective hdir
    cases hdecl : declared? doc object sought with
    | none =>
      rw [hdecl] at hp
      subst hp
      obtain rfl := Except.ok.inj h
      refine ⟨hord, ?_⟩
      intro n
      split
      · subst n; simp [hdecl]
      · rfl
    | some q =>
      rw [hdecl] at hp
      subst hp
      obtain rfl := Except.ok.inj h
      refine ⟨hord.insert _, ?_⟩
      intro n
      rw [find?_insert hord, name_restamp, name_of_declared? hdecl]
      split
      · subst n; simp [hdecl]
      · rfl

/-- Directives put into an ordered list one after the other lie over it. -/
theorem foldlM_addDirective_spec {doc : Document} {stamp : Stamp} {base : String}
    {object : Members} {entries : List (String × String)} {plugins result : List Members}
    (hkeys : ∀ d ∈ entries, d.1 = Directive.pluginStart ++ d.2) (hord : Ordered plugins)
    (h : entries.foldlM (addDirective doc stamp base object) plugins = .ok result) :
    Ordered result ∧ ∀ n, find? result n =
      if n ∈ entries.map Prod.snd then
        (declared? doc object n).map (restamp stamp base) <|> find? plugins n
      else find? plugins n := by
  induction entries generalizing plugins with
  | nil =>
    obtain rfl := Except.ok.inj h
    exact ⟨hord, by simp⟩
  | cons d entries ih =>
    obtain ⟨key, sought⟩ := d
    obtain rfl : key = Directive.pluginStart ++ sought := hkeys (key, sought) (by simp)
    rw [List.foldlM_cons] at h
    cases hstep : addDirective doc stamp base object plugins
        (Directive.pluginStart ++ sought, sought) with
    | error e => rw [hstep] at h; cases h
    | ok next =>
      rw [hstep] at h
      obtain ⟨hnext, hfind⟩ := addDirective_spec hord hstep
      obtain ⟨hresult, hrest⟩ := ih (fun d hd => hkeys d (by simp [hd])) hnext h
      refine ⟨hresult, ?_⟩
      intro n
      rw [hrest, hfind]
      simp only [List.map_cons, List.mem_cons]
      by_cases hn : n = sought
      · rw [if_pos hn, if_pos (Or.inl hn)]
        split
        · cases declared? doc object n <;> rfl
        · rfl
      · simp only [hn, if_false, false_or]

/-- The list of a scope is in order and maps every name to the plugin that the scope declares
under it, or else to the inherited one, stamped for the scope. -/
theorem build_spec {doc : Document} {stamp : Stamp} {base : String} {object : Members}
    {inherited result : List Members} (hnodup : (inherited.map name).Nodup)
    (h : build doc stamp base object inherited = .ok result) :
    Ordered result ∧ ∀ n, find? result n =
      (declared? doc object n <|> find? inherited n).map (restamp stamp base) := by
  rw [build_eq_foldlM] at h
  have hmap : ((inherited.map (restamp stamp base)).map name).Nodup := by
    simpa [Function.comp_def] using hnodup
  have hkeys : ∀ d ∈ directives object, d.1 = Directive.pluginStart ++ d.2 :=
    fun d hd => (mem_directives.1 hd).2
  obtain ⟨hresult, hfind⟩ := foldlM_addDirective_spec hkeys (ordered_sortByName hmap) h
  refine ⟨hresult, ?_⟩
  intro n
  rw [hfind, find?_sortByName hmap, find?_map (name_restamp stamp base)]
  split
  · cases declared? doc object n <;> simp
  · -- a name without a directive is not declared
    rename_i hn
    have hkey : Directive.pluginStart ++ n ∉ object.keys := by
      intro hkey
      exact hn (List.mem_map.2 ⟨(_, n), mem_directives.2 ⟨hkey, rfl⟩, rfl⟩)
    simp [declared?_eq_none hkey]

/-- Every plugin of a list that a scope builds is stamped for the scope. It is one that the scope
declares, or an inherited one. -/
theorem cases_of_mem_build {doc : Document} {stamp : Stamp} {base : String} {object : Members}
    {inherited result : List Members} (hnodup : (inherited.map name).Nodup)
    (h : build doc stamp base object inherited = .ok result) :
    ∀ p ∈ result, ∃ q, p = restamp stamp base q ∧
      (declared? doc object (name q) = some q ∨ q ∈ inherited) := by
  intro p hp
  obtain ⟨hord, hfind⟩ := build_spec hnodup h
  have hfound := (find?_eq_some_iff hord.nodup_names).2 ⟨hp, rfl⟩
  rw [hfind, Option.map_eq_some_iff] at hfound
  obtain ⟨q, hq, rfl⟩ := hfound
  rw [name_restamp] at hq
  refine ⟨q, rfl, ?_⟩
  cases hdeclared : declared? doc object (name q) with
  | some declared =>
    rw [hdeclared] at hq
    exact Or.inl hq
  | none =>
    rw [hdeclared] at hq
    exact Or.inr (List.mem_of_find?_eq_some hq)

end Plugin

end ApiGateway
