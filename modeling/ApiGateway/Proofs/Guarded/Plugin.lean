import ApiGateway.Entity.Plugin
import ApiGateway.Proofs.Guarded.Access

/-!
# Guarded plugin lists

The search in a sorted list reads entries by their positions, putting a plugin into a list replaces
an entry or inserts one at a position, and the name of a declared plugin is what follows the start
of its key. None of these accesses misses, whatever the list and the keys are.

## Main definitions

* `Guarded.narrow`, `Guarded.insert`: a plugin put into a list, with positions checked.
* `Guarded.build`: the list of a scope, with the cuts of its keys checked.

## Main results

* `Guarded.insert_eq`, `Guarded.build_eq`: the guarded functions are the plain ones.
-/
namespace ApiGateway.Guarded

/-- Halves a window of a list until one entry is left, reading the entry in the middle by its
position. -/
def narrow (plugins : List Members) (sought : String) (start size : Nat) : Except Halt Nat :=
  if h : 1 < size then do
    let middle := start + size / 2
    let found ← entry plugins middle
    narrow plugins sought (if sought < Plugin.name found then start else middle) (size - size / 2)
  else pure start
termination_by size
decreasing_by omega

/-- Puts a plugin into a list in the order of names, replacing one of its name. -/
def insert (plugins : List Members) (plugin : Members) : Except Halt (List Members) :=
  if plugins.isEmpty then insertAt plugins 0 plugin
  else do
    let sought := Plugin.name plugin
    let index ← narrow plugins sought 0 plugins.length
    let found ← entry plugins index
    if Plugin.name found = sought then replaceAt plugins index plugin
    else if Plugin.name found < sought then insertAt plugins (index + 1) plugin
    else insertAt plugins index plugin

/-- The list of a scope. The name of a plugin is cut off its key. -/
def build (doc : Document) (stamp : Stamp) (base : String) (scope : Members)
    (inherited : List Members) : Except Halt (List Members) :=
  let starts (key : String) := Directive.pluginStart.toList.isPrefixOf key.toList
  (scope.keys.filter starts).foldlM (fun plugins key => do
      let (_, name) ← cut Directive.pluginStart.utf8ByteSize key.toList
      match ← lift (Plugin.ofDirective doc stamp base scope key (String.ofList name)) with
      | some plugin => insert plugins plugin
      | none => pure plugins)
    (Plugin.sortByName (inherited.map (Plugin.restamp stamp base)))

/-- A window of a list that is not empty is narrowed down to a position of the list. -/
theorem narrow_eq {plugins : List Members} (sought : String) {start size : ℕ} (hsize : 0 < size)
    (hwindow : start + size ≤ plugins.length) :
    narrow plugins sought start size = .ok (Plugin.narrow plugins sought start size) ∧
      Plugin.narrow plugins sought start size < plugins.length := by
  induction size using Nat.strong_induction_on generalizing start with
  | _ size ih =>
    rw [narrow, Plugin.narrow]
    split
    · rename_i hlarge
      have hmiddle : start + size / 2 < plugins.length := by omega
      simp only [entry_of_getElem? (List.getElem?_eq_getElem hmiddle), ok_bind,
        List.getD_eq_getElem?_getD, List.getElem?_eq_getElem hmiddle, Option.getD_some]
      refine ih _ (by omega) (by omega) ?_
      split <;> omega
    · exact ⟨rfl, by omega⟩

/-- Putting a plugin into a list misses no entry. -/
theorem insert_eq (plugins : List Members) (plugin : Members) :
    insert plugins plugin = .ok (Plugin.insert plugins plugin) := by
  cases plugins with
  | nil => simp [insert, Plugin.insert, insertAt]
  | cons first rest =>
    have hpos : 0 < (first :: rest).length := Nat.succ_pos _
    obtain ⟨hnarrow, hindex⟩ := narrow_eq (Plugin.name plugin) hpos (Nat.zero_add _).le
    have hfound := List.getElem?_eq_getElem hindex
    rw [insert, if_neg (by simp)]
    simp only [hnarrow, ok_bind, entry_of_getElem? hfound, Plugin.insert, hfound]
    split
    · exact replaceAt_of_lt hindex plugin
    · split
      · exact insertAt_of_le hindex plugin
      · exact insertAt_of_le hindex.le plugin

/-- The name of a plugin is cut off a key that starts like a directive. -/
theorem cut_directive {key : String} {name : List Char}
    (h : key.toList = Directive.pluginStart.toList ++ name) :
    cut Directive.pluginStart.utf8ByteSize key.toList =
      .ok (Directive.pluginStart.toList, name) := by
  rw [← String.utf8Len_toList, h]
  exact cut_of_cut? (Text.cut?_append _ _)

/-- Building the list of a scope cuts keys at boundaries and misses no entry. -/
theorem build_eq (doc : Document) (stamp : Stamp) (base : String) (scope : Members)
    (inherited : List Members) :
    build doc stamp base scope inherited = lift (Plugin.build doc stamp base scope inherited) := by
  refine Follows.eq_lift ?_
  rw [build, Plugin.build, Plugin.directives]
  generalize Plugin.sortByName (inherited.map (Plugin.restamp stamp base)) = plugins
  induction scope.keys generalizing plugins with
  | nil => exact Follows.ok rfl
  | cons key keys ih =>
    cases hafter : Text.after? Directive.pluginStart.toList key.toList with
    | none =>
      rw [List.filter_cons_of_neg, List.filterMap_cons_none (by rw [hafter]; rfl)]
      · exact ih plugins
      · intro hstart
        obtain ⟨name, hname⟩ := List.isPrefixOf_iff_prefix.1 hstart
        rw [Text.after?_eq_some_iff.2 hname.symm] at hafter
        cases hafter
    | some name =>
      have hkey := Text.after?_eq_some_iff.1 hafter
      rw [List.filter_cons_of_pos (by rw [hkey]; simp),
        List.filterMap_cons_some (by rw [hafter]; rfl), List.foldlM_cons, List.foldlM_cons]
      simp only [cut_directive hkey, ok_bind, bind_assoc]
      refine Follows.bind_lift fun declared => ?_
      cases declared with
      | none => exact ih plugins
      | some plugin =>
        dsimp only
        rw [insert_eq]
        exact ih _

end ApiGateway.Guarded
