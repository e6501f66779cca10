import ApiGateway.Entity.Plugin
import ApiGateway.Proofs.Json.Members
import Mathlib.Data.List.GetD
import Mathlib.Data.List.InsertIdx
import Mathlib.Data.List.Sort

/-!
# Plugin lists as maps

A list in strictly increasing order of names stands for a map from names to plugins. Putting a
plugin into such a list by the halving search is insertion into the map, stamps leave names and
payloads alone, and taking the validator out removes one name. Nothing that is done with such lists
looks further than the names.

## Main definitions

* `Plugin.Ordered`: strictly increasing by name.
* `Plugin.find?`: the plugin of a name.
* `Plugin.payload`: a plugin without what a stamp writes.
-/
namespace ApiGateway

namespace Stamp

/-- Other fields than those of a stamp may be set before it or after it. -/
theorem apply_insert (stamp : Stamp) (entity : Members) (base kind : String) {key : String}
    (hid : key ≠ "id") (htags : key ≠ "tags") (value : Json) :
    stamp.apply (entity.insert key value) base kind =
      (stamp.apply entity base kind).insert key value := by
  unfold apply
  split
  · rw [Members.insert_comm _ htags]
  · rw [Members.insert_comm _ hid, Members.insert_comm _ htags]

/-- Of two stamps the last one stays. -/
@[simp] theorem apply_apply (stamp : Stamp) (entity : Members) (base kind base' kind' : String) :
    stamp.apply (stamp.apply entity base kind) base' kind' = stamp.apply entity base' kind' := by
  unfold apply
  split
  · rw [Members.insert_insert_self]
  · rw [Members.insert_comm _ (by decide : "tags" ≠ "id"), Members.insert_insert_self,
      Members.insert_insert_self]

end Stamp

namespace Plugin

/-- In strictly increasing order of names, so that no name stands twice. -/
def Ordered (plugins : List Members) : Prop :=
  plugins.Pairwise fun p q => name p < name q

/-- The plugin of a name. -/
def find? (plugins : List Members) (sought : String) : Option Members :=
  plugins.find? fun p => name p = sought

/-- Other fields leave the name of a plugin alone. -/
theorem name_insert_of_ne {key : String} (hne : "name" ≠ key) (plugin : Members) (value : Json) :
    name (Members.insert plugin key value) = name plugin := by
  simp [name, Members.string?, Members.get?_insert, hne]

/-! ## The halving search -/

/-- The window of the search keeps what lies behind it after the name sought, and starts at a
name that is not after it unless it starts with the list. -/
theorem narrow_spec {plugins : List Members} (hord : Ordered plugins) (sought : String)
    (start size : ℕ) (hsize : 0 < size) (hlen : start + size ≤ plugins.length)
    (hstart : start = 0 ∨ ¬ sought < name (plugins.getD start []))
    (hbehind : ∀ j, start + size ≤ j → j < plugins.length →
      sought < name (plugins.getD j [])) :
    narrow plugins sought start size < plugins.length ∧
      (narrow plugins sought start size = 0 ∨
        ¬ sought < name (plugins.getD (narrow plugins sought start size) [])) ∧
      ∀ j, narrow plugins sought start size < j → j < plugins.length →
        sought < name (plugins.getD j []) := by
  fun_induction narrow plugins sought start size with
  | case1 start size hmany middle entry ih =>
    by_cases hlt : sought < entry
    · simp only [hlt, ↓reduceIte, ↓reduceDIte] at ih ⊢
      refine ih (by omega) (by omega) hstart ?_
      intro j hj hjlen
      rcases Nat.eq_or_lt_of_le (show middle ≤ j by omega) with heq | hmiddle
      · exact heq ▸ hlt
      · have hmid : middle < plugins.length := by omega
        have := List.pairwise_iff_getElem.1 hord middle j hmid hjlen hmiddle
        rw [List.getD_eq_getElem _ _ hjlen]
        simp only [entry, List.getD_eq_getElem _ _ hmid] at hlt
        exact hlt.trans this
    · simp only [hlt, ↓reduceIte, ↓reduceDIte] at ih ⊢
      refine ih (by omega) (by omega) (Or.inr hlt) ?_
      intro j hj hjlen
      exact hbehind j (by omega) hjlen
  | case2 start size hone =>
    refine ⟨by omega, hstart, ?_⟩
    intro j hj hjlen
    exact hbehind j (by omega) hjlen

/-- In an ordered list the entries before a place have smaller names, those behind it greater
ones. -/
theorem Ordered.split {before after : List Members} {entry : Members}
    (hord : Ordered (before ++ entry :: after)) :
    (∀ q ∈ before, name q < name entry) ∧ ∀ q ∈ after, name entry < name q := by
  have h := List.pairwise_append.1 hord
  exact ⟨fun q hq => h.2.2 q hq entry (by simp), (List.pairwise_cons.1 h.2.1).1⟩

/-- Where the search of a list that is not empty ends, the list splits. -/
theorem exists_split_narrow {plugins : List Members} (hord : Ordered plugins) (sought : String)
    (hne : plugins ≠ []) :
    ∃ before entry after, plugins = before ++ entry :: after ∧
      before.length = narrow plugins sought 0 plugins.length ∧
      (before = [] ∨ ¬ sought < name entry) ∧ ∀ q ∈ after, sought < name q := by
  have hpos : 0 < plugins.length := List.length_pos_iff.2 hne
  obtain ⟨hlen, hstart, hbehind⟩ := narrow_spec hord sought 0 plugins.length hpos
    (by omega) (Or.inl rfl) (by omega)
  generalize narrow plugins sought 0 plugins.length = i at hlen hstart hbehind ⊢
  refine ⟨plugins.take i, plugins[i], plugins.drop (i + 1), ?_, ?_, ?_, ?_⟩
  · rw [← List.drop_eq_getElem_cons hlen, List.take_append_drop]
  · rw [List.length_take]; omega
  · rw [List.getD_eq_getElem _ _ hlen] at hstart
    rcases hstart with rfl | hstart
    · exact Or.inl rfl
    · exact Or.inr hstart
  · intro q hq
    obtain ⟨k, hk, rfl⟩ := List.mem_iff_getElem.1 hq
    rw [List.length_drop] at hk
    have := hbehind (i + 1 + k) (by omega) (by omega)
    rw [List.getD_eq_getElem _ _ (by omega)] at this
    simpa [-String.lt_iff_ltb] using this

private theorem insertIdx_behind {α : Type} (before after : List α) (entry a : α) :
    (before ++ entry :: after).insertIdx (before.length + 1) a = before ++ entry :: a :: after := by
  induction before with
  | nil => rfl
  | cons b before ih => simp [ih]

/-- Putting a plugin into an ordered list leaves it between the smaller and the greater names. -/
theorem insert_eq {plugins : List Members} (hord : Ordered plugins) (p : Members) :
    insert plugins p = plugins.filter (fun q => name q < name p) ++
      p :: plugins.filter fun q => name p < name q := by
  rcases eq_or_ne plugins [] with rfl | hne
  · simp [insert]
  obtain ⟨before, entry, after, hsplit, hlen, hstart, hbehind⟩ :=
    exists_split_narrow hord (name p) hne
  simp only [insert, ← hlen]
  subst hsplit
  obtain ⟨hbefore, -⟩ := hord.split
  have hgreater : after.filter (fun q => name p < name q) = after :=
    List.filter_eq_self.2 fun q hq => decide_eq_true (hbehind q hq)
  have hnone : after.filter (fun q => name q < name p) = [] :=
    List.filter_eq_nil_iff.2 fun q hq h => (hbehind q hq).not_gt (of_decide_eq_true h)
  -- the names before the entry are smaller than the one sought when the entry's is not greater
  have hsmaller (hle : name entry ≤ name p) :
      before.filter (fun q => name q < name p) = before ∧
        before.filter (fun q => name p < name q) = [] := by
    have hlt : ∀ q ∈ before, name q < name p := fun q hq => (hbefore q hq).trans_le hle
    exact ⟨List.filter_eq_self.2 fun q hq => decide_eq_true (hlt q hq),
      List.filter_eq_nil_iff.2 fun q hq h => (hlt q hq).not_gt (of_decide_eq_true h)⟩
  rw [List.filter_append, List.filter_append, List.filter_cons, List.filter_cons, hgreater, hnone]
  rcases lt_trichotomy (name entry) (name p) with hlt | heq | hgt
  · obtain ⟨hb, hb'⟩ := hsmaller hlt.le
    rw [hb, hb']
    simp [-String.lt_iff_ltb, hlt, hlt.ne, hlt.not_gt, insertIdx_behind]
  · obtain ⟨hb, hb'⟩ := hsmaller heq.le
    rw [hb, hb']
    simp [-String.lt_iff_ltb, heq]
  · rcases hstart with rfl | hstart
    · simp [-String.lt_iff_ltb, hgt, hgt.ne', hgt.not_gt]
    · exact absurd hgt hstart

/-! ## The map of an ordered list -/

theorem Ordered.nodup_names {plugins : List Members} (hord : Ordered plugins) :
    (plugins.map name).Nodup :=
  List.pairwise_map.2 (hord.imp ne_of_lt)

theorem Ordered.filter {plugins : List Members} (hord : Ordered plugins)
    (keep : Members → Bool) : Ordered (plugins.filter keep) :=
  List.Pairwise.filter keep hord

/-- What an ordered list holds after a plugin has been put into it. -/
theorem mem_insert {plugins : List Members} (hord : Ordered plugins) {p q : Members} :
    q ∈ insert plugins p ↔ q = p ∨ q ∈ plugins ∧ name q ≠ name p := by
  rw [insert_eq hord]
  simp only [List.mem_append, List.mem_cons, List.mem_filter, decide_eq_true_eq]
  constructor
  · rintro (⟨hq, hlt⟩ | rfl | ⟨hq, hlt⟩)
    · exact Or.inr ⟨hq, hlt.ne⟩
    · exact Or.inl rfl
    · exact Or.inr ⟨hq, hlt.ne'⟩
  · rintro (rfl | ⟨hq, hne⟩)
    · exact Or.inr (Or.inl rfl)
    · rcases lt_or_gt_of_ne hne with hlt | hgt
      · exact Or.inl ⟨hq, hlt⟩
      · exact Or.inr (Or.inr ⟨hq, hgt⟩)

theorem Ordered.insert {plugins : List Members} (hord : Ordered plugins) (p : Members) :
    Ordered (insert plugins p) := by
  rw [insert_eq hord, Ordered, List.pairwise_append, List.pairwise_cons]
  refine ⟨hord.filter _, ⟨?_, hord.filter _⟩, ?_⟩
  · intro q hq
    exact of_decide_eq_true (List.mem_filter.1 hq).2
  · intro a ha b hb
    have ha := of_decide_eq_true (List.mem_filter.1 ha).2
    rcases List.mem_cons.1 hb with rfl | hb
    · exact ha
    · exact ha.trans (of_decide_eq_true (List.mem_filter.1 hb).2)

/-- The plugin of a name is the one entry with that name. -/
theorem find?_eq_some_iff {plugins : List Members} (hnodup : (plugins.map name).Nodup)
    {sought : String} {p : Members} :
    find? plugins sought = some p ↔ p ∈ plugins ∧ name p = sought :=
  find?_eq_some_iff_of_nodup hnodup

/-- Every entry of a name is the plugin of that name. -/
theorem filter_name_eq {plugins : List Members} (hnodup : (plugins.map name).Nodup)
    (sought : String) : plugins.filter (fun p => name p = sought) =
      (find? plugins sought).toList := by
  induction plugins with
  | nil => rfl
  | cons p plugins ih =>
    have hnodup := List.nodup_cons.1 hnodup
    by_cases hp : name p = sought
    · have hrest : plugins.filter (fun q => name q = sought) = [] := by
        refine List.filter_eq_nil_iff.2 fun q hq h => hnodup.1 ?_
        rw [hp, ← of_decide_eq_true h]
        exact List.mem_map_of_mem hq
      simp [find?, hp, hrest]
    · simpa [find?, hp] using ih hnodup.2

/-- Without the plugins of a name every other name keeps its plugin. -/
theorem find?_filter_ne (plugins : List Members) (n sought : String) :
    find? (plugins.filter fun p => name p ≠ n) sought =
      if sought = n then none else find? plugins sought := by
  simp only [find?, List.find?_filter]
  split
  · subst sought
    refine List.find?_eq_none.2 fun p _ => ?_
    simp
  · rename_i hne
    congr 1
    funext p
    by_cases hp : name p = sought
    · simp [hp, hne]
    · simp [hp]

/-- Lists of the same plugins, each name once, stand for the same map. -/
theorem find?_eq_of_mem_iff {plugins others : List Members} (hnodup : (plugins.map name).Nodup)
    (hothers : (others.map name).Nodup) (hmem : ∀ p, p ∈ plugins ↔ p ∈ others)
    (sought : String) : find? plugins sought = find? others sought := by
  ext p
  rw [find?_eq_some_iff hnodup, find?_eq_some_iff hothers, hmem]

/-- Putting a plugin into an ordered list sets the value of its name. -/
theorem find?_insert {plugins : List Members} (hord : Ordered plugins) (p : Members)
    (sought : String) :
    find? (insert plugins p) sought =
      if sought = name p then some p else find? plugins sought := by
  ext q
  rw [find?_eq_some_iff (hord.insert p).nodup_names, mem_insert hord]
  split
  · subst sought
    simp only [Option.some.injEq]
    constructor
    · rintro ⟨rfl | ⟨-, hne⟩, hname⟩
      · rfl
      · exact absurd hname hne
    · rintro rfl
      exact ⟨Or.inl rfl, rfl⟩
  · rename_i hne
    rw [find?_eq_some_iff hord.nodup_names]
    constructor
    · rintro ⟨rfl | ⟨hq, -⟩, hname⟩
      · exact absurd hname.symm hne
      · exact ⟨hq, hname⟩
    · rintro ⟨hq, hname⟩
      exact ⟨Or.inr ⟨hq, fun h => hne (hname ▸ h)⟩, hname⟩

/-- Plugins put into an ordered list one after the other lie over it. -/
theorem foldl_insert_spec {upper lower : List Members} (hupper : Ordered upper)
    (hlower : Ordered lower) :
    Ordered (upper.foldl insert lower) ∧
      ∀ n, find? (upper.foldl insert lower) n = (find? upper n <|> find? lower n) := by
  induction upper generalizing lower with
  | nil => exact ⟨hlower, fun n => rfl⟩
  | cons p upper ih =>
    have hcons := List.pairwise_cons.1 hupper
    obtain ⟨hord, hfind⟩ := ih hcons.2 (hlower.insert p)
    refine ⟨hord, ?_⟩
    intro n
    rw [List.foldl_cons, hfind, find?_insert hlower]
    by_cases hn : n = name p
    · -- no later plugin has the name of the first one
      have hnone : find? upper n = none := by
        refine List.find?_eq_none.2 fun q hq => ?_
        simpa [hn, -String.lt_iff_ltb] using (hcons.1 q hq).ne'
      have hfirst : find? (p :: upper) n = some p := by simp [find?, hn]
      rw [hnone, hfirst, if_pos hn]
      rfl
    · have hrest : find? (p :: upper) n = find? upper n := by
        simp [find?, Ne.symm hn]
      simp [hrest, hn]

/-! ## Stamps and payloads -/

/-- A plugin without what a stamp writes. -/
def payload (plugin : Members) : Members := (plugin.erase "id").erase "tags"

@[simp] theorem name_restamp (stamp : Stamp) (base : String) (plugin : Members) :
    name (restamp stamp base plugin) = name plugin := by
  simp [name, restamp, Members.string?, Stamp.get?_apply_of_ne]

@[simp] theorem name_payload (plugin : Members) : name (payload plugin) = name plugin := by
  simp [name, payload, Members.string?, Members.get?_erase]

/-- A new owner leaves the payload as it is. -/
@[simp] theorem payload_restamp (stamp : Stamp) (base : String) (plugin : Members) :
    payload (restamp stamp base plugin) = payload plugin := by
  simp only [payload, restamp, Stamp.apply]
  rw [Members.erase_comm, Members.erase_insert_self, Members.erase_comm]
  split
  · rfl
  · rw [Members.erase_insert_self]

/-- A new owner leaves fields alone that neither stamp nor name a plugin. -/
theorem restamp_insert_of_ne (stamp : Stamp) (base : String) (plugin : Members) {key : String}
    (hid : key ≠ "id") (htags : key ≠ "tags") (hname : key ≠ "name") (value : Json) :
    restamp stamp base (plugin.insert key value) =
      (restamp stamp base plugin).insert key value := by
  rw [restamp, name_insert_of_ne hname.symm, stamp.apply_insert _ _ _ hid htags, restamp]

/-- A plugin that gets a name and an owner does not remember the owner before. -/
theorem restamp_insert_name (stamp : Stamp) (base base' : String) (plugin : Members)
    (value : Json) :
    restamp stamp base' ((restamp stamp base plugin).insert "name" value) =
      restamp stamp base' (plugin.insert "name" value) := by
  have hname : name ((restamp stamp base plugin).insert "name" value) =
      name (plugin.insert "name" value) := by
    simp [name, Members.string?]
  rw [restamp, hname, restamp, ← stamp.apply_insert _ _ _ (by decide) (by decide),
    stamp.apply_apply, restamp]

/-- Of two owners the last one stays. -/
@[simp] theorem restamp_restamp (stamp : Stamp) (base base' : String) (plugin : Members) :
    restamp stamp base' (restamp stamp base plugin) = restamp stamp base' plugin := by
  rw [restamp, name_restamp, restamp, stamp.apply_apply, restamp]

/-- Entries changed under their names are found under them. -/
theorem find?_map {f : Members → Members} (hf : ∀ p, name (f p) = name p)
    (plugins : List Members) (sought : String) :
    find? (plugins.map f) sought = (find? plugins sought).map f := by
  simp only [find?, List.find?_map, Function.comp_def, hf]

theorem Ordered.map {f : Members → Members} (hf : ∀ p, name (f p) = name p)
    {plugins : List Members} (hord : Ordered plugins) : Ordered (plugins.map f) := by
  refine List.pairwise_map.2 (hord.imp ?_)
  intro p q hlt
  rwa [hf, hf]

/-- Ordered lists that stand for the same map are the same. -/
theorem Ordered.ext {plugins others : List Members} (hord : Ordered plugins)
    (hothers : Ordered others) (hfind : ∀ n, find? plugins n = find? others n) :
    plugins = others := by
  have hmem : ∀ p, p ∈ plugins ↔ p ∈ others := by
    intro p
    have hp : ∀ {l : List Members}, Ordered l → (p ∈ l ↔ find? l (name p) = some p) :=
      fun h => by simp [find?_eq_some_iff h.nodup_names]
    rw [hp hord, hp hothers, hfind]
  refine List.Perm.eq_of_pairwise ?_ hord hothers
    ((List.perm_ext_iff_of_nodup hord.nodup_names.of_map hothers.nodup_names.of_map).2 hmem)
  intro p q _ _ hpq hqp
  exact absurd hqp hpq.not_gt

/-- Ordered lists whose plugins have the same payloads under every name have the same payloads
in the same order. -/
theorem map_payload_eq {plugins others : List Members} (hord : Ordered plugins)
    (hothers : Ordered others)
    (hfind : ∀ n, (find? plugins n).map payload = (find? others n).map payload) :
    plugins.map payload = others.map payload := by
  refine (hord.map name_payload).ext (hothers.map name_payload) ?_
  intro n
  rw [find?_map name_payload, find?_map name_payload, hfind]

/-! ## Sorting -/

/-- Plugins of different names are in strictly increasing order once sorted. -/
theorem ordered_sortByName {plugins : List Members} (hnodup : (plugins.map name).Nodup) :
    Ordered (sortByName plugins) := by
  have hperm : (sortByName plugins).Perm plugins := List.mergeSort_perm _ _
  have hle : (sortByName plugins).Pairwise fun p q => !decide (name q < name p) := by
    refine List.pairwise_mergeSort (fun p q r => ?_) (fun p q => ?_) plugins
    · simpa [-String.lt_iff_ltb] using fun hpq hqr => hpq.trans hqr
    · simpa [-String.lt_iff_ltb] using le_total (name p) (name q)
  have hne : (sortByName plugins).Pairwise fun p q => name p ≠ name q :=
    List.pairwise_map.1 ((hperm.map name).nodup_iff.2 hnodup)
  refine (hle.and hne).imp ?_
  intro p q h
  have hle : name p ≤ name q := by simpa [-String.lt_iff_ltb] using h.1
  exact lt_of_le_of_ne hle h.2

theorem find?_sortByName {plugins : List Members} (hnodup : (plugins.map name).Nodup)
    (sought : String) : find? (sortByName plugins) sought = find? plugins sought :=
  find?_eq_of_mem_iff (ordered_sortByName hnodup).nodup_names hnodup
    (fun _ => (List.mergeSort_perm plugins _).mem_iff) sought

/-! ## Plugins changed under their names -/

section Renamed
variable {f : Members → Members} (hf : ∀ p, name (f p) = name p)
include hf

theorem name_getD_map (plugins : List Members) (i : Nat) :
    name ((plugins.map f).getD i []) = name (plugins.getD i []) := by
  rw [List.getD_eq_getElem?_getD, List.getElem?_map, List.getD_eq_getElem?_getD]
  cases plugins[i]? with
  | none => rfl
  | some p => exact hf p

/-- The halving search looks at names alone. -/
theorem narrow_map (plugins : List Members) (sought : String) (start size : Nat) :
    narrow (plugins.map f) sought start size = narrow plugins sought start size := by
  fun_induction narrow plugins sought start size with
  | case1 start size hmany middle entry ih =>
    rw [narrow, dif_pos hmany]
    simp only [name_getD_map hf]
    exact ih
  | case2 start size hone => rw [narrow, dif_neg hone]

/-- A plugin is put into a list by names alone. -/
theorem map_insert (plugins : List Members) (p : Members) :
    (insert plugins p).map f = insert (plugins.map f) (f p) := by
  simp only [insert, hf, List.length_map, narrow_map hf, List.getElem?_map]
  cases plugins[narrow plugins (name p) 0 plugins.length]? with
  | none => rfl
  | some entry =>
    simp only [Option.map_some, hf]
    split
    · exact List.map_set
    · split <;> exact List.map_insertIdx f plugins _ p

theorem map_sortByName (plugins : List Members) :
    (sortByName plugins).map f = sortByName (plugins.map f) := by
  refine List.map_mergeSort fun a _ b _ => ?_
  rw [hf, hf]

/-- The validator is taken out by its name. -/
theorem extractValidator_map (plugins : List Members) (fallback : Option Members) :
    extractValidator (plugins.map f) (fallback.map f) =
      ((extractValidator plugins fallback).1.map f,
        (extractValidator plugins fallback).2.map f) := by
  have hvalidator : isValidator ∘ f = isValidator := funext fun p => by simp [isValidator, hf]
  simp only [extractValidator, List.find?_map, List.filter_map, hvalidator, Prod.mk.injEq]
  constructor
  · cases plugins.find? isValidator <;> rfl
  · congr 2
    funext p
    simp [isValidator, hf]

end Renamed

/-! ## Taking the validator out -/

theorem Ordered.extractValidator {plugins : List Members} (hord : Ordered plugins)
    (fallback : Option Members) : Ordered (extractValidator plugins fallback).2 :=
  hord.filter _

/-- The validator of a list is the plugin of its name. -/
theorem fst_extractValidator (plugins : List Members) (fallback : Option Members) :
    (extractValidator plugins fallback).1 = (find? plugins validatorName <|> fallback) := rfl

/-- Every name but that of the validator keeps its plugin. -/
theorem find?_extractValidator (plugins : List Members) (fallback : Option Members)
    (sought : String) :
    find? (extractValidator plugins fallback).2 sought =
      if sought = validatorName then none else find? plugins sought := by
  have hrest : (extractValidator plugins fallback).2 =
      plugins.filter fun p => name p ≠ validatorName := by
    simp only [extractValidator, isValidator, ne_eq, decide_not, beq_eq_decide]
  rw [hrest, find?_filter_ne]

end Plugin

end ApiGateway
