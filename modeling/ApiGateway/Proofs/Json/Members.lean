import ApiGateway.Json.Basic
import Mathlib.Data.List.Nodup
import Mathlib.Data.String.Basic

/-!
# Members of objects

How members are found, how settings of values follow each other, and two ways to change an object
that keep the places of its members: every value replaced by its key, and the members of a key left
out. Lists of other items are looked up in the same way, by a key that no two of them share.

## Main definitions

* `Members.mapValues`: every value of an object replaced, by its key.
-/
namespace ApiGateway

/-- Under a key that no two items of a list share, the item with the key is found. -/
theorem find?_eq_some_iff_of_nodup {α β : Type} [DecidableEq β] {key : α → β} {items : List α}
    (hnodup : (items.map key).Nodup) {sought : β} {a : α} :
    items.find? (fun b => key b = sought) = some a ↔ a ∈ items ∧ key a = sought := by
  constructor
  · intro h
    exact ⟨List.mem_of_find?_eq_some h, by simpa using List.find?_some h⟩
  · rintro ⟨ha, rfl⟩
    have hsome : (items.find? fun b => key b = key a).isSome := List.find?_isSome.2 ⟨a, ha, by simp⟩
    obtain ⟨b, hb⟩ := Option.isSome_iff_exists.1 hsome
    have hkey : key b = key a := by simpa using List.find?_some hb
    rw [hb, List.inj_on_of_nodup_map hnodup (List.mem_of_find?_eq_some hb) ha hkey]

namespace Members
variable {members : Members} {key : String}

/-- What is found under a key is a member. -/
theorem mem_of_get? {value : Json} (h : members.get? key = some value) :
    (key, value) ∈ members := by
  induction members with
  | nil => cases h
  | cons m rest ih =>
    rw [get?_cons] at h
    split at h
    · subst_vars
      obtain rfl := Option.some.inj h
      exact List.mem_cons_self
    · exact List.mem_cons_of_mem _ (ih h)

/-- A key is listed when it has a value. -/
theorem mem_keys_iff : key ∈ members.keys ↔ (members.get? key).isSome := by
  induction members with
  | nil => simp [keys]
  | cons m rest ih =>
    obtain ⟨k, v⟩ := m
    by_cases hk : key = k
    · simp [keys, get?, hk]
    · simpa [keys, get?, hk] using ih

theorem string?_eq_some_iff {text : String} :
    members.string? key = some text ↔ members.get? key = some (.str text) := by
  unfold string?
  split <;> simp_all

theorem list?_eq_some_iff {items : List Json} :
    members.list? key = some items ↔ members.get? key = some (.arr items) := by
  unfold list?
  split <;> simp_all

theorem object?_eq_some_iff {inner : Members} :
    members.object? key = some inner ↔ members.get? key = some (.obj inner) := by
  unfold object?
  split <;> simp_all

/-- The value set last stays. -/
@[simp] theorem insert_insert_self (members : Members) (key : String) (first last : Json) :
    (members.insert key first).insert key last = members.insert key last := by
  induction members with
  | nil => simp [insert]
  | cons m rest ih =>
    obtain ⟨k, v⟩ := m
    rcases lt_trichotomy key k with hlt | rfl | hgt
    · simp [insert, hlt, -String.lt_iff_ltb]
    · simp [insert]
    · simp [insert, hgt.not_gt, hgt.ne', ih, -String.lt_iff_ltb]

/-- The order in which different keys are set does not matter. -/
theorem insert_comm (members : Members) {key other : String} (hne : key ≠ other)
    (value value' : Json) :
    (members.insert key value).insert other value' =
      (members.insert other value').insert key value := by
  wlog hlt : key < other generalizing key other value value'
  · have hgt : other < key := lt_of_le_of_ne (not_lt.1 hlt) hne.symm
    exact (this hne.symm value' value hgt).symm
  induction members with
  | nil => simp [insert, hlt, hlt.not_gt, hlt.ne', -String.lt_iff_ltb]
  | cons m rest ih =>
    obtain ⟨k, v⟩ := m
    rcases lt_trichotomy key k with hk | rfl | hk
    · -- the smaller key comes to stand here, and the greater one is sought from here on
      rcases lt_trichotomy other k with ho | rfl | ho
      · simp [insert, hk, ho, hlt, hlt.not_gt, hlt.ne', -String.lt_iff_ltb]
      · simp [insert, hk, hlt.not_gt, hlt.ne', -String.lt_iff_ltb]
      · simp [insert, hk, ho.not_gt, ho.ne', hlt.not_gt, hlt.ne', -String.lt_iff_ltb]
    · simp [insert, hlt.not_gt, hlt.ne', -String.lt_iff_ltb]
    · have ho : k < other := hk.trans hlt
      simp [insert, hk.not_gt, hk.ne', ho.not_gt, ho.ne', ih, -String.lt_iff_ltb]

/-- Setting a value adds no member but the one that is set. -/
theorem eq_or_mem_of_mem_insert {value : Json} {m : String × Json}
    (h : m ∈ members.insert key value) : m = (key, value) ∨ m ∈ members := by
  induction members with
  | nil => exact Or.inl (List.mem_singleton.1 h)
  | cons first rest ih =>
    rw [insert] at h
    split at h
    · exact List.mem_cons.1 h
    · split at h
      · exact (List.mem_cons.1 h).imp_right (List.mem_cons_of_mem _)
      · rcases List.mem_cons.1 h with rfl | h
        · exact Or.inr List.mem_cons_self
        · exact (ih h).imp_right (List.mem_cons_of_mem _)

/-- Keys in order stay so when a value is set. -/
theorem pairwise_keys_insert (h : members.keys.Pairwise (· < ·)) (key : String) (value : Json) :
    (members.insert key value).keys.Pairwise (· < ·) := by
  induction members with
  | nil => exact List.pairwise_singleton _ _
  | cons first rest ih =>
    obtain ⟨hfirst, hrest⟩ := List.pairwise_cons.1 h
    rw [insert]
    split
    · rename_i hlt
      exact List.pairwise_cons.2 ⟨List.forall_mem_cons.2 ⟨hlt, fun k hk => hlt.trans (hfirst k hk)⟩, h⟩
    · rename_i hge
      split
      · rename_i heq
        subst heq
        exact h
      · rename_i hne
        refine List.pairwise_cons.2 ⟨fun k hk => ?_, ih hrest⟩
        obtain ⟨m, hm, rfl⟩ := List.mem_map.1 hk
        rcases eq_or_mem_of_mem_insert hm with rfl | hm
        · exact lt_of_le_of_ne (not_lt.1 hge) (Ne.symm hne)
        · exact hfirst _ (List.mem_map_of_mem hm)

/-- A key behind all others goes to the end. -/
theorem insert_of_forall_lt (h : ∀ m ∈ members, m.1 < key) (value : Json) :
    members.insert key value = members ++ [(key, value)] := by
  induction members with
  | nil => rfl
  | cons m rest ih =>
    have hlt := h m (by simp)
    rw [insert, if_neg hlt.not_gt, if_neg hlt.ne',
      ih fun other hother => h other (List.mem_cons_of_mem _ hother), List.cons_append]

/-- Members in order are an object already. -/
theorem ofList_of_pairwise (h : members.keys.Pairwise (· < ·)) : ofList members = members := by
  have hfold : ∀ more front : Members, (front ++ more).keys.Pairwise (· < ·) →
      more.foldl (fun ms m => insert ms m.1 m.2) front = front ++ more := by
    intro more
    induction more with
    | nil => simp
    | cons m more ih =>
      intro front hfront
      have hlast : ∀ other ∈ front, other.1 < m.1 := by
        intro other hother
        simp only [keys, List.map_append, List.pairwise_append] at hfront
        exact hfront.2.2 _ (List.mem_map_of_mem hother) _ (by simp)
      rw [List.foldl_cons, insert_of_forall_lt hlast, ih _ (by simpa [keys] using hfront)]
      simp
  exact hfold members [] h

/-- The keys of an object do not depend on the value that is set last. -/
theorem keys_insert_congr (members : Members) (key : String) (value value' : Json) :
    (members.insert key value).keys = (members.insert key value').keys := by
  induction members with
  | nil => rfl
  | cons m rest ih =>
    obtain ⟨k, v⟩ := m
    simp only [keys, insert] at ih ⊢
    split
    · rfl
    · split
      · rfl
      · rw [List.map_cons, List.map_cons, ih]

/-- Every value replaced, by its key. -/
def mapValues (f : String → Json → Json) (members : Members) : Members :=
  members.map fun (key, value) => (key, f key value)

theorem mapValues_insert (f : String → Json → Json) (members : Members) (key : String)
    (value : Json) :
    (members.insert key value).mapValues f = (members.mapValues f).insert key (f key value) := by
  induction members with
  | nil => rfl
  | cons m rest ih =>
    obtain ⟨k, v⟩ := m
    simp only [mapValues, insert, List.map_cons] at ih ⊢
    split
    · rfl
    · split
      · rfl
      · rw [List.map_cons, ih]

theorem get?_mapValues (f : String → Json → Json) (members : Members) (key : String) :
    (members.mapValues f).get? key = (members.get? key).map (f key) := by
  induction members with
  | nil => rfl
  | cons m rest ih =>
    obtain ⟨k, v⟩ := m
    simp only [mapValues, List.map_cons, get?_cons] at ih ⊢
    split
    · subst_vars
      rfl
    · exact ih

theorem mapValues_mapValues (f g : String → Json → Json) (members : Members) :
    (members.mapValues f).mapValues g = members.mapValues fun key value => g key (f key value) := by
  simp [mapValues, Function.comp_def]

theorem keys_mapValues (f : String → Json → Json) (members : Members) :
    (members.mapValues f).keys = members.keys := by
  simp [mapValues, keys, Function.comp_def]

/-- What is left without a key are the members of other keys. -/
theorem erase_eq_filter (members : Members) (key : String) :
    members.erase key = members.filter fun m => m.1 ≠ key := by
  induction members with
  | nil => rfl
  | cons m rest ih =>
    obtain ⟨k, v⟩ := m
    by_cases h : key = k
    · rw [erase, if_pos h, List.filter_cons_of_neg (by simp [h]), ih]
    · rw [erase, if_neg h, List.filter_cons_of_pos (by simpa using Ne.symm h), ih]

end Members

end ApiGateway
