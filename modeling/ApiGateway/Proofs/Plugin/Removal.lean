import ApiGateway.Proofs.Outcome
import ApiGateway.Proofs.Plugin.Declared

/-!
# Lists without the plugins of a name

Leaving out the plugins of one name commutes with everything that lists of plugins go through:
stamping, taking the plugins of consumers out, sorting. Ordered lists agree but for a name when they
have the same plugin of every other name, and building the list of a scope keeps that, whatever the
scope declares.

## Main definitions

* `Plugin.without`: a list without the plugins of a name.
* `Plugin.AgreeBut`: ordered lists that are the same without the plugins of a name.

## Main results

* `filter_mergeSort`: a stable sort keeps the order of what is left.
* `Plugin.AgreeBut.insert`, `Plugin.carries_build`: what keeps the agreement.
-/
namespace ApiGateway

/-- Lists split by one test are split at one place. -/
theorem append_inj_of_forall {α : Type} {test : α → Bool} {front back front' back' : List α}
    (hfront : ∀ a ∈ front, test a = true) (hback : ∀ a ∈ back, test a = false)
    (hfront' : ∀ a ∈ front', test a = true) (hback' : ∀ a ∈ back', test a = false)
    (h : front ++ back = front' ++ back') : front = front' ∧ back = back' := by
  have hfilter : ∀ {f b : List α}, (∀ a ∈ f, test a = true) → (∀ a ∈ b, test a = false) →
      (f ++ b).filter test = f := by
    intro f b hf hb
    rw [List.filter_append, List.filter_eq_self.2 hf,
      List.filter_eq_nil_iff.2 (by simpa using hb), List.append_nil]
  obtain rfl : front = front' := by
    rw [← hfilter hfront hback, h, hfilter hfront' hback']
  exact ⟨rfl, List.append_cancel_left h⟩

/-- Leaving entries out before a stable sort is leaving them out behind it. -/
theorem filter_mergeSort {α : Type} {le : α → α → Bool}
    (htrans : ∀ a b c, le a b = true → le b c = true → le a c = true)
    (htotal : ∀ a b, (le a b || le b a) = true) (keep : α → Bool) (items : List α) :
    (items.mergeSort le).filter keep = (items.filter keep).mergeSort le := by
  have hbehind : ∀ {items front back : List α} {a : α}, items.mergeSort le = front ++ a :: back →
      ∀ b ∈ back, (!le a b) = false := by
    intro items front back a hsorted b hb
    have hpairs := List.pairwise_mergeSort htrans htotal items
    rw [hsorted] at hpairs
    simpa using (List.pairwise_cons.1 (List.pairwise_append.1 hpairs).2.1).1 b hb
  induction items with
  | nil => simp
  | cons a rest ih =>
    obtain ⟨front, back, hsorted, hrest, hfront⟩ := List.mergeSort_cons htrans htotal a rest
    rw [hsorted, List.filter_append]
    cases hkept : keep a with
    | false =>
      rw [List.filter_cons_of_neg (by simp [hkept]), List.filter_cons_of_neg (by simp [hkept]),
        ← List.filter_append, ← hrest, ih]
    | true =>
      rw [List.filter_cons_of_pos hkept, List.filter_cons_of_pos hkept]
      obtain ⟨front', back', hsorted', hrest', hfront'⟩ :=
        List.mergeSort_cons htrans htotal a (rest.filter keep)
      rw [← ih, hrest, List.filter_append] at hrest'
      -- both lists are split where the entries come that are not before `a`
      obtain ⟨heq, heq'⟩ := append_inj_of_forall
        (fun b hb => hfront b (List.mem_filter.1 hb).1)
        (fun b hb => hbehind hsorted b (List.mem_filter.1 hb).1) hfront' (hbehind hsorted') hrest'
      rw [hsorted', heq, heq']

namespace Plugin

/-- A list without the plugins of a name. -/
def without (n : String) (plugins : List Members) : List Members :=
  plugins.filter fun p => name p ≠ n

section Without
variable (n : String)

theorem without_append (plugins more : List Members) :
    without n (plugins ++ more) = without n plugins ++ without n more :=
  List.filter_append _ _

theorem without_filter (keep : Members → Bool) (plugins : List Members) :
    without n (plugins.filter keep) = (without n plugins).filter keep := by
  simp only [without, List.filter_filter, Bool.and_comm]

/-- Plugins changed under their names are left out as before. -/
theorem without_map {f : Members → Members} (hf : ∀ p, name (f p) = name p)
    (plugins : List Members) : without n (plugins.map f) = (without n plugins).map f := by
  simp only [without, List.filter_map, Function.comp_def, hf]

theorem without_flatMap {α : Type} (f : α → List Members) (items : List α) :
    without n (items.flatMap f) = items.flatMap fun a => without n (f a) :=
  List.filter_flatMap

/-- The plugins of consumers and those that stay are left out alike. -/
theorem without_bubble {field : String} (hfield : "name" ≠ field) (owner : Json)
    (plugins : List Members) :
    without n (bubble field owner plugins).1 = (bubble field owner (without n plugins)).1 ∧
      without n (bubble field owner plugins).2 = (bubble field owner (without n plugins)).2 := by
  simp only [bubble, ← without_filter]
  exact ⟨without_map n (fun p => name_insert_of_ne hfield p owner) _, trivial⟩

/-- The order of the top level is that of what is left. -/
theorem without_sortShared (plugins : List Members) :
    without n (sortShared plugins) = sortShared (without n plugins) := by
  refine filter_mergeSort (fun a b c => ?_) (fun a b => ?_) _ plugins
  · simpa using fun hab hbc => hab.trans hbc
  · simpa using le_total (sortKey a) (sortKey b)

theorem find?_without (plugins : List Members) (sought : String) :
    find? (without n plugins) sought = if sought = n then none else find? plugins sought :=
  find?_filter_ne plugins n sought

end Without

/-- Ordered lists that are the same without the plugins of a name. -/
structure AgreeBut (n : String) (plugins others : List Members) : Prop where
  ordered : Ordered plugins
  ordered' : Ordered others
  without_eq : without n plugins = without n others

namespace AgreeBut
variable {n : String} {plugins others : List Members}

theorem refl (hord : Ordered plugins) : AgreeBut n plugins plugins := ⟨hord, hord, rfl⟩

/-- The plugins of any other name are the same. -/
theorem find?_eq (h : AgreeBut n plugins others) {sought : String} (hne : sought ≠ n) :
    find? plugins sought = find? others sought := by
  have hfind := congrArg (find? · sought) h.without_eq
  simpa only [find?_without, if_neg hne] using hfind

theorem of_find?_eq (hord : Ordered plugins) (hord' : Ordered others)
    (h : ∀ sought ≠ n, find? plugins sought = find? others sought) :
    AgreeBut n plugins others := by
  have hleft : Ordered (without n plugins) := hord.filter _
  have hright : Ordered (without n others) := hord'.filter _
  refine ⟨hord, hord', hleft.ext hright fun sought => ?_⟩
  rw [find?_without, find?_without]
  split
  · rfl
  · rename_i hne
    exact h sought hne

theorem insert (h : AgreeBut n plugins others) (p : Members) :
    AgreeBut n (Plugin.insert plugins p) (Plugin.insert others p) := by
  refine of_find?_eq (h.ordered.insert p) (h.ordered'.insert p) ?_
  intro sought hne
  rw [find?_insert h.ordered, find?_insert h.ordered', h.find?_eq hne]

/-- A plugin of the name may come into one of the lists. -/
theorem insert_left (h : AgreeBut n plugins others) {p : Members} (hp : name p = n) :
    AgreeBut n (Plugin.insert plugins p) others := by
  refine of_find?_eq (h.ordered.insert p) h.ordered' ?_
  intro sought hne
  rw [find?_insert h.ordered, if_neg (hp ▸ hne), h.find?_eq hne]

/-- The validator taken out of such lists is the same, and so is what is left but for the name. -/
theorem extractValidator (h : AgreeBut n plugins others) (hn : validatorName ≠ n)
    (fallback : Option Members) :
    (extractValidator plugins fallback).1 = (Plugin.extractValidator others fallback).1 ∧
      AgreeBut n (Plugin.extractValidator plugins fallback).2
        (Plugin.extractValidator others fallback).2 := by
  refine ⟨?_, of_find?_eq (h.ordered.extractValidator _) (h.ordered'.extractValidator _) ?_⟩
  · rw [fst_extractValidator, fst_extractValidator, h.find?_eq hn]
  · intro sought hne
    rw [find?_extractValidator, find?_extractValidator, h.find?_eq hne]

end AgreeBut

/-- Whether the list of a scope can be built does not depend on what it inherits. -/
theorem map_build_inherited (doc : Document) (stamp : Stamp) (base : String) (object : Members)
    (inherited inherited' : List Members) :
    ((build doc stamp base object inherited).map fun _ => ()) =
      (build doc stamp base object inherited').map fun _ => () := by
  refine map_foldlM_congr rfl ?_
  rintro plugins plugins' ⟨key, n⟩ -
  refine map_bind_congr_right _ fun found => ?_
  cases found <;> rfl

/-- Scopes that inherit the same but for a name have the same lists but for that name. -/
theorem carries_build {n : String} {inherited inherited' : List Members}
    (h : AgreeBut n inherited inherited') (doc : Document) (stamp : Stamp) (base : String)
    (object : Members) :
    Carries (AgreeBut n) (build doc stamp base object inherited)
      (build doc stamp base object inherited') := by
  intro plugins hplugins
  have houtcome := map_build_inherited doc stamp base object inherited inherited'
  rw [hplugins, map_ok] at houtcome
  obtain ⟨plugins', hplugins', -⟩ := map_eq_ok_iff.1 houtcome.symm
  obtain ⟨hord, hfind⟩ := build_spec h.ordered.nodup_names hplugins
  obtain ⟨hord', hfind'⟩ := build_spec h.ordered'.nodup_names hplugins'
  refine ⟨plugins', hplugins', AgreeBut.of_find?_eq hord hord' ?_⟩
  intro sought hne
  rw [hfind, hfind', h.find?_eq hne]

end Plugin

end ApiGateway
