import ApiGateway.Text
import Mathlib.Data.List.Infix

/-!
# Replacing a pattern

A replacement goes through a text from left to right: where the pattern stands it is replaced and
skipped, and every other character is kept. It changes nothing exactly when there is nothing to
change. A pattern that begins with a character it has nowhere else cannot overlap itself, so that
texts joined by such a pattern are replaced one by one.

## Main results

* `Text.replace_induction`: the cases of a replacement.
* `Text.replaceAll_eq_self_iff`: when nothing changes.
* `Text.replaceAll_intercalate_eq_iff`: when nothing changes between given occurrences.
-/
namespace ApiGateway.Text

variable {pattern replacement text rest : List Char} {c : Char}

theorem isSome_after?_iff : (after? pattern text).isSome = true ↔ pattern <+: text := by
  rw [Option.isSome_iff_exists]
  exact exists_congr fun rest => after?_eq_some_iff.trans eq_comm

/-- What is skipped is gone. -/
theorem replaceFrom_eq (pattern replacement text : List Char) (skip : ℕ) :
    replaceFrom pattern replacement text skip =
      replaceAll pattern replacement (text.drop skip) := by
  induction text generalizing skip with
  | nil => cases skip <;> rfl
  | cons c text ih =>
    cases skip with
    | zero => rfl
    | succ skip => exact ih skip

theorem replaceAll_append_left (hne : pattern ≠ []) (rest : List Char) :
    replaceAll pattern replacement (pattern ++ rest) =
      replacement ++ replaceAll pattern replacement rest := by
  cases pattern with
  | nil => exact absurd rfl hne
  | cons c tail =>
    have hfound : (after? (c :: tail) (c :: (tail ++ rest))).isSome = true :=
      isSome_after?_iff.2 ⟨rest, rfl⟩
    rw [List.cons_append, replaceAll, replaceFrom, if_pos hfound, replaceFrom_eq]
    simp

theorem replaceAll_cons (h : ¬ pattern <+: c :: rest) :
    replaceAll pattern replacement (c :: rest) = c :: replaceAll pattern replacement rest := by
  rw [replaceAll, replaceFrom, if_neg (mt isSome_after?_iff.1 h), replaceAll]

/-- Texts by what a replacement does at their front: a pattern is skipped, and so is a character
where no pattern stands. -/
@[elab_as_elim]
theorem replace_induction {motive : List Char → Prop} (hne : pattern ≠ []) (nil : motive [])
    (found : ∀ rest, motive rest → motive (pattern ++ rest))
    (other : ∀ c rest, ¬ pattern <+: c :: rest → motive rest → motive (c :: rest))
    (text : List Char) : motive text := by
  induction hn : text.length using Nat.strong_induction_on generalizing text with
  | _ n ih =>
    cases text with
    | nil => exact nil
    | cons c text =>
      by_cases hprefix : pattern <+: c :: text
      · obtain ⟨rest, hrest⟩ := hprefix
        have hlength := congrArg List.length hrest
        have hpos := List.length_pos_of_ne_nil hne
        rw [List.length_append, hn] at hlength
        rw [← hrest]
        exact found rest (ih rest.length (by omega) rest rfl)
      · exact other c text hprefix (ih text.length (by rw [← hn]; simp) text rfl)

/-- A text without the pattern stays. -/
theorem replaceAll_of_not_infix (h : ¬ pattern <:+: text) :
    replaceAll pattern replacement text = text := by
  induction text with
  | nil => rfl
  | cons c text ih =>
    rw [List.infix_cons_iff, not_or] at h
    rw [replaceAll_cons h.1, ih h.2]

theorem replaceAll_self (hne : pattern ≠ []) (text : List Char) :
    replaceAll pattern pattern text = text := by
  induction text using replace_induction hne with
  | nil => rfl
  | found rest ih => rw [replaceAll_append_left hne, ih]
  | other c rest h ih => rw [replaceAll_cons h, ih]

/-- A replacement changes the length by the same amount for each occurrence it finds. -/
theorem exists_length_replaceAll (hne : pattern ≠ []) (replacement text : List Char) :
    ∃ found, (replaceAll pattern replacement text).length + found * pattern.length =
      text.length + found * replacement.length := by
  induction text using replace_induction hne with
  | nil => exact ⟨0, by rw [Nat.zero_mul, Nat.zero_mul]; rfl⟩
  | found rest ih =>
    obtain ⟨found, hfound⟩ := ih
    refine ⟨found + 1, ?_⟩
    rw [replaceAll_append_left hne, List.length_append, List.length_append, Nat.add_mul,
      Nat.add_mul]
    omega
  | other c rest h ih =>
    obtain ⟨found, hfound⟩ := ih
    refine ⟨found, ?_⟩
    rw [replaceAll_cons h, List.length_cons, List.length_cons]
    omega

theorem length_replaceAll_le (hne : pattern ≠ []) (h : replacement.length ≤ pattern.length)
    (text : List Char) : (replaceAll pattern replacement text).length ≤ text.length := by
  obtain ⟨found, hfound⟩ := exists_length_replaceAll hne replacement text
  have hle := Nat.mul_le_mul_left found h
  omega

theorem le_length_replaceAll (hne : pattern ≠ []) (h : pattern.length ≤ replacement.length)
    (text : List Char) : text.length ≤ (replaceAll pattern replacement text).length := by
  obtain ⟨found, hfound⟩ := exists_length_replaceAll hne replacement text
  have hle := Nat.mul_le_mul_left found h
  omega

/-- A replacement changes nothing when it puts the pattern in the place of the pattern, or finds
none. Otherwise what it puts in first is longer or shorter than the pattern, and no later
replacement makes up for that, or it is another text of that length. -/
theorem replaceAll_eq_self_iff (hne : pattern ≠ []) :
    replaceAll pattern replacement text = text ↔ replacement = pattern ∨ ¬ pattern <:+: text := by
  constructor
  · intro h
    by_contra hcond
    obtain ⟨hdiff, hinfix⟩ := not_or.1 hcond
    rw [not_not] at hinfix
    clear hcond
    induction text using replace_induction hne with
    | nil => exact hne (List.infix_nil.1 hinfix)
    | found rest ih =>
      rw [replaceAll_append_left hne] at h
      have hlength := congrArg List.length h
      rw [List.length_append, List.length_append] at hlength
      have hsame : replacement.length = pattern.length := by
        rcases Nat.le_total replacement.length pattern.length with hle | hle
        · have hrest := length_replaceAll_le hne hle rest
          omega
        · have hrest := le_length_replaceAll hne hle rest
          omega
      exact hdiff (List.append_inj h hsame).1
    | other c rest hprefix ih =>
      rw [replaceAll_cons hprefix] at h
      exact ih (List.cons.inj h).2 ((List.infix_cons_iff.1 hinfix).resolve_left hprefix)
  · rintro (rfl | h)
    · exact replaceAll_self hne text
    · exact replaceAll_of_not_infix h

/-- What starts with a character is not found in text without it. -/
theorem infix_of_infix_append {front : List Char} (hc : c ∉ front)
    (h : c :: text <:+: front ++ rest) : c :: text <:+: rest := by
  induction front with
  | nil => exact h
  | cons d front ih =>
    rw [List.mem_cons, not_or] at hc
    rw [List.cons_append, List.infix_cons_iff] at h
    rcases h with h | h
    · exact absurd (List.cons_prefix_cons.1 h).1 hc.1
    · exact ih hc.2 h

/-! ## Texts joined by the pattern -/

section Joined
variable {tail front back : List Char}

/-- A pattern whose first character it has nowhere else does not begin in a text and end in an
occurrence behind it. -/
theorem prefix_of_prefix_append (hc : c ∉ tail) (hne : front ≠ [])
    (h : c :: tail <+: front ++ (c :: tail ++ back)) : c :: tail <+: front := by
  by_cases hlength : (c :: tail).length ≤ front.length
  · exact (List.isPrefix_append_of_length hlength).1 h
  · obtain ⟨behind, hbehind⟩ : front <+: c :: tail :=
      List.prefix_of_prefix_length_le (List.prefix_append _ _) h (by omega)
    have hinside : behind <+: c :: tail ++ back := by
      rwa [← hbehind, List.append_assoc, List.prefix_append_right_inj, ← List.append_assoc,
        hbehind] at h
    -- the occurrence ends behind the text, so it has the first character of the next one
    cases front with
    | nil => exact absurd rfl hne
    | cons d front =>
      cases behind with
      | nil =>
        rw [List.append_nil] at hbehind
        exact absurd (hbehind ▸ le_rfl) hlength
      | cons e behind =>
        obtain ⟨rfl, -⟩ := List.cons_prefix_cons.1 hinside
        obtain ⟨rfl, rfl⟩ := List.cons.inj hbehind
        exact absurd (by simp) hc

theorem replaceAll_append (hc : c ∉ tail) (front back : List Char) :
    replaceAll (c :: tail) replacement (front ++ (c :: tail ++ back)) =
      replaceAll (c :: tail) replacement front ++
        (replacement ++ replaceAll (c :: tail) replacement back) := by
  have hne : c :: tail ≠ [] := List.cons_ne_nil c tail
  induction front using replace_induction hne with
  | nil => exact replaceAll_append_left hne back
  | found rest ih =>
    rw [List.append_assoc, replaceAll_append_left hne, ih, replaceAll_append_left hne,
      List.append_assoc]
  | other d rest hprefix ih =>
    have hjoined : ¬ c :: tail <+: d :: rest ++ (c :: tail ++ back) :=
      mt (prefix_of_prefix_append hc (List.cons_ne_nil d rest)) hprefix
    rw [replaceAll_cons hprefix]
    exact (replaceAll_cons hjoined).trans (congrArg (d :: ·) ih)

/-- Texts joined by the pattern are replaced one by one, and joined by what is put in. -/
theorem replaceAll_intercalate (hc : c ∉ tail) (parts : List (List Char)) :
    replaceAll (c :: tail) replacement ((c :: tail).intercalate parts) =
      replacement.intercalate (parts.map (replaceAll (c :: tail) replacement)) := by
  induction parts with
  | nil => rfl
  | cons part parts ih =>
    cases parts with
    | nil => simp
    | cons next parts =>
      rw [List.intercalate_cons_cons, List.append_assoc, replaceAll_append hc, ih]
      simp only [List.map_cons, List.intercalate_cons_cons, List.append_assoc]

end Joined

section Lengths
variable {f g : List Char → List Char} {sep : List Char} {parts : List (List Char)}

theorem length_intercalate_le (h : ∀ part ∈ parts, (f part).length ≤ (g part).length) :
    (sep.intercalate (parts.map f)).length ≤ (sep.intercalate (parts.map g)).length := by
  induction parts with
  | nil => simp
  | cons part parts ih =>
    have hpart := h part List.mem_cons_self
    have hrest := ih fun other hother => h other (List.mem_cons_of_mem _ hother)
    cases parts with
    | nil => simpa using hpart
    | cons next parts =>
      simp only [List.map_cons, List.intercalate_cons_cons, List.length_append] at hrest ⊢
      omega

/-- Parts none of which gets longer are the same when they are joined to the same text. -/
theorem eq_of_intercalate_eq (h : ∀ part ∈ parts, (f part).length ≤ (g part).length)
    (heq : sep.intercalate (parts.map f) = sep.intercalate (parts.map g)) :
    ∀ part ∈ parts, f part = g part := by
  induction parts with
  | nil => simp
  | cons part parts ih =>
    have hpart := h part List.mem_cons_self
    have hrest : ∀ other ∈ parts, (f other).length ≤ (g other).length :=
      fun other hother => h other (List.mem_cons_of_mem _ hother)
    cases parts with
    | nil => simpa using heq
    | cons next parts =>
      have hlengths : (sep.intercalate ((next :: parts).map f)).length ≤
          (sep.intercalate ((next :: parts).map g)).length := length_intercalate_le hrest
      simp only [List.map_cons, List.intercalate_cons_cons, List.append_assoc] at heq
      have htotal := congrArg List.length heq
      simp only [List.length_append, List.map_cons] at htotal hlengths
      obtain ⟨hsame, hbehind⟩ := List.append_inj heq (by omega)
      have hparts := ih hrest (List.append_cancel_left hbehind)
      intro other hother
      rcases List.mem_cons.1 hother with rfl | hother
      · exact hsame
      · exact hparts other hother

end Lengths

/-- Nothing changes between given occurrences of the pattern when it is put in its own place, or is
not found anywhere between them. -/
theorem replaceAll_intercalate_eq_iff {tail : List Char} (hc : c ∉ tail)
    (parts : List (List Char)) :
    replaceAll (c :: tail) replacement ((c :: tail).intercalate parts) =
        replacement.intercalate parts ↔
      replacement = c :: tail ∨ ∀ part ∈ parts, ¬ c :: tail <:+: part := by
  have hne : c :: tail ≠ [] := List.cons_ne_nil c tail
  rw [replaceAll_intercalate hc]
  constructor
  · intro h
    have hkept : ∀ part ∈ parts, replaceAll (c :: tail) replacement part = part := by
      have heq : replacement.intercalate (parts.map (replaceAll (c :: tail) replacement)) =
          replacement.intercalate (parts.map id) := by rw [h, List.map_id]
      rcases Nat.le_total replacement.length (c :: tail).length with hle | hle
      · exact eq_of_intercalate_eq (fun part _ => length_replaceAll_le hne hle part) heq
      · intro part hpart
        exact (eq_of_intercalate_eq (fun part _ => le_length_replaceAll hne hle part) heq.symm part
          hpart).symm
    by_cases hself : replacement = c :: tail
    · exact Or.inl hself
    · exact Or.inr fun part hpart =>
        ((replaceAll_eq_self_iff hne).1 (hkept part hpart)).resolve_left hself
  · intro h
    congr 1
    refine (List.map_congr_left fun part hpart => ?_).trans (List.map_id parts)
    exact (replaceAll_eq_self_iff hne).2 (h.imp_right fun h => h part hpart)

end ApiGateway.Text
