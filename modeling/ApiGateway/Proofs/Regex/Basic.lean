import Mathlib.Algebra.GroupWithZero.Nat
import Mathlib.Data.List.Basic
import Mathlib.Algebra.BigOperators.Group.List.Basic

/-!
# Regular expressions

What the regular expressions of routes match. Anchors look at what stands around a match, so a match
is a part of a text with what stands before and behind it.

## Main definitions

* `Regex`: regular expressions with anchors, repetitions and named groups.
* `Regex.Matches`: a text that is matched between two others.
* `Regex.Accepts`: a text that is matched as a whole.
* `Regex.weight`: how long the shortest match is at most.

## Main results

* `Regex.matches_sequence_append`: a sequence matches part by part.
* `Regex.Matches.exists_short`: a match can be thinned out to one that is no longer than the weight.
-/
namespace ApiGateway

/-- A regular expression. -/
inductive Regex where
  | empty
  | char (c : Char)
  | any
  | oneOf (cs : List Char)
  | noneOf (cs : List Char)
  | start
  | stop
  | seq (first rest : Regex)
  | alt (left right : Regex)
  | optional (r : Regex)
  | star (r : Regex)
  | plus (r : Regex)
  | group (name : Option String) (r : Regex)

namespace Regex

/-- What an expression matches, with what stands before and behind it. The end may be followed by
one line break, and a dot stands for no line break. -/
inductive Matches : Regex → List Char → List Char → List Char → Prop
  | empty {before after : List Char} : Matches .empty before [] after
  | char {before after : List Char} {c : Char} : Matches (.char c) before [c] after
  | any {before after : List Char} {c : Char} (h : c ≠ '\n') : Matches .any before [c] after
  | oneOf {before after cs : List Char} {c : Char} (h : c ∈ cs) :
    Matches (.oneOf cs) before [c] after
  | noneOf {before after cs : List Char} {c : Char} (h : c ∉ cs) :
    Matches (.noneOf cs) before [c] after
  | start {after : List Char} : Matches .start [] [] after
  | stop {before after : List Char} (h : after = [] ∨ after = ['\n']) :
    Matches .stop before [] after
  | seq {r s : Regex} {before text rest after : List Char}
    (hfirst : Matches r before text (rest ++ after))
    (hrest : Matches s (before ++ text) rest after) : Matches (.seq r s) before (text ++ rest) after
  | left {r s : Regex} {before text after : List Char} (h : Matches r before text after) :
    Matches (.alt r s) before text after
  | right {r s : Regex} {before text after : List Char} (h : Matches s before text after) :
    Matches (.alt r s) before text after
  | absent {r : Regex} {before after : List Char} : Matches (.optional r) before [] after
  | present {r : Regex} {before text after : List Char} (h : Matches r before text after) :
    Matches (.optional r) before text after
  | none {r : Regex} {before after : List Char} : Matches (.star r) before [] after
  | more {r : Regex} {before text rest after : List Char}
    (hfirst : Matches r before text (rest ++ after))
    (hrest : Matches (.star r) (before ++ text) rest after) :
    Matches (.star r) before (text ++ rest) after
  | plus {r : Regex} {before text rest after : List Char}
    (hfirst : Matches r before text (rest ++ after))
    (hrest : Matches (.star r) (before ++ text) rest after) :
    Matches (.plus r) before (text ++ rest) after
  | group {name : Option String} {r : Regex} {before text after : List Char}
    (h : Matches r before text after) : Matches (.group name r) before text after

/-- A text that is matched as a whole. -/
def Accepts (r : Regex) (text : List Char) : Prop := r.Matches [] text []

/-- The names of the groups, in order. -/
def names : Regex → List String
  | .seq r s | .alt r s => r.names ++ s.names
  | .optional r | .star r | .plus r => r.names
  | .group name r => name.toList ++ r.names
  | _ => []

/-- Parts in a row. -/
def sequence (parts : List Regex) : Regex := parts.foldr .seq .empty

theorem names_sequence (parts : List Regex) : (sequence parts).names = parts.flatMap names := by
  induction parts with
  | nil => rfl
  | cons r parts ih => simpa [sequence, names] using ih

section Matching
variable {before text after : List Char}

theorem matches_char_iff {c : Char} : (char c).Matches before text after ↔ text = [c] := by
  constructor
  · rintro ⟨⟩
    rfl
  · rintro rfl
    exact .char

theorem matches_group_iff {name : Option String} {r : Regex} :
    (group name r).Matches before text after ↔ r.Matches before text after := by
  constructor
  · rintro ⟨⟩
    assumption
  · exact .group

theorem matches_seq_iff {r s : Regex} : (seq r s).Matches before text after ↔
    ∃ front back, text = front ++ back ∧ r.Matches before front (back ++ after) ∧
      s.Matches (before ++ front) back after := by
  constructor
  · rintro ⟨⟩
    exact ⟨_, _, rfl, ‹_›, ‹_›⟩
  · rintro ⟨front, back, rfl, hfirst, hrest⟩
    exact .seq hfirst hrest

theorem matches_alt_iff {r s : Regex} : (alt r s).Matches before text after ↔
    r.Matches before text after ∨ s.Matches before text after := by
  constructor
  · rintro (⟨⟩ | ⟨⟩)
    · exact Or.inl ‹_›
    · exact Or.inr ‹_›
  · rintro (h | h)
    · exact .left h
    · exact .right h

theorem matches_empty_iff : empty.Matches before text after ↔ text = [] := by
  constructor
  · rintro ⟨⟩
    rfl
  · rintro rfl
    exact .empty

theorem matches_stop_iff :
    stop.Matches before text after ↔ text = [] ∧ (after = [] ∨ after = ['\n']) := by
  constructor
  · rintro ⟨⟩
    exact ⟨rfl, ‹_›⟩
  · rintro ⟨rfl, h⟩
    exact .stop h

theorem matches_sequence_nil : (sequence []).Matches before text after ↔ text = [] :=
  matches_empty_iff

theorem matches_sequence_cons_iff {r : Regex} {parts : List Regex} :
    (sequence (r :: parts)).Matches before text after ↔
      ∃ front back, text = front ++ back ∧ r.Matches before front (back ++ after) ∧
        (sequence parts).Matches (before ++ front) back after :=
  matches_seq_iff

theorem matches_sequence_singleton {r : Regex} :
    (sequence [r]).Matches before text after ↔ r.Matches before text after := by
  simp [matches_sequence_cons_iff, matches_sequence_nil]

/-- A sequence matches part by part. -/
theorem matches_sequence_append {parts others : List Regex} :
    (sequence (parts ++ others)).Matches before text after ↔
      ∃ front back, text = front ++ back ∧ (sequence parts).Matches before front (back ++ after) ∧
        (sequence others).Matches (before ++ front) back after := by
  induction parts generalizing before text with
  | nil => simp [matches_sequence_nil]
  | cons r parts ih =>
    simp only [List.cons_append, matches_sequence_cons_iff, ih]
    constructor
    · rintro ⟨first, _, rfl, hfirst, front, back, rfl, hfront, hback⟩
      exact ⟨first ++ front, back, by simp, ⟨first, front, rfl, by simpa using hfirst, hfront⟩,
        by simpa using hback⟩
    · rintro ⟨_, back, rfl, ⟨first, front, rfl, hfirst, hfront⟩, hback⟩
      exact ⟨first, front ++ back, by simp, by simpa using hfirst, front, back, rfl, hfront,
        by simpa using hback⟩

/-- Characters in a row match themselves. -/
theorem matches_sequence_map_char {cs : List Char} :
    (sequence (cs.map char)).Matches before text after ↔ text = cs := by
  induction cs generalizing before text with
  | nil => exact matches_sequence_nil
  | cons c cs ih => simp [matches_sequence_cons_iff, matches_char_iff, ih]

/-- A repetition of a class matches the texts of characters outside it. -/
theorem matches_star_noneOf_iff {cs : List Char} :
    (star (noneOf cs)).Matches before text after ↔ ∀ c ∈ text, c ∉ cs := by
  constructor
  · intro h
    generalize hr : star (noneOf cs) = r at h
    induction h with
    | none => simp
    | more hfirst hrest _ ih =>
      obtain rfl := star.inj hr
      cases hfirst with
      | noneOf hc => simpa [hc] using ih rfl
    | _ => cases hr
  · intro h
    induction text generalizing before with
    | nil => exact .none
    | cons c rest ih =>
      obtain ⟨hc, hrest⟩ := List.forall_mem_cons.1 h
      have hfirst : (noneOf cs).Matches before [c] (rest ++ after) := .noneOf hc
      exact .more hfirst (ih hrest)

theorem matches_plus_noneOf_iff {cs : List Char} :
    (plus (noneOf cs)).Matches before text after ↔ text ≠ [] ∧ ∀ c ∈ text, c ∉ cs := by
  constructor
  · rintro ⟨⟩
    rename_i hfirst hrest
    cases hfirst with
    | noneOf hc => simpa [hc] using matches_star_noneOf_iff.1 hrest
  · rintro ⟨hne, h⟩
    obtain ⟨c, rest, rfl⟩ := List.exists_cons_of_ne_nil hne
    obtain ⟨hc, hrest⟩ := List.forall_mem_cons.1 h
    have hfirst : (noneOf cs).Matches before [c] (rest ++ after) := .noneOf hc
    exact .plus hfirst (matches_star_noneOf_iff.2 hrest)

end Matching

/-! ## Short matches -/

/-- How many characters a match needs at most: repetitions count once if they have to be there, and
other ones not at all. -/
def weight : Regex → ℕ
  | .char _ | .any | .oneOf _ | .noneOf _ => 1
  | .empty | .start | .stop | .optional _ | .star _ => 0
  | .seq r s | .alt r s => r.weight + s.weight
  | .plus r | .group _ r => r.weight

theorem weight_sequence (parts : List Regex) :
    (sequence parts).weight = (parts.map weight).sum := by
  induction parts with
  | nil => rfl
  | cons r parts ih => simpa [sequence, weight] using ih

/-- A match can be thinned out to one that is no longer than the weight, wherever what stands around
it is thinned out as well. -/
theorem Matches.exists_short {r : Regex} {before text after : List Char}
    (h : r.Matches before text after) :
    ∃ short, short.Sublist text ∧ short.length ≤ r.weight ∧
      ∀ before' after', before'.Sublist before → after'.Sublist after →
        r.Matches before' short after' := by
  induction h with
  | empty => exact ⟨[], .slnil, Nat.zero_le _, fun _ _ _ _ => .empty⟩
  | @char _ _ c => exact ⟨[c], .refl _, Nat.le_refl 1, fun _ _ _ _ => .char⟩
  | @any _ _ c hc => exact ⟨[c], .refl _, Nat.le_refl 1, fun _ _ _ _ => .any hc⟩
  | @oneOf _ _ _ c hc => exact ⟨[c], .refl _, Nat.le_refl 1, fun _ _ _ _ => .oneOf hc⟩
  | @noneOf _ _ _ c hc => exact ⟨[c], .refl _, Nat.le_refl 1, fun _ _ _ _ => .noneOf hc⟩
  | start =>
    refine ⟨[], .slnil, Nat.zero_le _, fun before' after' hbefore _ => ?_⟩
    rw [List.sublist_nil.1 hbefore]
    exact .start
  | stop h =>
    refine ⟨[], .slnil, Nat.zero_le _, fun before' after' _ hafter => .stop ?_⟩
    rcases h with rfl | rfl
    · exact Or.inl (List.sublist_nil.1 hafter)
    · exact List.sublist_singleton.1 hafter
  | @seq r s before text rest after _ _ ihfirst ihrest =>
    obtain ⟨front, hfront, hfrontlen, hfirst⟩ := ihfirst
    obtain ⟨back, hback, hbacklen, hrest⟩ := ihrest
    refine ⟨front ++ back, hfront.append hback, ?_, fun before' after' hbefore hafter => ?_⟩
    · rw [List.length_append]
      exact Nat.add_le_add hfrontlen hbacklen
    · exact .seq (hfirst _ _ hbefore (hback.append hafter))
        (hrest _ _ (hbefore.append hfront) hafter)
  | left _ ih =>
    obtain ⟨short, hshort, hlen, hmatch⟩ := ih
    exact ⟨short, hshort, Nat.le_add_right_of_le hlen, fun _ _ hb ha => .left (hmatch _ _ hb ha)⟩
  | right _ ih =>
    obtain ⟨short, hshort, hlen, hmatch⟩ := ih
    exact ⟨short, hshort, Nat.le_add_left_of_le hlen, fun _ _ hb ha => .right (hmatch _ _ hb ha)⟩
  | absent => exact ⟨[], .slnil, Nat.zero_le _, fun _ _ _ _ => .absent⟩
  | present => exact ⟨[], List.nil_sublist _, Nat.zero_le _, fun _ _ _ _ => .absent⟩
  | none => exact ⟨[], .slnil, Nat.zero_le _, fun _ _ _ _ => .none⟩
  | more => exact ⟨[], List.nil_sublist _, Nat.zero_le _, fun _ _ _ _ => .none⟩
  | @plus r before text rest after _ _ ihfirst _ =>
    -- one round of the repetition is enough
    obtain ⟨front, hfront, hlen, hfirst⟩ := ihfirst
    refine ⟨front, hfront.trans (List.sublist_append_left _ _), hlen,
      fun before' after' hbefore hafter => ?_⟩
    have hround : r.Matches before' front ([] ++ after') :=
      hfirst before' after' hbefore (hafter.trans (List.sublist_append_right _ _))
    simpa using Matches.plus hround .none
  | group _ ih =>
    obtain ⟨short, hshort, hlen, hmatch⟩ := ih
    exact ⟨short, hshort, hlen, fun _ _ hb ha => .group (hmatch _ _ hb ha)⟩

end Regex

end ApiGateway
