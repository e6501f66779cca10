import ApiGateway.Text
import Mathlib.Data.String.Basic

/-!
# Byte offsets

A text is stored as bytes, one to four for each character. A byte offset is a boundary when it lies
before, between or behind whole characters. A text can be cut there and nowhere else, whatever its
characters are.

## Main definitions

* `Text.offset?`: where a character occurs first.
* `Text.cut?`: the two parts of a text at an offset.

## Main results

* `Text.cut?_eq_some_iff`: the two parts of a cut.
* `Text.cut?_takeWhile`, `Text.cut?_dropWhile`: the cuts around the first occurrence of a character.
* `Text.length_lt_of_cut?`: what follows a cut is shorter.
-/
namespace ApiGateway.Text

open String (utf8Len)

/-- The byte offset of the first occurrence of a character. -/
def offset? (sought : Char) : List Char → Option Nat
  | [] => none
  | c :: text => if c = sought then some 0 else (offset? sought text).map (· + c.utf8Size)

/-- The two parts of a text at a byte offset, unless the offset lies inside a character or behind
the end. -/
def cut? : Nat → List Char → Option (List Char × List Char)
  | 0, text => some ([], text)
  | _ + 1, [] => none
  | offset + 1, c :: text =>
    if c.utf8Size ≤ offset + 1 then
      (cut? (offset + 1 - c.utf8Size) text).map fun (front, back) => (c :: front, back)
    else none

/-- Cutting behind some characters gives these characters. -/
@[simp] theorem cut?_append (front back : List Char) :
    cut? (utf8Len front) (front ++ back) = some (front, back) := by
  induction front with
  | nil => cases back <;> rfl
  | cons c front ih =>
    have hpos := c.utf8Size_pos
    obtain ⟨n, hn⟩ : ∃ n, utf8Len (c :: front) = n + 1 :=
      Nat.exists_eq_succ_of_ne_zero (by rw [String.utf8Len_cons]; omega)
    have hfit : c.utf8Size ≤ n + 1 := by rw [← hn, String.utf8Len_cons]; omega
    have hrest : n + 1 - c.utf8Size = utf8Len front := by rw [← hn, String.utf8Len_cons]; omega
    rw [hn, List.cons_append, cut?, if_pos hfit, hrest, ih]
    rfl

/-- The parts of a cut are characters up to the offset and those that follow. -/
theorem cut?_eq_some_iff {offset : ℕ} {text front back : List Char} :
    cut? offset text = some (front, back) ↔ text = front ++ back ∧ utf8Len front = offset := by
  constructor
  · intro h
    induction text generalizing offset front with
    | nil =>
      cases offset with
      | zero =>
        obtain ⟨rfl, rfl⟩ := Prod.mk.inj (Option.some.inj h)
        exact ⟨rfl, rfl⟩
      | succ offset => cases h
    | cons c text ih =>
      cases offset with
      | zero =>
        obtain ⟨rfl, rfl⟩ := Prod.mk.inj (Option.some.inj h)
        exact ⟨rfl, rfl⟩
      | succ offset =>
        rw [cut?] at h
        split at h
        · obtain ⟨⟨rest, back'⟩, hcut, heq⟩ := Option.map_eq_some_iff.1 h
          obtain ⟨rfl, rfl⟩ := Prod.mk.inj heq
          obtain ⟨rfl, hlen⟩ := ih hcut
          refine ⟨rfl, ?_⟩
          rw [String.utf8Len_cons]
          omega
        · cases h
  · rintro ⟨rfl, rfl⟩
    exact cut?_append front back

example : cut? 1 "é/\x7bid\x7d".toList = none := by decide

/-- What follows a cut behind some bytes is shorter. -/
theorem length_lt_of_cut? {offset : ℕ} {text front back : List Char} (hpos : 0 < offset)
    (h : cut? offset text = some (front, back)) : back.length < text.length := by
  obtain ⟨rfl, rfl⟩ := cut?_eq_some_iff.1 h
  have hfront : front ≠ [] := by
    rintro rfl
    exact Nat.lt_irrefl 0 hpos
  have := List.length_pos_iff.2 hfront
  rw [List.length_append]
  omega

section FirstOccurrence
variable {sought : Char} {text rest : List Char}

/-- A character occurs first behind all characters before it. -/
theorem offset?_eq (sought : Char) (text : List Char) :
    offset? sought text =
      (text.dropWhile (· ≠ sought)).head?.map fun _ => utf8Len (text.takeWhile (· ≠ sought)) := by
  induction text with
  | nil => rfl
  | cons c text ih =>
    rw [offset?]
    split
    · simp_all
    · rename_i hne
      rw [ih, List.dropWhile_cons_of_pos (by simpa using hne),
        List.takeWhile_cons_of_pos (by simpa using hne), Option.map_map]
      rfl

example : offset? '\x7b' "é/\x7bid\x7d".toList = some 3 := by decide

/-- Cutting where a character occurs first gives what stands before it. -/
theorem cut?_takeWhile (sought : Char) (text : List Char) :
    cut? (utf8Len (text.takeWhile (· ≠ sought))) text =
      some (text.takeWhile (· ≠ sought), text.dropWhile (· ≠ sought)) := by
  conv_lhs => arg 2; rw [← List.takeWhile_append_dropWhile (p := (· ≠ sought)) (l := text)]
  exact cut?_append _ _

/-- Cutting one byte behind the first occurrence of a character of one byte gives what follows
it. -/
theorem cut?_dropWhile {c : Char} (hsize : c.utf8Size = 1)
    (h : text.dropWhile (· ≠ sought) = c :: rest) :
    cut? (utf8Len (text.takeWhile (· ≠ sought)) + 1) text =
      some (text.takeWhile (· ≠ sought) ++ [c], rest) := by
  rw [cut?_eq_some_iff]
  constructor
  · rw [List.append_assoc, List.singleton_append, ← h, List.takeWhile_append_dropWhile]
  · rw [String.utf8Len_append, String.utf8Len_cons, hsize]
    rfl

end FirstOccurrence

end ApiGateway.Text
