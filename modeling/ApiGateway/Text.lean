/-!
# Texts as lists of characters

Reading and replacing pieces of a text.

## Main definitions

* `Text.after?`: what follows a given start.
* `Text.replaceAll`: every occurrence of a pattern replaced, from left to right and without
  overlaps.
* `Text.trim`: a text without the white space at its ends.
-/
namespace ApiGateway.Text

/-- What follows `start`, if the text starts with it. -/
def after? : List Char → List Char → Option (List Char)
  | [], text => some text
  | _ :: _, [] => none
  | s :: start, c :: text => if s = c then after? start text else none

/-- Replaces the occurrences of a pattern that is not empty. The first `skip` characters belong
to an occurrence that has been replaced. -/
def replaceFrom (pattern replacement : List Char) : List Char → Nat → List Char
  | [], _ => []
  | _ :: rest, skip + 1 => replaceFrom pattern replacement rest skip
  | c :: rest, 0 =>
    if (after? pattern (c :: rest)).isSome then
      replacement ++ replaceFrom pattern replacement rest (pattern.length - 1)
    else c :: replaceFrom pattern replacement rest 0

/-- Replaces every occurrence of a pattern that is not empty, from left to right. -/
def replaceAll (pattern replacement text : List Char) : List Char :=
  replaceFrom pattern replacement text 0

/-- Whether a character is white space, in any script. -/
def isWhiteSpace (c : Char) : Bool :=
  let n := c.toNat
  (9 ≤ n && n ≤ 13) || n ∈ [0x20, 0x85, 0xa0, 0x1680, 0x2028, 0x2029, 0x202f, 0x205f, 0x3000] ||
    (0x2000 ≤ n && n ≤ 0x200a)

/-- A text without the white space at its ends. -/
def trim (text : List Char) : List Char :=
  ((text.dropWhile isWhiteSpace).reverse.dropWhile isWhiteSpace).reverse

/-- The start together with what follows it is the text. -/
theorem after?_eq_some_iff {start text rest : List Char} :
    after? start text = some rest ↔ text = start ++ rest := by
  induction start generalizing text with
  | nil => simp [after?]
  | cons s start ih =>
    cases text with
    | nil => simp [after?]
    | cons c text =>
      simp only [after?]
      split
      · subst_vars; simp [ih]
      · simp; intro h; simp_all

@[simp] theorem replaceAll_nil (pattern replacement : List Char) :
    replaceAll pattern replacement [] = [] := rfl

end ApiGateway.Text
