import ApiGateway.Number.Hexadecimal
import ApiGateway.Yaml.Cursor

/-!
# Plain and quoted scalars

Scalars whose text runs on over line breaks. A single break between two words counts as a
blank, further breaks stay; blanks next to a break are dropped. A plain scalar ends where an
indicator begins, a quoted one at its quote.

## Main definitions

* `Gap`: blanks and breaks that stand between two words of a scalar.
* `plainScalar?`, `singleQuoted?`, `doubleQuoted?`: the readers of the three styles.
-/
namespace ApiGateway.Yaml

/-- What stands between two words of a scalar: blanks of one line, or breaks. Blanks and further
breaks are kept in reverse; a break that is escaped is no first break. -/
inductive Gap where
  | blanks (reversed : List Char)
  | breaks (first : Option Char) (reversed : List Char)
  deriving Inhabited

namespace Gap

/-- No gap. -/
def empty : Gap := .blanks []

/-- Whether there is nothing in the gap. -/
def isEmpty : Gap → Bool
  | .blanks [] => true
  | _ => false

/-- Whether the gap holds a break. -/
def isBroken : Gap → Bool
  | .blanks _ => false
  | .breaks _ _ => true

/-- One more blank. After a break it does not count. -/
def addBlank (gap : Gap) (c : Char) : Gap :=
  match gap with
  | .blanks reversed => .blanks (c :: reversed)
  | broken => broken

/-- One more break. Blanks before it do not count. -/
def addBreak (gap : Gap) (c : Char) : Gap :=
  match gap with
  | .blanks _ => .breaks (some c) []
  | .breaks first reversed => .breaks first (c :: reversed)

/-- The characters the gap stands for, put on top of a reversed text. -/
def onto (gap : Gap) (text : List Char) : List Char :=
  match gap with
  | .blanks reversed => reversed ++ text
  | .breaks (some '\n') [] => ' ' :: text
  | .breaks (some '\n') reversed => reversed ++ text
  | .breaks first reversed => reversed ++ first.toList ++ text

end Gap

/-- Whether a line that begins with this text opens or closes a document. -/
def isDocumentMark : List Char → Bool
  | '-' :: '-' :: '-' :: rest => endsWord rest
  | '.' :: '.' :: '.' :: rest => endsWord rest
  | _ => false

/-- The text of a scalar and the place after it. -/
abbrev ScalarText := String × Cursor

/-- The end of a scalar. -/
def scalarText (reversed : List Char) (mark : Mark) (rest : List Char) : ScalarText :=
  (String.ofList reversed.reverse, ⟨mark, rest⟩)

/-- Reads a text between single quotes, after the first. A quote inside is written twice. -/
def singleQuoted? (mark : Mark) (gap : Gap) (reversed : List Char) :
    List Char → Option ScalarText
  | [] => none
  | '\x27' :: '\x27' :: rest =>
    singleQuoted? (mark.forward 2) .empty ('\x27' :: gap.onto reversed) rest
  | c :: rest =>
    if mark.column = 0 ∧ isDocumentMark (c :: rest) then none
    else if isBreak c then singleQuoted? (mark.after c) (gap.addBreak c) reversed rest
    else if isBlank c then singleQuoted? (mark.after c) (gap.addBlank c) reversed rest
    else if c = '\x27' then some (scalarText (gap.onto reversed) (mark.after c) rest)
    else singleQuoted? (mark.after c) .empty (c :: gap.onto reversed) rest

/-- What an escape of one letter stands for. -/
def escaped? (c : Char) : Option Char :=
  if c = '0' then some '\x00'
  else if c = 'a' then some '\x07'
  else if c = 'b' then some '\x08'
  else if c = 't' ∨ c = '\t' then some '\t'
  else if c = 'n' then some '\n'
  else if c = 'v' then some '\x0b'
  else if c = 'f' then some '\x0c'
  else if c = 'r' then some '\r'
  else if c = 'e' then some '\x1b'
  else if c = ' ' ∨ c = '\x22' ∨ c = '/' ∨ c = '\\' then some c
  else if c = 'N' then some '\u0085'
  else if c = '_' then some '\u00a0'
  else if c = 'L' then some '\u2028'
  else if c = 'P' then some '\u2029'
  else none

/-- The number of hexadecimal digits after the letter of an escape. -/
def escapeDigits? (c : Char) : Option Nat :=
  if c = 'x' then some 2 else if c = 'u' then some 4 else if c = 'U' then some 8 else none

/-- The character of a number, unless it is half of a pair or too large. -/
def character? (n : Nat) : Option Char := if n.isValidChar then some (Char.ofNat n) else none

/-- Reads a text between double quotes, after the first. `code` is the value so far and the
number of missing digits of an escape that is being read. -/
def doubleQuoted? (mark : Mark) (gap : Gap) (code : Option (Nat × Nat)) (reversed : List Char) :
    List Char → Option ScalarText
  | [] => none
  | c :: rest =>
    match code with
    | some (value, missing) => do
      let value := 16 * value + (← Hexadecimal.digitValue? c)
      if missing ≤ 1 then
        doubleQuoted? (mark.after c) .empty none ((← character? value) :: reversed) rest
      else doubleQuoted? (mark.after c) .empty (some (value, missing - 1)) reversed rest
    | none =>
      if mark.column = 0 ∧ isDocumentMark (c :: rest) then none
      else if isBreak c then doubleQuoted? (mark.after c) (gap.addBreak c) none reversed rest
      else if isBlank c then doubleQuoted? (mark.after c) (gap.addBlank c) none reversed rest
      else if c = '\x22' then some (scalarText (gap.onto reversed) (mark.after c) rest)
      else if c = '\\' then
        match rest with
        | [] => none
        | e :: rest =>
          let reversed := gap.onto reversed
          let mark := (mark.after c).after e
          if isBreak e then doubleQuoted? mark (.breaks none []) none reversed rest
          else
            match escapeDigits? e with
            | some digits => doubleQuoted? mark .empty (some (0, digits)) reversed rest
            | none => do doubleQuoted? mark .empty none ((← escaped? e) :: reversed) rest
      else doubleQuoted? (mark.after c) .empty none (c :: gap.onto reversed) rest

/-- Whether a plain scalar may not go on with this text: a mark of a value, or a mark of a
collection in brackets. -/
def endsPlain (bracketed : Bool) : List Char → Bool
  | [] => true
  | c :: rest =>
    (c = ':' && endsWord rest) || (bracketed && c ∈ [',', '[', ']', '\x7b', '\x7d'])

/-- Whether a colon stands right before a mark of a collection in brackets. -/
def isStrayColon : List Char → Bool
  | ':' :: c :: _ => c ∈ [',', '?', '[', ']', '\x7b', '\x7d']
  | _ => false

/-- Reads a plain scalar, which in a block goes on only in lines indented by `indent`. Tells
also whether it ends after a break. -/
def plainScalar? (bracketed : Bool) (indent : Nat) (mark : Mark) (gap : Gap)
    (reversed : List Char) : List Char → Option (ScalarText × Bool)
  | [] => some (scalarText reversed mark [], gap.isBroken)
  | c :: rest =>
    if isBreak c then
      plainScalar? bracketed indent (mark.after c) (gap.addBreak c) reversed rest
    else if isBlank c then
      if gap.isBroken ∧ mark.column < indent ∧ c = '\t' then none
      else plainScalar? bracketed indent (mark.after c) (gap.addBlank c) reversed rest
    else if !gap.isEmpty && ((!bracketed && mark.column < indent) || c = '#' ||
        (mark.column = 0 && isDocumentMark (c :: rest))) then
      some (scalarText reversed mark (c :: rest), gap.isBroken)
    else if bracketed && isStrayColon (c :: rest) then none
    else if endsPlain bracketed (c :: rest) then
      some (scalarText reversed mark (c :: rest), gap.isBroken)
    else plainScalar? bracketed indent (mark.after c) .empty (c :: gap.onto reversed) rest

end ApiGateway.Yaml
