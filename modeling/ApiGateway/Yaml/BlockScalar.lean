import ApiGateway.Yaml.Cursor

/-!
# Block scalars

Scalars that consist of the indented lines below them. A header says whether line breaks are
kept or folded, how far the lines are indented and what happens to the breaks at the end.

## Main definitions

* `Chomp`, `BlockHeader`: what the header says.
* `blockHeader?`: the reader of the header.
* `blockScalar?`: the reader of the lines.
-/
namespace ApiGateway.Yaml

/-- What happens to the breaks at the end: none is kept, one, or all. -/
inductive Chomp where
  | strip
  | clip
  | keep
  deriving DecidableEq, Inhabited

/-- What the header of a block scalar says. Without an indentation the first line shows it. -/
structure BlockHeader where
  indentation : Option Nat := none
  chomp : Chomp := .clip
  deriving Inhabited

/-- The sign for what happens to the breaks at the end. -/
def chomp? (c : Char) : Option Chomp :=
  if c = '+' then some .keep else if c = '-' then some .strip else none

/-- Reads the signs of a header, which may come in either order. -/
def blockHeader? (here : Cursor) : Option (BlockHeader × Cursor) :=
  let indentation? (here : Cursor) : Option (Option Nat × Cursor) :=
    match here.rest with
    | c :: _ =>
      if c = '0' then none
      else if c.isDigit then some (some (c.toNat - '0'.toNat), here.forward 1)
      else some (none, here)
    | [] => some (none, here)
  let chomping (here : Cursor) : Option Chomp × Cursor :=
    match here.rest.head?.bind chomp? with
    | some chomp => (some chomp, here.forward 1)
    | none => (none, here)
  do
    let (first, here) := chomping here
    let (indentation, here) ← indentation? here
    let (second, here) := if first.isNone && indentation.isSome then chomping here else (none, here)
    some (⟨indentation, (first.or second).getD .clip⟩, here)

/-- Passes the blank lines at the start of a block scalar: its breaks in reverse, the widest
indentation and the place of the first line. Without a known indentation all blanks are
passed. -/
def openingBreaks? (indentation : Option Nat) (mark : Mark) (widest : Nat)
    (reversed : List Char) : List Char → Option (List Char × Nat × Cursor)
  | [] => some (reversed, widest, ⟨mark, []⟩)
  | c :: rest =>
    let indents := indentation.all fun n => mark.column < n
    if c = ' ' ∧ indents then
      openingBreaks? indentation (mark.after c) (max widest (mark.column + 1)) reversed rest
    else if c = '\t' ∧ indents then none
    else if isBreak c then openingBreaks? indentation (mark.after c) widest (c :: reversed) rest
    else some (reversed, widest, ⟨mark, c :: rest⟩)

/-- What stands between two lines: the break of the first line, whether the first line begins
with a blank, and the breaks of blank lines in reverse. -/
structure LineGap where
  first : Option Char
  indented : Bool
  reversed : List Char

/-- The characters between two lines, put on top of a reversed text. When lines are folded, a
break between two lines that begin with a word is dropped, or a blank if it is alone. -/
def LineGap.onto (gap : LineGap) (folded nextIndented : Bool) (text : List Char) : List Char :=
  if folded && gap.first = some '\n' && !gap.indented && !nextIndented then
    if gap.reversed = [] then ' ' :: text else gap.reversed ++ text
  else gap.reversed ++ gap.first.toList ++ text

/-- The text of a block scalar after its last line. -/
def LineGap.close (gap : LineGap) (chomp : Chomp) (text : List Char) : List Char :=
  match chomp with
  | .strip => text
  | .clip => gap.first.toList ++ text
  | .keep => gap.reversed ++ gap.first.toList ++ text

/-- Reads the lines of a block scalar. Inside a line `gap` is `none`, apart from whether the
line begins with a blank. -/
def blockLines? (folded : Bool) (indent : Nat) (chomp : Chomp) (mark : Mark)
    (gap : Option LineGap) (indented : Bool) (text : List Char) :
    List Char → Option (String × Cursor)
  | [] =>
    let text := match gap with
      | some gap => gap.close chomp text
      | none => text
    some (String.ofList text.reverse, ⟨mark, []⟩)
  | c :: rest =>
    match gap with
    | none =>
      if isBreak c then
        blockLines? folded indent chomp (mark.after c) (some ⟨some c, indented, []⟩) indented text
          rest
      else blockLines? folded indent chomp (mark.after c) none indented (c :: text) rest
    | some gap =>
      if mark.column < indent ∧ c = ' ' then
        blockLines? folded indent chomp (mark.after c) (some gap) indented text rest
      else if mark.column < indent ∧ c = '\t' then none
      else if isBreak c then
        blockLines? folded indent chomp (mark.after c)
          (some { gap with reversed := c :: gap.reversed }) indented text rest
      else if mark.column = indent then
        let indented := isBlank c
        blockLines? folded indent chomp (mark.after c) none indented
          (c :: gap.onto folded indented text) rest
      else some (String.ofList (gap.close chomp text).reverse, ⟨mark, c :: rest⟩)

/-- Reads a block scalar after its sign, inside a block that is indented by `outer`. -/
def blockScalar? (folded : Bool) (outer : Int) (here : Cursor) : Option (String × Cursor) := do
  let (header, here) ← blockHeader? here
  let here ← here.lineEnd?
  let known := header.indentation.map fun n => outer.toNat + n
  let (reversed, widest, here) ← openingBreaks? known here.mark 0 [] here.rest
  let indent := known.getD (max widest (max (outer + 1).toNat 1))
  blockLines? folded indent header.chomp here.mark (some ⟨none, false, reversed⟩) false []
    here.rest

end ApiGateway.Yaml
