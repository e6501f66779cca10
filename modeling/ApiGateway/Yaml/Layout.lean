import ApiGateway.Number.Numeral
import ApiGateway.Yaml.BlockScalar
import ApiGateway.Yaml.LineScalar
import ApiGateway.Yaml.Token

/-!
# From text to tokens

Cuts a text into tokens and turns its indentation into tokens. A block opens where an entry or
a key stands further right than the block around it, and closes where a line starts further
left. A key without a mark is known only by the colon after it: the place of what may be one
is remembered, and the token `key` is put there once the colon comes. Such a key stands in one
line and has at most 1024 characters.

## Main definitions

* `Layout`: the state between two tokens.
* `Layout.fetch?`: reads the next token.
* `tokens?`: all tokens of a text.
-/
namespace ApiGateway.Yaml

/-- The place of what may be a key: the number of tokens before it, and whether only a key can
stand there. -/
structure PossibleKey where
  needed : Bool
  number : Nat
  mark : Mark

/-- The state between two tokens. Outside all blocks the indentation is -1; `outer` holds the
indentations of the blocks around the innermost. Inside brackets indentation does not count;
there is a possible key for each level of brackets. The tokens are kept in reverse. -/
structure Layout where
  here : Cursor
  indent : Int := -1
  outer : List Int := []
  keyAllowed : Bool := true
  possible : Option PossibleKey := none
  outerPossible : List (Option PossibleKey) := []
  reversed : List Token := []
  count : Nat := 0

namespace Layout

/-- Whether the place is inside brackets. -/
def bracketed (s : Layout) : Bool := !s.outerPossible.isEmpty

/-- One more token at the end. -/
def emit (s : Layout) (token : Token) : Layout :=
  { s with reversed := token :: s.reversed, count := s.count + 1 }

/-- One more token before all but the first `number` tokens. -/
def emitAt (s : Layout) (number : Nat) (token : Token) : Layout :=
  let later := s.count - number
  { s with
    reversed := s.reversed.take later ++ token :: s.reversed.drop later
    count := s.count + 1 }

/-- Passes `n` characters of the line. -/
def forward (s : Layout) (n : Nat) : Layout := { s with here := s.here.forward n }

/-- The blocks left when all that are indented further than `column` are closed, and the number
of closed ones. -/
def blocksUpTo (column indent : Int) : List Int → Int × List Int × Nat
  | [] => (indent, [], 0)
  | next :: rest =>
    if column < indent then
      let (indent, outer, closed) := blocksUpTo column next rest
      (indent, outer, closed + 1)
    else (indent, next :: rest, 0)

/-- Closes the blocks that are indented further than `column`. -/
def closeBlocks (s : Layout) (column : Int) : Layout :=
  if s.bracketed then s
  else
    let (indent, outer, closed) := blocksUpTo column s.indent s.outer
    { s with
      indent := indent
      outer := outer
      reversed := List.replicate closed .blockEnd ++ s.reversed
      count := s.count + closed }

/-- Opens a block at `column` if it stands further right than the block around it. Its first
token has number `number`. -/
def openBlock (s : Layout) (column : Nat) (number : Nat) (token : Token) : Layout :=
  if s.bracketed ∨ (column : Int) ≤ s.indent then s
  else { s.emitAt number token with indent := column, outer := s.indent :: s.outer }

/-- Gives up the possible key, unless only a key can stand there. -/
def dropKey? (s : Layout) : Option Layout :=
  if s.possible.any PossibleKey.needed then none else some { s with possible := none }

/-- Remembers the place of the next token as a possible key, where one is allowed. -/
def markKey? (s : Layout) : Option Layout :=
  if s.keyAllowed then do
    let s ← s.dropKey?
    let needed := !s.bracketed && s.indent = s.here.mark.column
    some { s with possible := some ⟨needed, s.count, s.here.mark⟩ }
  else some s

/-- The possible key, if the place is still near enough to it. -/
def keyInReach? (s : Layout) : Option PossibleKey :=
  s.possible.filter fun k =>
    k.mark.line = s.here.mark.line ∧ s.here.mark.index ≤ k.mark.index + 1024

/-- Passes blanks, comments and breaks. After a break a key is allowed. Tabs may not stand where
a key is allowed, for they cannot indent. A line may open with a byte order mark, which is passed
but takes up a column. -/
def blankSpace (bracketed keyAllowed comment : Bool) (mark : Mark) :
    List Char → Bool × Cursor
  | [] => (keyAllowed, ⟨mark, []⟩)
  | c :: rest =>
    if isBreak c then blankSpace bracketed (keyAllowed || !bracketed) false (mark.after c) rest
    else if mark.column = 0 ∧ c = byteOrderMark then
      blankSpace bracketed keyAllowed comment (mark.after c) rest
    else if comment ∨ c = ' ' ∨ (c = '\t' ∧ (bracketed ∨ !keyAllowed)) then
      blankSpace bracketed keyAllowed comment (mark.after c) rest
    else if c = '#' then blankSpace bracketed keyAllowed true (mark.after c) rest
    else (keyAllowed, ⟨mark, c :: rest⟩)

/-- Passes to the next token and closes the blocks that end before it. -/
def settle (s : Layout) : Layout :=
  let (keyAllowed, here) := blankSpace s.bracketed s.keyAllowed false s.here.mark s.here.rest
  closeBlocks { s with keyAllowed := keyAllowed, here := here } here.mark.column

/-- A directive, or a mark that opens or closes a document: it closes every block. -/
def outside? (s : Layout) (token : Token) (here : Cursor) : Option Layout := do
  let s ← (s.closeBlocks (-1)).dropKey?
  some { s.emit token with keyAllowed := false, here := here }

/-- Reads a directive after its sign. -/
def directive? (here : Cursor) : Option (Directive × Cursor) := do
  let name := here.rest.takeWhile isNameChar
  let here := here.forward name.length
  if name = [] ∨ !endsWord here.rest then none
  else if name = "YAML".toList then
    let here := here.skipWhile isBlank
    let major := here.rest.takeWhile Char.isDigit
    let here := here.forward major.length
    let minor := (here.rest.drop 1).takeWhile Char.isDigit
    if here.rest.head? ≠ some '.' ∨ major = [] ∨ minor = [] ∨ 9 < major.length ∨
        9 < minor.length then none
    else
      let here ← (here.forward (minor.length + 1)).lineEnd?
      some (.version (Numeral.ofDigits major) (Numeral.ofDigits minor), here)
  else if name = "TAG".toList then
    let here := here.skipWhile isBlank
    let (handle, here) ←
      match handle? here, here.rest with
      | some found, _ => some found
      | none, '!' :: c :: _ => if isNameChar c then none else some (['!'], here.forward 1)
      | none, _ => none
    if !here.rest.head?.any isBlank then none
    else
      let (expansion, here) ← someTagChars? true (here.skipWhile isBlank)
      if !endsWord here.rest then none
      else some (.handle handle expansion, ← here.lineEnd?)
  else none

/-- Opens a collection in brackets. -/
def openBracket? (s : Layout) (token : Token) : Option Layout := do
  let s ← s.markKey?
  some { (s.emit token).forward 1 with
    possible := none, outerPossible := s.possible :: s.outerPossible, keyAllowed := true }

/-- Closes a collection in brackets. -/
def closeBracket? (s : Layout) (token : Token) : Option Layout := do
  let s ← s.dropKey?
  let s := { (s.emit token).forward 1 with keyAllowed := false }
  match s.outerPossible with
  | possible :: outer => some { s with possible := possible, outerPossible := outer }
  | [] => some s

/-- A comma between entries. -/
def comma? (s : Layout) : Option Layout := do
  let s ← s.dropKey?
  some { (s.emit .comma).forward 1 with keyAllowed := true }

/-- The mark of an entry of a block. -/
def entry? (s : Layout) : Option Layout := do
  if !s.bracketed && !s.keyAllowed then none
  else
    let s ← (s.openBlock s.here.mark.column s.count .blockSequence).dropKey?
    some { (s.emit .entry).forward 1 with keyAllowed := true }

/-- The mark of a key. -/
def key? (s : Layout) : Option Layout := do
  if !s.bracketed && !s.keyAllowed then none
  else
    let s ← (s.openBlock s.here.mark.column s.count .blockMapping).dropKey?
    some { (s.emit .key).forward 1 with keyAllowed := !s.bracketed }

/-- The mark of a value. What was a possible key until now is its key. -/
def value? (s : Layout) : Option Layout :=
  match s.keyInReach? with
  | some k =>
    let s := (s.emitAt k.number .key).openBlock k.mark.column k.number .blockMapping
    some { (s.emit .value).forward 1 with possible := none, keyAllowed := false }
  | none => do
    let s ← s.dropKey?
    if !s.bracketed && !s.keyAllowed then none
    else
      let s := s.openBlock s.here.mark.column s.count .blockMapping
      some { (s.emit .value).forward 1 with keyAllowed := !s.bracketed }

/-- The name of an anchor or an alias after its sign, and what has to follow it. -/
def name? (here : Cursor) : Option (List Char × Cursor) :=
  let name := here.rest.takeWhile isNameChar
  let here := here.forward name.length
  let ends := endsWord here.rest || here.rest.head?.any (· ∈ "?:,]\x7d%@\x60".toList)
  if name ≠ [] ∧ ends then some (name, here) else none

/-- Adds a token that may start a key. -/
def inline? (s : Layout) (read : Cursor → Option (Token × Cursor)) : Option Layout := do
  let s ← s.markKey?
  let (token, here) ← read s.here
  some { s.emit token with keyAllowed := false, here := here }

/-- A plain scalar. A key is allowed after it if it ended with a break. -/
def plain? (s : Layout) : Option Layout := do
  let s ← s.markKey?
  let ((text, here), broken) ←
    plainScalar? s.bracketed (s.indent + 1).toNat s.here.mark .empty [] s.here.rest
  some { s.emit (.scalar true text) with keyAllowed := broken, here := here }

/-- A block scalar. -/
def block? (s : Layout) (folded : Bool) : Option Layout := do
  let s ← s.dropKey?
  let (text, here) ← blockScalar? folded s.indent (s.here.forward 1)
  some { s.emit (.scalar false text) with keyAllowed := true, here := here }

/-- Whether a plain scalar can start here. -/
def startsPlain (bracketed : Bool) : List Char → Bool
  | [] => false
  | c :: rest =>
    !(isBlank c || isBreak c || c ∈ "-?:,[]\x7b\x7d#&*!|>'\x22%@\x60".toList) ||
      (c = '-' && !rest.head?.any isBlank) ||
      (!bracketed && (c = '?' || c = ':') && !endsWord rest)

/-- The next character as a token in brackets, or of a node. -/
def node? (s : Layout) (c : Char) : Option Layout :=
  if c = '[' then s.openBracket? .openSequence
  else if c = '\x7b' then s.openBracket? .openMapping
  else if c = ']' then s.closeBracket? .closeSequence
  else if c = '\x7d' then s.closeBracket? .closeMapping
  else if c = ',' then s.comma?
  else if c = '*' then
    s.inline? fun here => (name? (here.forward 1)).map fun (name, here) => (.alias name, here)
  else if c = '&' then
    s.inline? fun here => (name? (here.forward 1)).map fun (name, here) => (.anchor name, here)
  else if c = '!' then
    s.inline? fun here => do
      let (tag, here) ← TagText.read? here
      if endsWord here.rest ∨ (s.bracketed ∧ here.rest.head? = some ',') then
        some (.tag tag, here)
      else none
  else if c = '|' ∧ !s.bracketed then s.block? false
  else if c = '>' ∧ !s.bracketed then s.block? true
  else if c = '\x27' then
    s.inline? fun here =>
      (singleQuoted? (here.mark.forward 1) .empty [] (here.rest.drop 1)).map fun (text, here) =>
        (.scalar false text, here)
  else if c = '\x22' then
    s.inline? fun here =>
      (doubleQuoted? (here.mark.forward 1) .empty none [] (here.rest.drop 1)).map
        fun (text, here) => (.scalar false text, here)
  else if startsPlain s.bracketed s.here.rest then s.plain?
  else none

/-- Reads the token that starts with character `c`, which `rest` follows. -/
def fetch? (s : Layout) (c : Char) (rest : List Char) : Option Layout :=
  let atStart := s.here.mark.column = 0
  if atStart ∧ c = '%' then do
    let (said, here) ← directive? (s.here.forward 1)
    s.outside? (.directive said) here
  else if atStart ∧ isDocumentMark (c :: rest) then
    s.outside? (if c = '-' then .documentStart else .documentEnd) (s.here.forward 3)
  else if c = '-' ∧ endsWord rest then s.entry?
  else if c = '?' ∧ (s.bracketed ∨ endsWord rest) then s.key?
  else if c = ':' ∧ (s.bracketed ∨ endsWord rest) then s.value?
  else s.node? c

/-- The tokens at the end of the text: every block closes. -/
def finish? (s : Layout) : Option (List Token) := do
  let s ← (s.closeBlocks (-1)).dropKey?
  some s.reversed.reverse

/-- Reads at most `bound` tokens, up to the end of the text. -/
def tokensWithin? : Nat → Layout → Option (List Token)
  | 0, _ => none
  | bound + 1, s =>
    let s := s.settle
    match s.here.rest with
    | [] => s.finish?
    | c :: rest => do tokensWithin? bound (← s.fetch? c rest)

end Layout

/-- The tokens of a text. Each takes at least one character. -/
def tokens? (text : String) : Option (List Token) :=
  let chars := text.toList
  if chars.all isAllowed then
    Layout.tokensWithin? (chars.length + 1) { here := Cursor.start (unifyBreaks chars) }
  else none

end ApiGateway.Yaml
