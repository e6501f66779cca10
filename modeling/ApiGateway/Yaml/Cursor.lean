/-!
# Places in a YAML text

The characters a YAML text may hold, the classes its grammar is written in, and the place a
reader has reached. All line breaks but the two Unicode separators are one character, so that
every break counts as one step.

## Main definitions

* `Yaml.isAllowed`, `Yaml.isBreak`, `Yaml.isBlank`, `Yaml.isNameChar`: classes of characters.
* `Yaml.unifyBreaks`: every line break as a single character.
* `Mark`: how far a place is from the start and where it stands in its line.
* `Cursor`: a place together with the text that follows it.
-/
namespace ApiGateway.Yaml

/-- Whether a character may stand in a text: no control character but tabs and breaks. -/
def isAllowed (c : Char) : Bool :=
  let n := c.toNat
  n = 0x09 || n = 0x0a || n = 0x0d || (0x20 ≤ n && n ≤ 0x7e) || n = 0x85 ||
    (0xa0 ≤ n && n ≤ 0xd7ff) || (0xe000 ≤ n && n ≤ 0xfffd) || 0x10000 ≤ n

/-- The mark that may open a line and tells the order of bytes. -/
def byteOrderMark : Char := '\ufeff'

/-- Whether a character ends a line. -/
def isBreak (c : Char) : Bool :=
  c = '\n' || c = '\r' || c = '\u0085' || c = '\u2028' || c = '\u2029'

/-- Whether a character separates words of a line. -/
def isBlank (c : Char) : Bool := c = ' ' || c = '\t'

/-- Whether a character may be part of an anchor, of a handle or of a directive's name. -/
def isNameChar (c : Char) : Bool := c.isAlphanum || c = '_' || c = '-'

/-- Whether a word ends before this text. -/
def endsWord : List Char → Bool
  | [] => true
  | c :: _ => isBlank c || isBreak c

/-- Every line break as one character: a carriage return, with or without the line feed after
it, and a next-line character become line feeds. -/
def unifyBreaks : List Char → List Char
  | [] => []
  | '\r' :: '\n' :: rest => '\n' :: unifyBreaks rest
  | c :: rest => (if c = '\r' || c = '\u0085' then '\n' else c) :: unifyBreaks rest

/-- A place in a text: the number of characters before it, the number of lines before its line,
and the number of characters before it in its line. -/
structure Mark where
  index : Nat
  line : Nat
  column : Nat
  deriving Inhabited

namespace Mark

/-- The place after one more character. -/
def after (m : Mark) (c : Char) : Mark :=
  if isBreak c then ⟨m.index + 1, m.line + 1, 0⟩ else ⟨m.index + 1, m.line, m.column + 1⟩

/-- The place `n` characters further in the same line. -/
def forward (m : Mark) (n : Nat) : Mark := ⟨m.index + n, m.line, m.column + n⟩

end Mark

/-- A place with the text that follows it. -/
structure Cursor where
  mark : Mark
  rest : List Char
  deriving Inhabited

namespace Cursor

/-- The start of a text. -/
def start (text : List Char) : Cursor := ⟨⟨0, 0, 0⟩, text⟩

/-- Passes `n` characters of the line. -/
def forward (here : Cursor) (n : Nat) : Cursor := ⟨here.mark.forward n, here.rest.drop n⟩

/-- Passes the characters of a class that has no breaks. -/
def skipWhile (here : Cursor) (p : Char → Bool) : Cursor :=
  here.forward (here.rest.takeWhile p).length

/-- Passes blanks and a comment, up to the end of the line. There has to be nothing else. -/
def lineEnd? (here : Cursor) : Option Cursor :=
  let here := here.skipWhile isBlank
  let here := match here.rest with
    | '#' :: _ => here.skipWhile fun c => !isBreak c
    | _ => here
  match here.rest with
  | [] => some here
  | c :: rest => if isBreak c then some ⟨here.mark.after c, rest⟩ else none

end Cursor

end ApiGateway.Yaml
