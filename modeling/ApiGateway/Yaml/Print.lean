import ApiGateway.Yaml.Resolution

/-!
# Written YAML

The form in which configurations are written: one entry a line, sequences as deep as the key
they belong to, the first entry of a collection inside a sequence on the line of its mark.
Texts are plain where that reads back as the same text; otherwise they are quoted or, if they
have several lines, written as a block.

## Main definitions

* `Style`, `styleOf`: how a text is written.
* `scalarLines`: a written text.
* `Yaml.print`: the written form of a mapping.
-/
namespace ApiGateway.Yaml

/-- How a text is written. -/
inductive Style where
  | plain
  | single
  | double
  | literal
  deriving DecidableEq, Inhabited

/-- Whether a character may be written as it is. -/
def isPrintable (c : Char) : Bool :=
  let n := c.toNat
  n = 0x0a || (0x20 ≤ n && n ≤ 0x7e) || (0xa0 ≤ n && n ≤ 0xd7ff) ||
    (0xe000 ≤ n && n ≤ 0xfffd && c ≠ byteOrderMark) || 0x10000 ≤ n

/-- Whether a text has a mark of a value or of a comment inside, after character `before`. -/
def hasInnerIndicator (before : Char) : List Char → Bool
  | [] => false
  | c :: rest =>
    (c = ':' && endsWord rest) || (c = '#' && (isBlank before || isBreak before)) ||
      hasInnerIndicator c rest

/-- Whether a text starts with a mark of the grammar. -/
def startsWithIndicator : List Char → Bool
  | '-' :: '-' :: '-' :: _ | '.' :: '.' :: '.' :: _ => true
  | c :: rest =>
    c ∈ "#,[]\x7b\x7d&*!|>'\x22%@\x60".toList || (c ∈ ['?', ':', '-'] && endsWord rest)
  | [] => false

/-- Whether a text has a blank next to a break, on the given side of it. -/
def hasPair (first second : Char → Bool) : List Char → Bool
  | c :: d :: rest => (first c && second d) || hasPair first second (d :: rest)
  | _ => false

/-- Whether a character is a space. -/
def isSpace (c : Char) : Bool := c = ' '

/-- Whether a text can only be written with escapes, whatever its style. -/
def needsEscapes (text : List Char) : Bool :=
  !text.all isPrintable || hasPair isSpace isBreak text

/-- Whether a text may be written plain as far as its characters go. -/
def allowsPlain (text : List Char) : Bool :=
  !(needsEscapes text || text.any isBreak || text.head?.any isSpace || text.getLast?.any isSpace ||
    startsWithIndicator text || hasInnerIndicator 'x' text)

/-- Whether a plain text reads back as itself. -/
def isPlainText (text : String) : Bool :=
  match plainValue? text with
  | some (.str _) => !hasLeadingZero text.toList
  | _ => false

/-- How a text is written: in lines if it has several, else plain if it reads back as itself,
else between single quotes. What cannot be written so goes between double quotes. -/
def styleOf (text : String) : Style :=
  let chars := text.toList
  if '\n' ∈ chars then
    if needsEscapes chars || chars.getLast?.any isSpace then .double else .literal
  else if isPlainText text && allowsPlain chars then .plain
  else if needsEscapes chars || hasPair isBreak isSpace chars then .double
  else .single

/-- A number of blanks. -/
def blanks (n : Nat) : List Char := List.replicate n ' '

/-- The digits of a character's number in upper case. -/
def codeDigits (width : Nat) (c : Char) : List Char :=
  (Hexadecimal.digits width c.toNat).map Char.toUpper

/-- How one character is written between double quotes. -/
def escape (c : Char) : List Char :=
  if isPrintable c && !isBreak c && c ≠ '\x22' && c ≠ '\\' then [c]
  else if c = '\x22' || c = '\\' then ['\\', c]
  else if c = '\x00' then ['\\', '0']
  else if c = '\x07' then ['\\', 'a']
  else if c = '\x08' then ['\\', 'b']
  else if c = '\t' then ['\\', 't']
  else if c = '\n' then ['\\', 'n']
  else if c = '\x0b' then ['\\', 'v']
  else if c = '\x0c' then ['\\', 'f']
  else if c = '\r' then ['\\', 'r']
  else if c = '\x1b' then ['\\', 'e']
  else if c = '\u0085' then ['\\', 'N']
  else if c = '\u2028' then ['\\', 'L']
  else if c = '\u2029' then ['\\', 'P']
  else if c.toNat ≤ 0xff then '\\' :: 'x' :: codeDigits 2 c
  else if c.toNat ≤ 0xffff then '\\' :: 'u' :: codeDigits 4 c
  else '\\' :: 'U' :: codeDigits 8 c

/-- The characters of a text in lines: after each break, `indent` blanks in front of what is no
break. The text starts a line if `fresh`. -/
def indented (indent : Nat) (fresh : Bool) : List Char → List Char
  | [] => []
  | c :: rest =>
    if isBreak c then c :: indented indent true rest
    else (if fresh then blanks indent else []) ++ c :: indented indent false rest

/-- The header of a block: the indentation if the text starts with a blank or a break, and what
becomes of the breaks at its end. -/
def blockMark (text : List Char) : List Char :=
  let width := if text.head?.any fun c => isSpace c || isBreak c then ['2'] else []
  let chomp := match text.reverse with
    | last :: rest =>
      if !isBreak last then ['-']
      else if rest.head?.all isBreak then ['+']
      else []
    | [] => ['-']
  '|' :: width ++ chomp

/-- A written text with the end of its last line. Its lines are indented by `indent`. -/
def scalarLines (indent : Nat) (text : String) : String :=
  let chars := text.toList
  String.ofList <| match styleOf text with
    | .plain => chars ++ ['\n']
    | .single =>
      let doubled := chars.flatMap fun c => if c = '\x27' then ['\x27', c] else [c]
      let close := if chars.getLast?.any isBreak then blanks indent else []
      '\x27' :: indented indent false doubled ++ close ++ ['\x27', '\n']
    | .double => '\x22' :: chars.flatMap escape ++ ['\x22', '\n']
    | .literal =>
      blockMark chars ++ '\n' :: indented indent true chars ++
        if chars.getLast?.any isBreak then [] else ['\n']

/-- A new line that starts at a column. -/
def padding (column : Nat) : String := String.ofList (blanks column)

/-- Whether a key fits in front of its colon. -/
def isShortKey (key : String) : Bool := !key.toList.any isBreak && key.utf8ByteSize ≤ 128

/-- What a value follows: a key, whose column its own entries build on, or a mark. -/
inductive Before where
  | key
  | mark
  deriving DecidableEq, Inhabited

/-- What the value of a key follows: the key itself, or the mark of a value below a key that
does not fit in front of its colon. -/
def beforeValue (key : String) : Before := if isShortKey key then .key else .mark

/-- A key at a column with the colon of its value. A key that does not fit in front of the colon
has a mark of its own. -/
def keyText (column : Nat) (key : String) : String :=
  match beforeValue key with
  | .key => String.ofList (scalarLines (column + 2) key).toList.dropLast ++ ":"
  | .mark => "? " ++ scalarLines (column + 2) key ++ padding column ++ ":"

/-- The column of the items of a sequence. -/
def itemColumn (before : Before) (column : Nat) : Nat :=
  match before with
  | .key => column
  | .mark => column + 2

/-- What is written between a key or a mark and the first entry of a collection, which has
column `inner`. -/
def opening (before : Before) (inner : Nat) : String :=
  match before with
  | .key => "\n" ++ padding inner
  | .mark => " "

mutual

/-- A value after a key or a mark that stands at `column`, up to the end of its last line. -/
def valueText (before : Before) (column : Nat) : Json → String
  | .null => " null\n"
  | .bool true => " true\n"
  | .bool false => " false\n"
  | .int n => " " ++ integerText n ++ "\n"
  | .float x => " " ++ x.textWith "" ++ "\n"
  | .str text => " " ++ scalarLines (column + 2) text
  | .arr [] => " []\n"
  | .obj [] => " \x7b\x7d\n"
  | .arr (item :: rest) =>
    opening before (itemColumn before column) ++
      "-" ++ valueText .mark (itemColumn before column) item ++
      moreItems (itemColumn before column) rest
  | .obj ((key, value) :: rest) =>
    opening before (column + 2) ++
      keyText (column + 2) key ++ valueText (beforeValue key) (column + 2) value ++
      moreEntries (column + 2) rest

/-- Further items of a sequence at a column. -/
def moreItems (column : Nat) : List Json → String
  | [] => ""
  | item :: rest =>
    padding column ++ "-" ++ valueText .mark column item ++ moreItems column rest

/-- Further entries of a mapping at a column. -/
def moreEntries (column : Nat) : List (String × Json) → String
  | [] => ""
  | (key, value) :: rest =>
    padding column ++ keyText column key ++ valueText (beforeValue key) column value ++
      moreEntries column rest

end

/-- The written form of a mapping with its entries in the given order. -/
def print (entries : List (String × Json)) : String :=
  if entries.isEmpty then "\x7b\x7d\n" else moreEntries 0 entries

end ApiGateway.Yaml
