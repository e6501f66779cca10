import ApiGateway.Json.Print

/-!
# Reading JSON

`Json.read?` reads a text that holds one value. Characters are grouped into lexemes, and
each finished lexeme moves a stack of open lists and objects on; both passes are folds, so
the reader is total and works through the text once. Numbers without point and power of ten
are integers, all others floats.

## Main definitions

* `Json.Lexeme`: punctuation, a scalar, or a string.
* `Json.Reader`: the open lists and objects and what may come next.
* `Json.read?`: the value a text holds.
-/
namespace ApiGateway

namespace Json

/-- A piece of JSON text. Strings are kept apart from other scalars, since only they may be
keys. -/
inductive Lexeme where
  | openList
  | closeList
  | openObject
  | closeObject
  | comma
  | colon
  | text (value : String)
  | scalar (value : Json)

/-- An open list with its items in reverse, or an open object with the key whose value is
being read. -/
inductive Frame where
  | list (reversed : List Json)
  | object (members : Members) (key : String)

/-- What may come next. -/
inductive Expectation where
  | value
  | valueOrClose
  | key
  | keyOrClose
  | colon
  | commaOrClose
  | nothing (result : Json)

/-- The state between two lexemes: the open frames, innermost first. -/
structure Reader where
  frames : List Frame
  expected : Expectation

namespace Reader

/-- A value has ended: it becomes the result or goes into the innermost frame. -/
def complete (value : Json) : List Frame → Reader
  | [] => ⟨[], .nothing value⟩
  | .list reversed :: outer => ⟨.list (value :: reversed) :: outer, .commaOrClose⟩
  | .object members key :: outer => ⟨.object (members.insert key value) key :: outer, .commaOrClose⟩

/-- A value begins. -/
def begin? (frames : List Frame) : Lexeme → Option Reader
  | .openList => some ⟨.list [] :: frames, .valueOrClose⟩
  | .openObject => some ⟨.object [] "" :: frames, .keyOrClose⟩
  | .text value => some (complete (.str value) frames)
  | .scalar value => some (complete value frames)
  | _ => none

/-- The innermost frame ends. -/
def close? : List Frame → Lexeme → Option Reader
  | .list reversed :: outer, .closeList => some (complete (.arr reversed.reverse) outer)
  | .object members _ :: outer, .closeObject => some (complete (.obj members) outer)
  | _, _ => none

/-- A key is read. -/
def key? : List Frame → Lexeme → Option Reader
  | .object members _ :: outer, .text key => some ⟨.object members key :: outer, .colon⟩
  | _, _ => none

/-- One lexeme moves the reader on, or does not fit. -/
def step? (reader : Reader) (lexeme : Lexeme) : Option Reader :=
  match reader.expected, lexeme with
  | .value, l => begin? reader.frames l
  | .valueOrClose, .closeList => close? reader.frames .closeList
  | .valueOrClose, l => begin? reader.frames l
  | .key, l => key? reader.frames l
  | .keyOrClose, .closeObject => close? reader.frames .closeObject
  | .keyOrClose, l => key? reader.frames l
  | .colon, .colon => some ⟨reader.frames, .value⟩
  | .commaOrClose, .comma =>
    match reader.frames with
    | .list _ :: _ => some ⟨reader.frames, .value⟩
    | .object _ _ :: _ => some ⟨reader.frames, .key⟩
    | [] => none
  | .commaOrClose, l => close? reader.frames l
  | _, _ => none

end Reader

/-- The value of a word: a literal name or a number. -/
def wordValue? (word : List Char) : Option Json :=
  if word = "null".toList then some .null
  else if word = "true".toList then some (.bool true)
  else if word = "false".toList then some (.bool false)
  else
    match Numeral.read? word with
    | some n =>
      if n.isStrict then
        if n.isInteger then
          let magnitude : Int := Numeral.ofDigits n.whole
          some (.int (if n.isNegative then -magnitude else magnitude))
        else n.toBinary64?.map .float
      else none
    | none => none

/-- What the characters read last belong to. A string keeps its characters in reverse, an
escape of four digits its value so far and how many digits are missing; `high` is the first
half of a pair of escapes that stand for one character. -/
inductive Fragment where
  | between
  | word (reversed : List Char)
  | text (reversed : List Char) (high : Option Nat)
  | escape (reversed : List Char) (high : Option Nat)
  | hex (reversed : List Char) (high : Option Nat) (value missing : Nat)

/-- A finished escape of four digits: a character, the first half of a pair, or its end. -/
def unit? (reversed : List Char) (high : Option Nat) (value : Nat) : Option Fragment :=
  match high with
  | some h =>
    if 0xDC00 ≤ value ∧ value < 0xE000 then
      some (.text (Char.ofNat (0x10000 + (h - 0xD800) * 0x400 + (value - 0xDC00)) :: reversed)
        none)
    else none
  | none =>
    if 0xD800 ≤ value ∧ value < 0xDC00 then some (.text reversed (some value))
    else if 0xDC00 ≤ value ∧ value < 0xE000 then none
    else some (.text (Char.ofNat value :: reversed) none)

/-- The character a short escape stands for. -/
def shortEscape? (c : Char) : Option Char :=
  if c = '\x22' ∨ c = '\\' ∨ c = '/' then some c
  else if c = 'b' then some '\x08'
  else if c = 'f' then some '\x0c'
  else if c = 'n' then some '\n'
  else if c = 'r' then some '\r'
  else if c = 't' then some '\t'
  else none

/-- The lexeme of a punctuation character. -/
def punctuation? (c : Char) : Option Lexeme :=
  if c = '[' then some .openList
  else if c = ']' then some .closeList
  else if c = '\x7b' then some .openObject
  else if c = '\x7d' then some .closeObject
  else if c = ',' then some .comma
  else if c = ':' then some .colon
  else none

/-- Whether a character may stand between lexemes. -/
def isBlank (c : Char) : Bool := c = ' ' ∨ c = '\t' ∨ c = '\n' ∨ c = '\r'

/-- A character outside strings, with all earlier lexemes handed on. -/
def outside? (reader : Reader) (c : Char) : Option (Reader × Fragment) :=
  if isBlank c then some (reader, .between)
  else if c = '\x22' then some (reader, .text [] none)
  else
    match punctuation? c with
    | some l => (reader.step? l).map fun r => (r, .between)
    | none => some (reader, .word [c])

/-- One character moves the lexemes and the reader on. -/
def feed? (state : Reader × Fragment) (c : Char) : Option (Reader × Fragment) :=
  let (reader, part) := state
  match part with
  | .between => outside? reader c
  | .word reversed =>
    if isBlank c ∨ c = '\x22' ∨ (punctuation? c).isSome then do
      let value ← wordValue? reversed.reverse
      let reader ← reader.step? (.scalar value)
      outside? reader c
    else some (reader, .word (c :: reversed))
  | .text reversed high =>
    if c = '\\' then some (reader, .escape reversed high)
    else if high.isSome then none
    else if c = '\x22' then
      (reader.step? (.text (String.ofList reversed.reverse))).map fun r => (r, .between)
    else if c.toNat < 0x20 then none
    else some (reader, .text (c :: reversed) none)
  | .escape reversed high =>
    if c = 'u' then some (reader, .hex reversed high 0 4)
    else if high.isSome then none
    else (shortEscape? c).map fun e => (reader, .text (e :: reversed) none)
  | .hex reversed high value missing => do
    let digit ← Hexadecimal.digitValue? c
    let value := 16 * value + digit
    if missing ≤ 1 then (unit? reversed high value).map fun p => (reader, p)
    else some (reader, .hex reversed high value (missing - 1))

/-- The value a text holds, if it is a JSON text. -/
def read? (text : String) : Option Json := do
  let (reader, part) ← text.toList.foldlM feed? (⟨[], .value⟩, .between)
  let reader ← match part with
    | .between => some reader
    | .word reversed => do reader.step? (.scalar (← wordValue? reversed.reverse))
    | _ => none
  match reader.expected with
  | .nothing result => some result
  | _ => none

end Json

end ApiGateway
