import ApiGateway.Number.Hexadecimal
import ApiGateway.Yaml.Cursor

/-!
# Tags

A tag names the type of a node. It is written in full between angle brackets, or as a handle
with a suffix; directives say what a handle stands for. Bytes can be written by their
hexadecimal value after a percent sign.

## Main definitions

* `Tag`: a tag as written out in full, byte by byte.
* `TagText`: a tag as written in a text.
* `TagText.read?`: the reader of tags.
* `Handles`: what handles stand for.
-/
namespace ApiGateway.Yaml

/-- A tag written out in full. Each character is one byte. -/
abbrev Tag := List Char

namespace Tag

/-- The tag of a type of the core schema. -/
def core (name : String) : Tag := ("tag:yaml.org,2002:" ++ name).toList

/-- Whether the bytes of a tag are a text. -/
def isText (tag : Tag) : Bool :=
  (String.fromUTF8? (ByteArray.mk (tag.map fun c => c.toNat.toUInt8).toArray)).isSome

/-- Whether a tag is private to a document and so names no type. The lone mark `!` is one. -/
def isPrivate (tag : Tag) : Bool := tag.head? = some '!'

end Tag

/-- A tag as written: a handle and what follows it. A tag in full has no handle. -/
structure TagText where
  handle : List Char
  suffix : List Char
  deriving Inhabited

/-- Whether a character may stand in a tag as it is. Brackets and commas may only between
angle brackets. -/
def isTagChar (bracketed : Bool) (c : Char) : Bool :=
  isNameChar c || c ∈ ";/?:@&=+$.!~*'()".toList || (bracketed && c ∈ ",[]".toList)

/-- The number of bytes that follow the first byte of a character. -/
def furtherBytes? (byte : Nat) : Option Nat :=
  if byte < 0x80 then some 0
  else if byte < 0xc0 then none
  else if byte < 0xe0 then some 1
  else if byte < 0xf0 then some 2
  else if byte < 0xf8 then some 3
  else none

/-- The bytes of a part of a tag, given in reverse. A zero byte ends the part: what is written
after it does not count. -/
def tagBytes (reversed : List Char) : List Char := reversed.reverse.takeWhile (· ≠ '\x00')

/-- Reads the characters of a tag: their bytes and the number of characters passed. After the
first byte of a character `more` bytes of it have to follow, each by its value. -/
def tagChars? (bracketed : Bool) (more : Nat) (reversed : List Char) (passed : Nat) :
    List Char → Option (List Char × Nat)
  | '%' :: high :: low :: rest => do
    let byte := 16 * (← Hexadecimal.digitValue? high) + (← Hexadecimal.digitValue? low)
    let more ←
      if more = 0 then furtherBytes? byte
      else if 0x80 ≤ byte ∧ byte < 0xc0 then some (more - 1)
      else none
    tagChars? bracketed more (Char.ofNat byte :: reversed) (passed + 3) rest
  | c :: rest =>
    if more ≠ 0 ∨ c = '%' then none
    else if isTagChar bracketed c then
      tagChars? bracketed 0 (c :: reversed) (passed + 1) rest
    else some (tagBytes reversed, passed)
  | [] => if more ≠ 0 then none else some (tagBytes reversed, passed)

/-- Reads the characters of a tag, of which there has to be one. -/
def someTagChars? (bracketed : Bool) (here : Cursor) : Option (List Char × Cursor) := do
  let (chars, passed) ← tagChars? bracketed 0 [] 0 here.rest
  if passed = 0 then none else some (chars, here.forward passed)

/-- Reads what stands between an exclamation mark and a second one, with both marks. -/
def handle? (here : Cursor) : Option (List Char × Cursor) :=
  match here.rest with
  | '!' :: rest =>
    let name := rest.takeWhile isNameChar
    match rest.dropWhile isNameChar with
    | '!' :: _ => some ('!' :: name ++ ['!'], here.forward (name.length + 2))
    | _ => none
  | _ => none

/-- Reads a tag at its exclamation mark. A mark that no bytes follow is a tag in full. -/
def TagText.read? (here : Cursor) : Option (TagText × Cursor) :=
  match here.rest with
  | '!' :: '<' :: _ => do
    let (chars, here) ← someTagChars? true (here.forward 2)
    match here.rest with
    | '>' :: _ => some (⟨[], chars⟩, here.forward 1)
    | _ => none
  | _ =>
    match handle? here with
    | some (handle, here) => do
      let (suffix, here) ← someTagChars? false here
      some (⟨handle, suffix⟩, here)
    | none => do
      let (suffix, passed) ← tagChars? false 0 [] 0 (here.rest.drop 1)
      let tag : TagText := if suffix = [] then ⟨[], ['!']⟩ else ⟨['!'], suffix⟩
      some (tag, here.forward (passed + 1))

/-- What handles stand for; of two entries the first counts. -/
abbrev Handles := List (List Char × List Char)

namespace Handles

/-- The handles every document has. -/
def standard : Handles := [(['!'], ['!']), (['!', '!'], Tag.core "")]

/-- The tag a written tag stands for, if its handle is known. -/
def expand? (handles : Handles) (tag : TagText) : Option Tag :=
  if tag.handle = [] then some tag.suffix
  else (handles.lookup tag.handle).map (· ++ tag.suffix)

end Handles

end ApiGateway.Yaml
