import ApiGateway.Number.Numeral
import ApiGateway.Text

/-!
# URIs of servers

The part of the URI grammar that server addresses use: an absolute form with a scheme, an
authority alone, or a path alone. Reading keeps scheme, host, port and path; user information,
query and fragment are checked and dropped.

## Main definitions

* `Uri`: the parts that are kept.
* `UriError`: why a text is no URI.
* `Uri.parse`: the reader.
-/
namespace ApiGateway

/-- The parts of a server address. A missing scheme or authority is `none`; the path of an
authority alone is empty. -/
structure Uri where
  scheme : Option String
  host : Option String
  port : Option Nat
  path : String
  deriving DecidableEq, Inhabited

/-- Why a text is no URI. -/
inductive UriError where
  | tooLong
  | empty
  | invalidCharacter
  | invalidAuthority
  | invalidFormat
  | schemeTooLong
  | pathWithoutSlash
  deriving DecidableEq, Inhabited

namespace UriError

/-- The wording of the error. -/
def message : UriError → String
  | .tooLong => "uri too long"
  | .empty => "empty string"
  | .invalidCharacter => "invalid uri character"
  | .invalidAuthority => "invalid authority"
  | .invalidFormat => "invalid format"
  | .schemeTooLong => "scheme too long"
  | .pathWithoutSlash => "path does not start with slash"

end UriError

namespace Uri

/-- The greatest length of a URI in bytes. -/
def maxLength : Nat := 65534

/-- The greatest length of a scheme. -/
def maxSchemeLength : Nat := 64

/-- Whether a character may stand in a scheme. -/
def isSchemeChar (c : Char) : Bool := c.isAlphanum || c ∈ ['+', '-', '.', '~']

/-- Whether a character may stand in an authority; percent signs are counted apart. -/
def isAuthorityChar (c : Char) : Bool :=
  c.isAlphanum || c ∈ "!$&'()*+,-.:;=@[]_~".toList

/-- Whether a character ends an authority. -/
def endsAuthority (c : Char) : Bool := c ∈ ['/', '?', '#']

/-- What has been seen of an authority: the colons since the last user part or bracket, the
brackets, whether a percent sign is pending, and the last character. -/
structure AuthorityScan where
  colons : Nat
  opened : Bool
  closed : Bool
  percent : Bool
  last : Option Char

/-- One character of an authority. -/
def scanChar (scan : AuthorityScan) (c : Char) : Except UriError AuthorityScan :=
  let scan := { scan with last := some c }
  if c = ':' then
    if 8 ≤ scan.colons then .error .invalidAuthority
    else .ok { scan with colons := scan.colons + 1 }
  else if c = '[' then
    if scan.percent || scan.opened then .error .invalidAuthority
    else .ok { scan with opened := true }
  else if c = ']' then
    if !scan.opened || scan.closed then .error .invalidAuthority
    else .ok { scan with closed := true, colons := 0, percent := false }
  else if c = '@' then .ok { scan with colons := 0, percent := false }
  else if c = '%' then .ok { scan with percent := true }
  else if isAuthorityChar c then .ok scan
  else .error .invalidCharacter

/-- Checks the characters of an authority: brackets in one pair, at most one colon before a
port, nothing left open. -/
def checkAuthority (authority : List Char) : Except UriError Unit := do
  let scan ← authority.foldlM scanChar ⟨0, false, false, false, none⟩
  if scan.opened != scan.closed || 1 < scan.colons || scan.last = some '@' || scan.percent then
    .error .invalidAuthority

/-- Splits an authority off a text that is not empty. -/
def splitAuthority (text : List Char) : Except UriError (List Char × List Char) := do
  if text = [] then .error .empty
  let authority := text.takeWhile fun c => !endsAuthority c
  checkAuthority authority
  return (authority, text.dropWhile fun c => !endsAuthority c)

/-- What follows the last occurrence of a character, or everything without one. -/
def afterLast (sep : Char) (text : List Char) : List Char :=
  (text.splitOn sep).getLastD text

/-- The host of an authority: what follows the user part, up to the port; a host in brackets
ends at its bracket. -/
def hostOf (authority : List Char) : List Char :=
  let hostPort := afterLast '@' authority
  match hostPort with
  | '[' :: _ => hostPort.takeWhile (· ≠ ']') ++ [']']
  | _ => hostPort.takeWhile (· ≠ ':')

/-- A port number: digits up to 65535, a plus sign allowed. -/
def readPort? (text : List Char) : Option Nat :=
  let digits := (Text.after? ['+'] text).getD text
  if digits ≠ [] ∧ digits.all Char.isDigit then
    let n := Numeral.ofDigits digits
    if n ≤ 65535 then some n else none
  else none

/-- The port of an authority: the number after its last colon. Any other text there is no
port. -/
def portOf (authority : List Char) : Option Nat :=
  if ':' ∈ authority then readPort? (afterLast ':' authority) else none

/-- Whether a character may stand in a path. -/
def isPathChar (c : Char) : Bool :=
  0x20 < c.toNat && c ∉ ['<', '>', '\x60']

/-- Whether a character may stand in a query. -/
def isQueryChar (c : Char) : Bool :=
  0x20 < c.toNat && c ∉ ['\x22', '<', '>']

/-- Reads a path with an optional query and drops what follows a number sign. An empty path
is the root. -/
def readPath (text : List Char) : Except UriError String := do
  if text = [] then return "/"
  if text = ['*'] then return "*"
  if (text.head?.map endsAuthority).getD false then
    let visible := text.takeWhile (· ≠ '#')
    let path := visible.takeWhile (· ≠ '?')
    let query := (visible.dropWhile (· ≠ '?')).drop 1
    if path.all isPathChar && query.all isQueryChar then
      return if path = [] then "/" else String.ofList path
    else .error .invalidCharacter
  else .error .pathWithoutSlash

/-- The scheme at the start of a text, in lower case, with what follows it. A text in which no
colon with two slashes ends a run of scheme characters has none, nor has one of these three
characters alone. -/
def splitScheme (text : List Char) : Except UriError (Option String × List Char) :=
  let scheme := text.takeWhile isSchemeChar
  match Text.after? "://".toList (text.drop scheme.length) with
  | some rest =>
    if text.length ≤ 3 then .ok (none, text)
    else if maxSchemeLength < scheme.length then .error .schemeTooLong
    else .ok (some (String.ofList (scheme.map Char.toLower)), rest)
  | none => .ok (none, text)

/-- A URI that is an authority alone. -/
def ofAuthority (scheme : Option String) (authority : List Char) (path : String) : Uri :=
  ⟨scheme, some (String.ofList (hostOf authority)), portOf authority, path⟩

/-- Reads a text of more than one byte that does not start with a slash. -/
def parseFull (text : List Char) : Except UriError Uri := do
  let (scheme, rest) ← splitScheme text
  let (authority, rest) ← splitAuthority rest
  if scheme.isNone then
    if rest = [] then return ofAuthority none authority ""
    else .error .invalidFormat
  else
    if authority = [] then .error .invalidFormat
    return ofAuthority scheme authority (← readPath rest)

/-- Reads a URI. -/
def parse (source : String) : Except UriError Uri :=
  let text := source.toList
  if maxLength < source.utf8ByteSize then .error .tooLong
  else
    match text with
    | [] => .error .empty
    | ['/'] => .ok ⟨none, none, none, "/"⟩
    | ['*'] => .ok ⟨none, none, none, "*"⟩
    | '/' :: _ => do return ⟨none, none, none, ← readPath text⟩
    | [c] => do
      let (authority, rest) ← splitAuthority [c]
      if rest = [] then return ofAuthority none authority ""
      else .error .invalidCharacter
    | _ => parseFull text

end Uri

end ApiGateway
