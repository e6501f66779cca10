import ApiGateway.Proofs.Regex.Basic

/-!
# Reading regular expressions

The text of a regular expression is cut into tokens, and the tokens are put together with a stack of
open groups. Texts with constructs that are not read here are refused: classes of escapes such as
`\d`, ranges and nested brackets in classes, counted, lazy and possessive repetitions, and groups
with options. Several groups may have one name here.

## Main definitions

* `Regex.Token`, `Regex.tokens`: the tokens of a text.
* `Regex.parse`: the expression of a list of tokens.
* `Regex.read`: the expression of a text.
* `Regex.metacharacters`: the characters with a meaning outside classes.
* `Regex.Quoted`, `Regex.unescape`: text in which only escaping backslashes have a meaning, and what
  it stands for.
-/
namespace ApiGateway.Regex

/-! ## Tokens -/

/-- How often the part before may stand. -/
inductive Times where
  | optional
  | star
  | plus

/-- A part as often as it may stand. -/
def Times.apply : Times → Regex → Regex
  | .optional, r => .optional r
  | .star, r => .star r
  | .plus, r => .plus r

/-- A token of a regular expression. -/
inductive Token where
  | part (r : Regex)
  | times (t : Times)
  | bar
  | opening (name : Option String)
  | closing

/-- The token of a character that stands outside escapes, groups' heads and classes. -/
def plainToken (c : Char) : Token :=
  match c with
  | '^' => .part .start
  | '$' => .part .stop
  | '.' => .part .any
  | '|' => .bar
  | '?' => .times .optional
  | '*' => .times .star
  | '+' => .times .plus
  | ')' => .closing
  | c => .part (.char c)

/-- Whether a group may have the name: letters, digits and underscores, no more than 32 and with no
digit at the start. -/
def isGroupName (name : List Char) : Bool :=
  name.all (fun c => c.isAlphanum || c == '_') && name.length ≤ 32 &&
    name.head?.any fun c => !c.isDigit

/-- Where in a text the next character is read: outside, behind a backslash, in the name of a group,
or in a class. What has been read of a name or a class is kept in reverse. -/
inductive Mode where
  | plain
  | escaped
  | name (read : List Char)
  | inside (negated : Bool) (read : List Char)

/-- The tokens of a text. -/
def tokens : Mode → List Char → Option (List Token)
  | .plain, [] => some []
  | .plain, '\\' :: rest => tokens .escaped rest
  | .plain, '(' :: '?' :: '<' :: rest => tokens (.name []) rest
  | .plain, '(' :: '?' :: _ => none
  | .plain, '(' :: '*' :: _ => none
  | .plain, '(' :: rest => (tokens .plain rest).map (.opening none :: ·)
  | .plain, '[' :: '^' :: rest => tokens (.inside true []) rest
  | .plain, '[' :: rest => tokens (.inside false []) rest
  | .plain, '\x7b' :: _ => none
  | .plain, c :: rest => (tokens .plain rest).map (plainToken c :: ·)
  | .escaped, c :: rest =>
    if c.isAlphanum then none else (tokens .plain rest).map (.part (.char c) :: ·)
  | .name read, '>' :: rest =>
    if isGroupName read.reverse then
      (tokens .plain rest).map (.opening (some (String.ofList read.reverse)) :: ·)
    else none
  | .name read, c :: rest => tokens (.name (c :: read)) rest
  | .inside negated read, ']' :: rest =>
    if read = [] then none
    else (tokens .plain rest).map
      (.part (if negated then .noneOf read.reverse else .oneOf read.reverse) :: ·)
  | .inside negated read, c :: rest =>
    if c = '\\' ∨ c = '[' ∨ c = '-' then none else tokens (.inside negated (c :: read)) rest
  | _, [] => none

/-! ## Expressions -/

/-- Whether a part may be repeated: a character, a class or a group. -/
def isRepeatable : Regex → Bool
  | .char _ | .any | .oneOf _ | .noneOf _ | .group _ _ => true
  | _ => false

/-- The alternatives that are finished and the one that ends with the last part, both in reverse. -/
def close (finished parts : List Regex) : Regex :=
  finished.foldl (fun r s => .alt s r) (sequence parts.reverse)

/-- The expression of the tokens behind alternatives that are finished, the parts of the next one,
and the groups around it with the same two lists for each. All lists are in reverse. -/
def parse : List Token → List Regex → List Regex →
    List (Option String × List Regex × List Regex) → Option Regex
  | [], finished, parts, [] => some (close finished parts)
  | [], _, _, _ :: _ => none
  | .part r :: rest, finished, parts, outer => parse rest finished (r :: parts) outer
  | .bar :: rest, finished, parts, outer =>
    parse rest (sequence parts.reverse :: finished) [] outer
  | .times _ :: _, _, [], _ => none
  | .times t :: rest, finished, r :: parts, outer =>
    if r.isRepeatable then parse rest finished (t.apply r :: parts) outer else none
  | .opening name :: rest, finished, parts, outer =>
    parse rest [] [] ((name, finished, parts) :: outer)
  | .closing :: _, _, _, [] => none
  | .closing :: rest, finished, parts, (name, finished', parts') :: outer =>
    parse rest finished' (.group name (close finished parts) :: parts') outer

/-- The expression of a text. -/
def read (text : List Char) : Option Regex := (tokens .plain text).bind fun ts => parse ts [] [] []

/-! ## Escapes -/

/-- The characters with a meaning outside classes. -/
def metacharacters : List Char :=
  ['\\', '^', '$', '.', '|', '?', '*', '+', '(', ')', '[', '\x7b']

/-- A text in which metacharacters stand behind escaping backslashes only. -/
def Quoted : List Char → Prop
  | '\\' :: _ :: rest => Quoted rest
  | c :: rest => c ∉ metacharacters ∧ Quoted rest
  | [] => True

/-- The text without its escaping backslashes. -/
def unescape : List Char → List Char
  | '\\' :: c :: rest => c :: unescape rest
  | c :: rest => c :: unescape rest
  | [] => []

end ApiGateway.Regex
