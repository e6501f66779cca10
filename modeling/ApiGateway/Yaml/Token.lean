import ApiGateway.Yaml.Tag

/-!
# Tokens of a YAML text

The pieces a YAML text consists of. Indentation has become tokens that open and close blocks,
and a key written without a mark has the token `key` before it.

## Main definitions

* `Directive`: what can be said before a document.
* `Token`: a piece of a text.
-/
namespace ApiGateway.Yaml

/-- What can be said before a document: the version of the language, or what a handle stands
for. -/
inductive Directive where
  | version (major minor : Nat)
  | handle (name expansion : List Char)
  deriving Inhabited

/-- A piece of a text. -/
inductive Token where
  | directive (said : Directive)
  | documentStart
  | documentEnd
  | blockSequence
  | blockMapping
  | blockEnd
  | openSequence
  | closeSequence
  | openMapping
  | closeMapping
  | entry
  | comma
  | key
  | value
  | alias (name : List Char)
  | anchor (name : List Char)
  | tag (tag : TagText)
  | scalar (plain : Bool) (text : String)
  deriving Inhabited

end ApiGateway.Yaml
