import ApiGateway.Yaml.Layout
import ApiGateway.Yaml.Node
import ApiGateway.Yaml.Resolution

/-!
# Reading YAML

`Yaml.read?` reads a text that holds one document. Aliases are replaced by what they stand for;
the number of aliases followed is bounded by the size of the text, and no value is nested
deeper than `maxNesting`.

## Main definitions

* `Tree.value?`: the value of a tree.
* `Yaml.read?`: the value a text holds.
-/
namespace ApiGateway.Yaml

/-- A computation that may fail and that follows a limited number of aliases. -/
abbrev Following (α : Type) := StateT Nat Option α

/-- The node itself, or the one an alias stands for. -/
def follow (anchors : Anchors) : Node → Following Node
  | .alias number => do
    match ← get with
    | 0 => failure
    | left + 1 =>
      set left
      anchors.node? number
  | node => pure node

/-- The text of a key. Only scalars are keys, and their tags do not matter. -/
def keyOf (anchors : Anchors) (node : Node) : Following String := do
  match ← follow anchors node with
  | .scalar _ _ text => pure text
  | _ => failure

/-- Whether a collection with this tag is refused. -/
def refuses (tag : Option Tag) : Bool := tag.any fun tag => tag.isPrivate && tag.isText

/-- The value of a node with at most `depth` collections inside each other. Of two values of one
key the last stays. -/
def nodeValue (anchors : Anchors) : Nat → Node → Following Json
  | 0, node => do
    match ← follow anchors node with
    | .scalar tag plain text => liftM (scalarValue? tag plain text)
    | _ => failure
  | depth + 1, node => do
    match ← follow anchors node with
    | .scalar tag plain text => liftM (scalarValue? tag plain text)
    | .sequence tag items =>
      if refuses tag then failure
      else return .arr (← items.mapM fun item => nodeValue anchors depth item)
    | .mapping tag entries =>
      if refuses tag then failure
      else
        let members ← entries.foldlM (fun (members : Members) entry => do
          let key ← keyOf anchors entry.1
          return members.insert key (← nodeValue anchors depth entry.2)) []
        return .obj members
    | .alias _ => failure

/-- The value of a tree. At most a hundred aliases are followed for each node. -/
def Tree.value? (tree : Tree) : Option Json :=
  ((nodeValue tree.anchors maxNesting tree.root).run (100 * tree.root.size)).map (·.1)

/-- The value a text holds, if it is a YAML text of one document. -/
def read? (text : String) : Option Json := do
  (← Tree.ofTokens? (← tokens? text)).value?

end ApiGateway.Yaml
