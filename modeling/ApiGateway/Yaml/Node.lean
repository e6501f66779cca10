import ApiGateway.Yaml.Token

/-!
# From tokens to nodes

The tree of a document before its scalars are given a type. Tokens are taken one by one; each
moves a stack of open collections on. An aliased node is known by a number: an anchor gets the
number of names that came before it, so an anchor that is set again can share its number with
a later one, and an alias stands for the node that got the number last.

## Main definitions

* `Node`: scalars, collections and aliases.
* `Reader`: the open collections and what is known of anchors.
* `Reader.feed?`: one token moves the reader on.
* `Tree`: a root with the nodes aliases stand for.
* `Tree.ofTokens?`: the tree of a text of one document.
-/
namespace ApiGateway.Yaml

/-- A node of a document. A mapping has its keys and values in the order of the text. -/
inductive Node where
  | alias (number : Nat)
  | scalar (tag : Option Tag) (plain : Bool) (text : String)
  | sequence (tag : Option Tag) (items : List Node)
  | mapping (tag : Option Tag) (entries : List (Node × Node))
  deriving Inhabited

namespace Node

/-- What stands where a node is left out. -/
def missing : Node := .scalar none true ""

mutual

/-- The number of nodes below and including a node, where a collection counts at its start and
at its end. -/
def size : Node → Nat
  | .alias _ | .scalar _ _ _ => 1
  | .sequence _ items => 2 + sizeOfItems items
  | .mapping _ entries => 2 + sizeOfEntries entries

/-- The number of nodes of the items of a sequence. -/
def sizeOfItems : List Node → Nat
  | [] => 0
  | item :: rest => size item + sizeOfItems rest

/-- The number of nodes of the entries of a mapping. -/
def sizeOfEntries : List (Node × Node) → Nat
  | [] => 0
  | (key, value) :: rest => size key + size value + sizeOfEntries rest

end

/-- Keys and values that alternate, as entries. -/
def entries : List Node → List (Node × Node)
  | key :: value :: rest => (key, value) :: entries rest
  | _ => []

end Node

/-- What is written before a node. -/
structure Label where
  anchor : Option (List Char) := none
  tag : Option Tag := none
  deriving Inhabited

/-- Whether there is nothing before a node. -/
def Label.isEmpty (label : Label) : Bool := label.anchor.isNone && label.tag.isNone

/-- A number that aliases use, with a rank that grows with the order of anchors. -/
structure Slot where
  number : Nat
  rank : Nat
  deriving Inhabited

/-- The anchors so far: the number each name stands for, how many there were, and for each
number the node of the highest rank. -/
structure Anchors where
  numbers : List (List Char × Nat) := []
  count : Nat := 0
  nodes : List (Slot × Node) := []
  deriving Inhabited

namespace Anchors

/-- Sets an anchor. -/
def set (anchors : Anchors) (name : List Char) : Anchors × Slot :=
  let number := anchors.numbers.length
  let others := anchors.numbers.filter fun entry => entry.1 ≠ name
  ({ anchors with numbers := (name, number) :: others, count := anchors.count + 1 },
    ⟨number, anchors.count⟩)

/-- The node of a slot is complete. -/
def fill (anchors : Anchors) (slot : Option Slot) (node : Node) : Anchors :=
  match slot with
  | none => anchors
  | some slot =>
    if anchors.nodes.any fun entry => entry.1.number = slot.number ∧ slot.rank < entry.1.rank then
      anchors
    else { anchors with nodes := (slot, node) :: anchors.nodes }

/-- The node an alias of a number stands for. -/
def node? (anchors : Anchors) (number : Nat) : Option Node :=
  (anchors.nodes.find? fun entry => entry.1.number = number).map (·.2)

end Anchors

/-- The kinds of collections: blocks, sequences that are not indented further than the mapping
around them, collections in brackets, and a single entry among the items of a sequence. -/
inductive Kind where
  | blockSequence
  | flushSequence
  | blockMapping
  | sequence
  | mapping
  | single
  deriving DecidableEq, Inhabited

/-- Where a collection stands: before an entry, where brackets may hold an entry or end, at an
item, at a key, behind a key, at a value. -/
inductive Place where
  | entry
  | free
  | item
  | key
  | afterKey
  | value
  deriving DecidableEq, Inhabited

/-- An open collection. Its nodes are kept in reverse, those of a mapping with keys and values
alternating. -/
structure Level where
  kind : Kind
  place : Place
  tag : Option Tag := none
  slot : Option Slot := none
  reversed : List Node := []
  deriving Inhabited

namespace Level

/-- One more node. A key in brackets that has no mark has no value either. -/
def add (level : Level) (node : Node) : Level :=
  match level.kind, level.place with
  | .mapping, .free =>
    { level with place := .entry, reversed := .missing :: node :: level.reversed }
  | _, .key => { level with place := .afterKey, reversed := node :: level.reversed }
  | _, _ => { level with place := .entry, reversed := node :: level.reversed }

/-- The collection once it is complete. -/
def node (level : Level) : Node :=
  match level.kind with
  | .blockSequence | .flushSequence | .sequence => .sequence level.tag level.reversed.reverse
  | _ => .mapping level.tag (Node.entries level.reversed.reverse)

/-- Whether a token shows that the node at the present place is left out. -/
def leavesOut (level : Level) (token : Token) : Bool :=
  match level.kind, level.place, token with
  | .blockSequence, .item, .entry | .blockSequence, .item, .blockEnd => true
  | .flushSequence, .item, .entry | .flushSequence, .item, .key
  | .flushSequence, .item, .value | .flushSequence, .item, .blockEnd => true
  | .blockMapping, .key, .key | .blockMapping, .key, .value
  | .blockMapping, .key, .blockEnd => true
  | .blockMapping, .value, .key | .blockMapping, .value, .value
  | .blockMapping, .value, .blockEnd => true
  | .mapping, .key, .value | .mapping, .key, .comma | .mapping, .key, .closeMapping => true
  | .mapping, .value, .comma | .mapping, .value, .closeMapping => true
  | .single, .value, .comma | .single, .value, .closeSequence => true
  | _, .afterKey, .value => false
  | _, .afterKey, _ => true
  | _, _, _ => false

/-- Puts in the nodes that a token shows to be left out: a key and its value, or one of them. -/
def complete (level : Level) (token : Token) : Level :=
  let level := if level.leavesOut token then level.add .missing else level
  if level.leavesOut token then level.add .missing else level

/-- Whether the collection ends before a token that does not belong to it. -/
def endsBefore (level : Level) (token : Token) : Bool :=
  match level.kind, level.place, token with
  | .flushSequence, .entry, .entry => false
  | .flushSequence, .entry, _ => true
  | .single, .entry, _ => true
  | _, _, _ => false

end Level

/-- The open collections, innermost first, the root once it is complete, what is written before
the next node, and the anchors. -/
structure Reader where
  handles : Handles := Handles.standard
  levels : List Level := []
  root : Option Node := none
  label : Label := {}
  anchors : Anchors := {}
  deriving Inhabited

/-- The greatest number of collections that may be open at once. -/
def maxNesting : Nat := 128

namespace Reader

/-- A node is complete and belongs to the innermost collection. -/
def add (r : Reader) (node : Node) : Reader :=
  match r.levels with
  | [] => { r with root := some node }
  | level :: outer => { r with levels := level.add node :: outer }

/-- The innermost collection is complete. -/
def close (r : Reader) : Reader :=
  match r.levels with
  | [] => r
  | level :: outer =>
    ({ r with levels := outer, anchors := r.anchors.fill level.slot level.node }).add level.node

/-- Puts in what a token shows to be left out and closes the collections that end before it,
from the innermost of `levels` outwards. -/
def endBefore (token : Token) (r : Reader) : List Level → Reader
  | [] => r
  | _ :: outer =>
    match r.levels with
    | [] => r
    | level :: around =>
      let r := { r with levels := level.complete token :: around }
      if (level.complete token).endsBefore token then endBefore token r.close outer else r

/-- Uses up what is written before a node: its tag, and a slot if it has an anchor. -/
def takeLabel (r : Reader) : Reader × Option Tag × Option Slot :=
  let (anchors, slot) := match r.label.anchor with
    | some name => let (anchors, slot) := r.anchors.set name; (anchors, some slot)
    | none => (r.anchors, none)
  ({ r with label := {}, anchors := anchors }, r.label.tag, slot)

/-- A scalar, with what is written before it. -/
def scalar (r : Reader) (plain : Bool) (text : String) : Reader :=
  let (r, tag, slot) := r.takeLabel
  let node : Node := .scalar tag plain text
  ({ r with anchors := r.anchors.fill slot node }).add node

/-- A node of which there is nothing but what is written before it. -/
def bare (r : Reader) : Reader := r.scalar true ""

/-- Opens a collection. -/
def open? (r : Reader) (kind : Kind) (place : Place) : Option Reader :=
  if maxNesting ≤ r.levels.length then none
  else
    let (r, tag, slot) := r.takeLabel
    some { r with levels := ⟨kind, place, tag, slot, []⟩ :: r.levels }

/-- Whether a node may stand at the present place, and whether it may be a block and a sequence
that is not indented. -/
def nodePlace? (r : Reader) : Option (Bool × Bool) :=
  match r.levels with
  | [] => if r.root.isNone then some (true, false) else none
  | level :: _ =>
    match level.kind, level.place with
    | _, .entry | _, .afterKey => none
    | .blockMapping, _ => some (true, true)
    | .blockSequence, _ | .flushSequence, _ => some (true, false)
    | _, _ => some (false, false)

/-- The node that a token begins at a place for nodes: what is written before it, a scalar, an
alias or an open collection. -/
def begin? (r : Reader) (block flush : Bool) : Token → Option Reader
  | .anchor name =>
    if r.label.anchor.isNone then some { r with label := { r.label with anchor := some name } }
    else none
  | .tag tag => do
    if r.label.tag.isNone then
      some { r with label := { r.label with tag := some (← r.handles.expand? tag) } }
    else none
  | .alias name =>
    if r.label.isEmpty then (r.anchors.numbers.lookup name).map fun n => r.add (.alias n)
    else none
  | .scalar plain text => some (r.scalar plain text)
  | .openSequence => r.open? .sequence .free
  | .openMapping => r.open? .mapping .free
  | .blockSequence => if block then r.open? .blockSequence .entry else none
  | .blockMapping => if block then r.open? .blockMapping .entry else none
  | .entry => if flush then r.open? .flushSequence .item else none
  | _ => none

/-- The innermost collection goes on at another place. -/
def move (r : Reader) (place : Place) : Reader :=
  match r.levels with
  | [] => r
  | level :: outer => { r with levels := { level with place := place } :: outer }

/-- A mark between nodes. A single entry in a sequence that begins with a mark of a key and has
no key takes one more mark. -/
def mark? (r : Reader) (token : Token) : Option Reader :=
  match r.levels with
  | [] =>
    match r.root, token with
    | some _, .documentEnd => some r
    | _, _ => none
  | level :: _ =>
    match level.kind, level.place, token with
    | .blockSequence, .entry, .entry | .flushSequence, .entry, .entry => some (r.move .item)
    | .blockMapping, .entry, .key => some (r.move .key)
    | .blockSequence, .entry, .blockEnd | .blockMapping, .entry, .blockEnd => some r.close
    | .sequence, .entry, .comma | .mapping, .entry, .comma => some (r.move .free)
    | .sequence, .entry, .closeSequence | .sequence, .free, .closeSequence => some r.close
    | .mapping, .entry, .closeMapping | .mapping, .free, .closeMapping => some r.close
    | .sequence, .free, .key => r.open? .single .key
    | .mapping, .free, .key => some (r.move .key)
    | .single, .key, .value | .single, .key, .comma | .single, .key, .closeSequence =>
      some (r.add .missing)
    | _, .afterKey, .value => some (r.move .value)
    | _, _, _ => none

/-- Takes one token that belongs to the innermost collection. -/
def take? (r : Reader) (token : Token) : Option Reader :=
  match r.nodePlace? with
  | some (block, flush) => (r.begin? block flush token).or (r.mark? token)
  | none => r.mark? token

/-- One token moves the reader on. What is written before a node that does not follow stands
for itself. -/
def feed? (r : Reader) (token : Token) : Option Reader :=
  if r.label.isEmpty then (endBefore token r r.levels).take? token
  else
    match r.nodePlace? with
    | some (block, flush) =>
      match r.begin? block flush token with
      | some next => some next
      | none => (endBefore token r.bare r.levels).take? token
    | none => none

end Reader

/-- A root with the nodes that aliases stand for. -/
structure Tree where
  root : Node
  anchors : Anchors
  deriving Inhabited

/-- The directives in front of a document. -/
def directives : List Token → List Directive × List Token
  | .directive said :: rest =>
    let (more, rest) := directives rest
    (said :: more, rest)
  | rest => ([], rest)

/-- The handles that directives set, unless one is set twice. Versions other than 1.1 and 1.2
and a second version are refused. -/
def handles? : List Directive → Option Handles
  | [] => some []
  | .version major minor :: rest =>
    let again := rest.any fun | .version _ _ => true | _ => false
    if again ∨ major ≠ 1 ∨ (minor ≠ 1 ∧ minor ≠ 2) then none else handles? rest
  | .handle name expansion :: rest => do
    let handles ← handles? rest
    if (handles.lookup name).isSome then none else some ((name, expansion) :: handles)

/-- The tree of a text of one document. Without any content its root is missing. -/
def Tree.ofTokens? (tokens : List Token) : Option Tree := do
  let (said, rest) := directives tokens
  let handles ← handles? said
  let start : Reader := { handles := handles ++ Handles.standard }
  let r ← match rest with
    | .documentStart :: .documentEnd :: rest =>
      rest.foldlM Reader.feed? { start with root := some .missing }
    | .documentStart :: rest => rest.foldlM Reader.feed? start
    | rest => if said.isEmpty then rest.foldlM Reader.feed? start else none
  let r := if r.label.isEmpty then r else r.bare
  if r.levels.isEmpty then some ⟨r.root.getD .missing, r.anchors⟩ else none

end ApiGateway.Yaml
