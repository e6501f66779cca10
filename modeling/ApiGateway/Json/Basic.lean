import ApiGateway.Number.Binary64

/-!
# JSON values

The values of a document. An object is a list of members kept in strictly increasing order of
their keys, so that one object has one representation and every walk meets the members in
the same order. Keys are ordered by code point.

## Main definitions

* `Json`: null, booleans, integers, finite floats, strings, lists and objects.
* `Members`: the members of an object, with `Members.get?`, `Members.insert` and
  `Members.erase`.
* `Json.get?` and the `as…?` readers: typed access to a part of a value.
* `Json.sameValue`: equality in which the two zeros of a float are one number.
-/
namespace ApiGateway

/-- A JSON value. Integers and floats are kept apart: a float never turns into an integer. -/
inductive Json where
  | null
  | bool (value : Bool)
  | int (value : Int)
  | float (value : Binary64)
  | str (text : String)
  | arr (items : List Json)
  | obj (members : List (String × Json))
  deriving Inhabited

/-- The members of an object. -/
abbrev Members := List (String × Json)

namespace Members

/-- The value under a key. -/
def get? (members : Members) (key : String) : Option Json :=
  match members with
  | [] => none
  | (k, v) :: rest => if key = k then some v else get? rest key

/-- Sets the value of a key. A new key goes to its place in the order. -/
def insert (members : Members) (key : String) (value : Json) : Members :=
  match members with
  | [] => [(key, value)]
  | (k, v) :: rest =>
    if key < k then (key, value) :: (k, v) :: rest
    else if key = k then (key, value) :: rest
    else (k, v) :: insert rest key value

/-- Removes a key. -/
def erase (members : Members) (key : String) : Members :=
  match members with
  | [] => []
  | (k, v) :: rest => if key = k then erase rest key else (k, v) :: erase rest key

/-- Whether a key is present. -/
def has (members : Members) (key : String) : Bool := (members.get? key).isSome

/-- Members out of pairs in any order; of two values of one key the last stays. -/
def ofList (pairs : List (String × Json)) : Members :=
  pairs.foldl (fun members p => insert members p.1 p.2) []

/-- The keys in order. -/
def keys (members : Members) : List String := members.map (·.1)

/-- The values in the order of their keys. -/
def values (members : Members) : List Json := members.map (·.2)

/-- The string under a key. -/
def string? (members : Members) (key : String) : Option String :=
  match members.get? key with
  | some (.str text) => some text
  | _ => none

/-- The list under a key. -/
def list? (members : Members) (key : String) : Option (List Json) :=
  match members.get? key with
  | some (.arr items) => some items
  | _ => none

/-- The object under a key. -/
def object? (members : Members) (key : String) : Option Members :=
  match members.get? key with
  | some (.obj inner) => some inner
  | _ => none

/-- The truth value under a key. -/
def bool? (members : Members) (key : String) : Option Bool :=
  match members.get? key with
  | some (.bool value) => some value
  | _ => none

@[simp] theorem get?_nil (key : String) : get? [] key = none := rfl

theorem get?_cons (k : String) (v : Json) (rest : Members) (key : String) :
    get? ((k, v) :: rest) key = if key = k then some v else get? rest key := rfl

/-- Looking up a key after setting one: the value set last is found, others stay. -/
theorem get?_insert (members : Members) (key : String) (value : Json) (other : String) :
    (members.insert key value).get? other =
      if other = key then some value else members.get? other := by
  induction members with
  | nil => simp [insert, get?]
  | cons m rest ih =>
    obtain ⟨k, v⟩ := m
    simp only [insert]
    split
    · simp [get?]
    · split
      · subst_vars
        simp only [get?]
        split <;> rfl
      · simp only [get?, ih]
        split <;> split <;> simp_all

/-- Looking up a key after erasing one: the erased key is gone, others stay. -/
theorem get?_erase (members : Members) (key other : String) :
    (members.erase key).get? other = if other = key then none else members.get? other := by
  induction members with
  | nil => simp [erase]
  | cons m rest ih =>
    obtain ⟨k, v⟩ := m
    simp only [erase]
    split
    · subst_vars
      simp only [get?, ih]
      split <;> rfl
    · simp only [get?, ih]
      split <;> split <;> simp_all

/-- Setting a key and erasing it again is erasing it. -/
@[simp] theorem erase_insert_self (members : Members) (key : String) (value : Json) :
    (members.insert key value).erase key = members.erase key := by
  induction members with
  | nil => simp [insert, erase]
  | cons m rest ih =>
    obtain ⟨k, v⟩ := m
    simp only [insert]
    split
    · simp [erase]
    · split
      · simp_all [erase]
      · simp [erase, ih]

/-- The order in which keys are erased does not matter. -/
theorem erase_comm (members : Members) (key other : String) :
    (members.erase key).erase other = (members.erase other).erase key := by
  induction members with
  | nil => rfl
  | cons m rest ih =>
    obtain ⟨k, v⟩ := m
    by_cases hk : key = k <;> by_cases ho : other = k <;> simp [erase, hk, ho] <;> simp_all

@[simp] theorem get?_insert_self (members : Members) (key : String) (value : Json) :
    (members.insert key value).get? key = some value := by simp [get?_insert]

@[simp] theorem get?_erase_self (members : Members) (key : String) :
    (members.erase key).get? key = none := by simp [get?_erase]

end Members

namespace Json

/-- The value of a member; a value that is no object has none. -/
def get? (value : Json) (key : String) : Option Json :=
  match value with
  | .obj members => Members.get? members key
  | _ => none

/-- The text of a string. -/
def asString? : Json → Option String
  | .str text => some text
  | _ => none

/-- The truth value of a boolean. -/
def asBool? : Json → Option Bool
  | .bool value => some value
  | _ => none

/-- The items of a list. -/
def asList? : Json → Option (List Json)
  | .arr items => some items
  | _ => none

/-- The members of an object. -/
def asObject? : Json → Option Members
  | .obj members => some members
  | _ => none

/-- The first number beyond 64 bits with sign. -/
def signedLimit : Int := 0x8000000000000000

/-- The number of an integer that fits 64 bits with sign. -/
def asInt64? : Json → Option Int
  | .int n => if -signedLimit ≤ n ∧ n < signedLimit then some n else none
  | _ => none

/-- The number of an integer that is not negative. -/
def asNat? : Json → Option Nat
  | .int n => if 0 ≤ n then some n.toNat else none
  | _ => none

/-- A list of strings. -/
def ofStrings (texts : List String) : Json := .arr (texts.map .str)

/-- A list of objects. -/
def ofObjects (objects : List Members) : Json := .arr (objects.map .obj)

/-- The values directly below a value: the items of a list, the values of an object. -/
def children : Json → List Json
  | .arr items => items
  | .obj members => members.map (·.2)
  | _ => []

mutual

/-- Equality of values, with floats compared by what they stand for. -/
def sameValue : Json → Json → Bool
  | .null, .null => true
  | .bool a, .bool b => a == b
  | .int a, .int b => a == b
  | .float a, .float b => a.sameValue b
  | .str a, .str b => a == b
  | .arr a, .arr b => sameItems a b
  | .obj a, .obj b => sameMembers a b
  | _, _ => false

/-- Equality of two lists item by item. -/
def sameItems : List Json → List Json → Bool
  | [], [] => true
  | a :: as, b :: bs => sameValue a b && sameItems as bs
  | _, _ => false

/-- Equality of two objects member by member. -/
def sameMembers : List (String × Json) → List (String × Json) → Bool
  | [], [] => true
  | (j, a) :: as, (k, b) :: bs => j == k && sameValue a b && sameMembers as bs
  | _, _ => false

end

end Json

end ApiGateway
