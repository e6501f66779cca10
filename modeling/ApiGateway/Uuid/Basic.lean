import ApiGateway.Number.Hexadecimal
import ApiGateway.Uuid.Sha1

/-!
# Universally unique identifiers

Identifiers of 128 bits with their text forms, and name-based identifiers: the digest of a
namespace and a name, cut to 128 bits and marked as version 5.

## Main definitions

* `Uuid`: an identifier, and `Uuid.text`, its hyphenated form in lower case.
* `Uuid.parse?`: the hyphenated, plain, braced and prefixed forms in either case.
* `Uuid.named`: the identifier of a name in a namespace.
* `Uuid.random`: an identifier out of random bytes.
-/
namespace ApiGateway

/-- An identifier of 128 bits. -/
structure Uuid where
  bits : BitVec 128
  deriving DecidableEq, Inhabited, Repr

namespace Uuid

/-- The namespace of domain names, the default one. -/
def dns : Uuid := ⟨0x6ba7b8109dad11d180b400c04fd430c8#128⟩

/-- The thirty-two hexadecimal digits, most significant first. -/
def digits (u : Uuid) : List Char := Hexadecimal.digits 32 u.bits.toNat

/-- Puts hyphens into thirty-two digits, which leaves groups of 8, 4, 4, 4 and 12. -/
def hyphenate (ds : List Char) : List Char :=
  let group (start size : Nat) := (ds.drop start).take size
  List.intercalate ['-'] [group 0 8, group 8 4, group 12 4, group 16 4, group 20 12]

/-- The hyphenated text of an identifier. -/
def text (u : Uuid) : String := String.ofList (hyphenate u.digits)

/-- The identifier that thirty-two digits stand for. -/
def ofDigits? (ds : List Char) : Option Uuid :=
  if ds.length = 32 then
    let value := ds.foldlM (fun n c => (Hexadecimal.digitValue? c).map (16 * n + ·)) 0
    value.map fun n => ⟨BitVec.ofNat 128 n⟩
  else none

/-- The identifier of a hyphenated text. -/
def ofHyphenated? (cs : List Char) : Option Uuid :=
  let ds := cs.filter (· ≠ '-')
  if hyphenate ds = cs then ofDigits? ds else none

/-- Reads an identifier: hyphenated, as plain digits, in braces, or after `urn:uuid:`. -/
def parse? (source : String) : Option Uuid :=
  let cs := source.toList
  let urn := "urn:uuid:".toList
  if cs.length = 32 then ofDigits? cs
  else if cs.length = 36 then ofHyphenated? cs
  else if cs.length = 38 ∧ cs.head? = some '\x7b' ∧ cs.getLast? = some '\x7d' then
    ofHyphenated? (cs.drop 1).dropLast
  else if cs.length = 45 ∧ cs.take 9 = urn then ofHyphenated? (cs.drop 9)
  else none

/-- The sixteen bytes of an identifier. -/
def bytes (u : Uuid) : List UInt8 := Sha1.bigEndian 16 u.bits.toNat

/-- The identifier made of sixteen bytes, with a version and the standard variant marked. -/
def ofBytes (version : BitVec 4) (bytes : List UInt8) : Uuid :=
  let raw : BitVec 128 := BitVec.ofNat 128 (bytes.foldl (fun n b => 256 * n + b.toNat) 0)
  let versionBits : BitVec 128 := version.setWidth 128 <<< 76
  let versionMask : BitVec 128 := 0xf#128 <<< 76
  let variantBits : BitVec 128 := 0x8#128 <<< 60
  let variantMask : BitVec 128 := 0xc#128 <<< 60
  ⟨(raw &&& ~~~(versionMask ||| variantMask)) ||| versionBits ||| variantBits⟩

/-- The identifier of a name in a namespace: the first 128 bits of the digest of both, marked as
version 5. -/
def named (space : Uuid) (name : String) : Uuid :=
  ofBytes 5 ((Sha1.digest (space.bytes ++ name.toUTF8.toList)).take 16)

/-- The identifier made of sixteen random bytes, marked as version 4. -/
def random (bytes : List UInt8) : Uuid := ofBytes 4 bytes

end Uuid

end ApiGateway
