import ApiGateway.Number.Binary64

/-!
# Decimal numerals

Numerals as text: an optional sign, digits, an optional point with more digits and an
optional power of ten. `Numeral.read?` splits a text into these parts, `Numeral.value` is the
decimal they stand for, and `Binary64.text` writes a double-precision number so that it reads
back: digits as few as possible, positional from `0.00001` up to below `10^16`, with a signed
power of ten elsewhere, and always with a mark that tells it from an integer.

## Main definitions

* `Numeral`: the parts of a numeral.
* `Numeral.read?`: the reader of the loose grammar, where one side of the point may be empty.
* `Numeral.isStrict`: the numerals without leading zeros or empty parts.
* `Binary64.text`, `Binary64.textWith`: the written form of a number.
-/
namespace ApiGateway

/-- The parts of a numeral. Without a point `fraction` is `none`, without a power of ten
`power` is `none`. -/
structure Numeral where
  sign : Option Char
  whole : List Char
  fraction : Option (List Char)
  power : Option Int
  deriving DecidableEq, Inhabited, Repr

namespace Numeral

/-- The natural number that decimal digits stand for. -/
def ofDigits (digits : List Char) : Nat :=
  digits.foldl (fun n c => 10 * n + (c.toNat - '0'.toNat)) 0

/-- A leading sign and what follows it. -/
def splitSign : List Char → Option Char × List Char
  | '+' :: rest => (some '+', rest)
  | '-' :: rest => (some '-', rest)
  | rest => (none, rest)

/-- The power of ten: nothing, or a mark `e` with an optional sign and at least one digit,
up to the end. -/
def readPower? : List Char → Option (Option Int)
  | [] => some none
  | c :: rest =>
    if c = 'e' ∨ c = 'E' then
      let (sign, digits) := splitSign rest
      if digits ≠ [] ∧ digits.all Char.isDigit then
        let n : Int := ofDigits digits
        some (some (if sign = some '-' then -n else n))
      else none
    else none

/-- The parts of a numeral that fills the whole text and has a digit next to its point. -/
def read? (text : List Char) : Option Numeral :=
  let (sign, body) := splitSign text
  let whole := body.takeWhile Char.isDigit
  match body.dropWhile Char.isDigit with
  | '.' :: rest =>
    let fraction := rest.takeWhile Char.isDigit
    if whole = [] ∧ fraction = [] then none
    else (readPower? (rest.dropWhile Char.isDigit)).map (⟨sign, whole, some fraction, ·⟩)
  | rest =>
    if whole = [] then none
    else (readPower? rest).map (⟨sign, whole, none, ·⟩)

/-- Whether the numeral has no plus sign, no superfluous leading zero and digits on both
sides of its point. -/
def isStrict (n : Numeral) : Bool :=
  n.sign ≠ some '+' ∧ n.whole ≠ [] ∧ (n.whole.length = 1 ∨ n.whole.head? ≠ some '0') ∧
    n.fraction ≠ some []

/-- Whether the numeral has neither a point nor a power of ten. -/
def isInteger (n : Numeral) : Bool := n.fraction.isNone && n.power.isNone

/-- Whether the numeral carries a minus sign. -/
def isNegative (n : Numeral) : Bool := n.sign = some '-'

/-- The magnitude the numeral stands for. -/
def value (n : Numeral) : Decimal :=
  let fraction := n.fraction.getD []
  ⟨ofDigits (n.whole ++ fraction), n.power.getD 0 - fraction.length⟩

/-- The nearest finite double-precision number, if there is one. -/
def toBinary64? (n : Numeral) : Option Binary64 := Binary64.ofDecimal? n.isNegative n.value

end Numeral

/-- Writes an integer with a minus sign only. -/
def integerText (n : Int) : String :=
  if n < 0 then "-" ++ toString n.natAbs else toString n.natAbs

/-- The digits of a positive magnitude `0.d₁d₂… * 10^point`, written positionally for a point
between -4 and 16, else with one digit before the point and a power of ten, which has the mark
`plus` unless it is negative. -/
def positionalText (plus : String) (digits : List Char) (point : Int) : List Char :=
  let zeros (n : Nat) : List Char := List.replicate n '0'
  if 0 < point ∧ point ≤ 16 then
    let n := point.toNat
    if digits.length ≤ n then digits ++ zeros (n - digits.length) ++ ".0".toList
    else digits.take n ++ '.' :: digits.drop n
  else if -5 < point ∧ point ≤ 0 then "0.".toList ++ zeros (-point).toNat ++ digits
  else
    let power := point - 1
    let mark := if power < 0 then "e-".toList else 'e' :: plus.toList
    let head := match digits with
      | d :: e :: rest => d :: '.' :: e :: rest
      | short => short
    head ++ mark ++ (toString power.natAbs).toList

/-- The written form of a number, with a mark for powers of ten that are not negative; it is
never the form of an integer. -/
def Binary64.textWith (plus : String) (x : Binary64) : String :=
  let magnitude :=
    if x.significand = 0 then "0.0".toList
    else
      let d := x.shortest
      let digits := Nat.toDigits 10 d.digits
      positionalText plus digits (digits.length + d.scale)
  String.ofList (if x.negative then '-' :: magnitude else magnitude)

/-- The written form of a number with a sign for every power of ten. -/
def Binary64.text (x : Binary64) : String := x.textWith "+"

end ApiGateway
