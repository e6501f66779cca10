/-!
# Finite double-precision numbers

A `Binary64` is a finite number `(-1)^s * m * 2^q` with a significand of at most 53 bits.
`Binary64.ofDecimal?` rounds a decimal to the nearest such number, ties to an even
significand; `Binary64.shortest` goes back to the decimal with the fewest digits that
rounds to the number, so that text and number are kept apart everywhere else.

## Main definitions

* `Binary64`: sign, significand and binary exponent.
* `Decimal`: a natural number of digits with a power of ten.
* `Binary64.ofDecimal?`: rounding to nearest, `none` beyond the largest finite number.
* `Binary64.readsBack`: the decimals that round to a number.
* `Binary64.shortest`: the fewest digits that read back, the nearest of them.
-/
namespace ApiGateway

/-- The number `(-1)^negative * significand * 2^exponent`; zero keeps its sign. -/
structure Binary64 where
  negative : Bool
  significand : Nat
  exponent : Int
  deriving DecidableEq, Inhabited, Repr

/-- The number `digits * 10^scale`. -/
structure Decimal where
  digits : Nat
  scale : Int
  deriving DecidableEq, Inhabited, Repr

/-- The quotient rounded to the nearest natural number, a tie to the even neighbour. -/
def roundHalfEven (num den : Nat) : Nat :=
  let q := num / den
  let r := num % den
  if 2 * r < den then q
  else if den < 2 * r then q + 1
  else q + q % 2

namespace Binary64

/-- The exponent of the subnormal numbers, the least one. -/
def minExponent : Int := -1074

/-- The exponent of the largest finite numbers. -/
def maxExponent : Int := 971

/-- Zero with the given sign. -/
def zero (negative : Bool) : Binary64 := ⟨negative, 0, minExponent⟩

/-- The numerator and denominator of `num / den * 2^(-q)`. -/
def scaleDown (num den : Nat) (q : Int) : Nat × Nat :=
  (num <<< (-q).toNat, den <<< q.toNat)

/-- Rounds the positive fraction `num / den` to nearest. The exponent is the one that
leaves 53 bits before the point, or the least exponent. -/
def ofFraction? (negative : Bool) (num den : Nat) : Option Binary64 :=
  let guess : Int := (num.log2 : Int) - (den.log2 : Int) - 52
  let wide := scaleDown num den guess
  let q := max minExponent (if wide.1 < wide.2 <<< 52 then guess - 1 else guess)
  let (n, d) := scaleDown num den q
  let m := roundHalfEven n d
  let (m, q) := if m = 1 <<< 53 then (1 <<< 52, q + 1) else (m, q)
  if q ≤ maxExponent then some ⟨negative, m, q⟩ else none

/-- The number nearest to a decimal, or `none` when it lies beyond the finite range.
Decimals far outside the range are settled by their digit count alone. -/
def ofDecimal? (negative : Bool) (d : Decimal) : Option Binary64 :=
  let magnitude : Int := (Nat.toDigits 10 d.digits).length + d.scale
  if d.digits = 0 ∨ magnitude < -400 then some (zero negative)
  else if 400 < magnitude then none
  else ofFraction? negative (d.digits * Nat.pow 10 d.scale.toNat)
    (Nat.pow 10 (-d.scale).toNat)

/-- Compares `a * 10^i` with `n * 2^j`. -/
def compareScaled (a : Nat) (i : Int) (n : Nat) (j : Int) : Ordering :=
  compare ((a * Nat.pow 10 i.toNat) <<< (-j).toNat) ((n * Nat.pow 10 (-i).toNat) <<< j.toNat)

/-- Whether a decimal lies in the interval of reals that round to the magnitude of `x`. The
ends belong to it when the significand is even, and the interval is narrower below a power
of two. -/
def readsBack (x : Binary64) (d : Decimal) : Bool :=
  let narrow := x.significand = 1 <<< 52 ∧ minExponent < x.exponent
  let low := if narrow then 4 * x.significand - 1 else 4 * x.significand - 2
  let high := 4 * x.significand + 2
  let closed := x.significand % 2 = 0
  let atLow := compareScaled d.digits d.scale low (x.exponent - 2)
  let atHigh := compareScaled d.digits d.scale high (x.exponent - 2)
  (atLow = .gt ∨ (closed ∧ atLow = .eq)) ∧ (atHigh = .lt ∨ (closed ∧ atHigh = .eq))

/-- The least `k` with `x < 10^k`, for `x` not zero: an estimate from the binary logarithm,
corrected by one step either way. -/
def decimalExponent (x : Binary64) : Int :=
  let bits : Int := (x.significand.log2 : Int) + x.exponent
  let guess : Int := bits * 30103 / 100000 + 1
  if compareScaled 1 guess x.significand x.exponent ≠ .gt then guess + 1
  else if compareScaled 1 (guess - 1) x.significand x.exponent = .gt then guess - 1
  else guess

/-- The neighbours of the magnitude of `x` on the grid of step `10^scale` that read back,
the nearer one first choice and an even digit the choice between equally near ones. -/
def onGrid? (x : Binary64) (scale : Int) : Option Decimal :=
  let num := (x.significand * Nat.pow 10 (-scale).toNat) <<< x.exponent.toNat
  let den := Nat.pow 10 scale.toNat <<< (-x.exponent).toNat
  let below := num / den
  let nearer := roundHalfEven num den
  let other := if nearer = below then below + 1 else below
  if x.readsBack ⟨nearer, scale⟩ then some ⟨nearer, scale⟩
  else if x.readsBack ⟨other, scale⟩ then some ⟨other, scale⟩
  else none

/-- Moves trailing zeros of the digits into the power of ten, `steps` of them at most. -/
def stripZeros (steps : Nat) (d : Decimal) : Decimal :=
  match steps with
  | 0 => d
  | steps + 1 =>
    if d.digits ≠ 0 ∧ d.digits % 10 = 0 then stripZeros steps ⟨d.digits / 10, d.scale + 1⟩
    else d

/-- The decimal of fewest digits that rounds to the magnitude of `x`. Seventeen digits always
suffice; the exact value stands behind them. -/
def shortest (x : Binary64) : Decimal :=
  if x.significand = 0 then ⟨0, 0⟩
  else
    let k := x.decimalExponent
    match (List.range 17).findSome? fun (n : Nat) => x.onGrid? (k - (n + 1)) with
    | some d => stripZeros 20 d
    | none =>
      ⟨(x.significand * Nat.pow 5 (-x.exponent).toNat) <<< x.exponent.toNat, min 0 x.exponent⟩

/-- Numerical equality: the two zeros are one number. -/
def sameValue (x y : Binary64) : Bool :=
  x = y ∨ (x.significand = 0 ∧ y.significand = 0)

@[simp] theorem sameValue_refl (x : Binary64) : x.sameValue x = true := by simp [sameValue]

/-- The numbers zero of either sign are equal in value. -/
@[simp] theorem sameValue_zero (s t : Bool) : (zero s).sameValue (zero t) = true := by
  simp [sameValue, zero]

end Binary64

end ApiGateway
