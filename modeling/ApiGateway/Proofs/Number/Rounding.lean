import ApiGateway.Number.Binary64
import Mathlib.Algebra.Order.Field.Power
import Mathlib.Data.Int.Log
import Mathlib.Data.Rat.Floor
import Mathlib.Tactic.FieldSimp
import Mathlib.Tactic.Linarith
import Mathlib.Tactic.Qify

/-!
# Rounding to double precision

A number has an interval of rationals around it, half a unit in its last place to either side and
half of that below a power of two. All of them round to the number, and the decimal that is chosen
for it is one of them, so that it reads back. The tests on naturals are those on rationals after
multiplying with the powers of two and ten that stand in a denominator.

## Main definitions

* `Decimal.toRat`: the rational that a decimal stands for.
* `Binary64.Canonical`: numbers with the one exponent that fits them.
* `Binary64.Rounds`: the interval of a number.

## Main results

* `Binary64.readsBack_iff`: the decimals that read back are those in the interval.
* `Binary64.ofFraction?_eq`, `Binary64.ofDecimal?_eq`: what lies in the interval is rounded to the
  number.
* `Binary64.ofDecimal?_of_shortest`: the shortest decimal of a number reads back.
-/
namespace ApiGateway

/-- The rational that a decimal stands for. -/
def Decimal.toRat (d : Decimal) : ℚ := d.digits * (10 : ℚ) ^ d.scale

/-- A power with an exponent of either sign is a quotient of two powers, one of which is one. -/
theorem zpow_eq_div {b : ℚ} (i : ℤ) : b ^ i = b ^ i.toNat / b ^ (-i).toNat := by
  rcases Int.le_total 0 i with h | h
  · obtain ⟨n, rfl⟩ := Int.eq_ofNat_of_zero_le h
    simp
  · obtain ⟨n, rfl⟩ := Int.exists_eq_neg_ofNat h
    simp

namespace Binary64

/-- A number whose exponent is the least one that leaves a significand of at most 53 bits. -/
structure Canonical (x : Binary64) : Prop where
  significand_lt : x.significand < 2 ^ 53
  minExponent_le : minExponent ≤ x.exponent
  exponent_le : x.exponent ≤ maxExponent
  exponent_eq : x.significand < 2 ^ 52 → x.exponent = minExponent

/-- The lower end of the interval of a number, in quarters of a unit in its last place. Below a power
of two the numbers are twice as close. -/
def low (x : Binary64) : ℕ :=
  if x.significand = 2 ^ 52 ∧ minExponent < x.exponent then 4 * x.significand - 1
  else 4 * x.significand - 2

/-- The rationals that round to the magnitude of a number. The ends of the interval do when the
significand is even. -/
structure Rounds (x : Binary64) (r : ℚ) : Prop where
  below : x.low * (2 : ℚ) ^ (x.exponent - 2) < r ∨
    x.significand % 2 = 0 ∧ r = x.low * (2 : ℚ) ^ (x.exponent - 2)
  above : r < (4 * x.significand + 2 : ℕ) * (2 : ℚ) ^ (x.exponent - 2) ∨
    x.significand % 2 = 0 ∧ r = (4 * x.significand + 2 : ℕ) * (2 : ℚ) ^ (x.exponent - 2)

/-! ## Comparing -/

/-- Naturals are compared as the rationals that they stand for after scaling. -/
theorem compareScaled_eq (a : ℕ) (i : ℤ) (n : ℕ) (j : ℤ) :
    compareScaled a i n j = cmp (a * (10 : ℚ) ^ i) (n * (2 : ℚ) ^ j) := by
  have hscale : (0 : ℚ) < 10 ^ (-i).toNat * 2 ^ (-j).toNat := by positivity
  have ha : a * (10 : ℚ) ^ i * (10 ^ (-i).toNat * 2 ^ (-j).toNat) =
      ((a * Nat.pow 10 i.toNat) <<< (-j).toNat : ℕ) := by
    rw [zpow_eq_div, Nat.shiftLeft_eq]
    push_cast [Nat.pow_eq]
    field_simp
  have hn : n * (2 : ℚ) ^ j * (10 ^ (-i).toNat * 2 ^ (-j).toNat) =
      ((n * Nat.pow 10 (-i).toNat) <<< j.toNat : ℕ) := by
    rw [zpow_eq_div, Nat.shiftLeft_eq]
    push_cast [Nat.pow_eq]
    field_simp
  rw [← cmp_mul_pos_right hscale, ha, hn, compareScaled, ← cmp_eq_compare]
  exact (Nat.strictMono_cast.cmp_map_eq _ _).symm

theorem compareScaled_eq_gt_iff {a : ℕ} {i : ℤ} {n : ℕ} {j : ℤ} :
    compareScaled a i n j = .gt ↔ n * (2 : ℚ) ^ j < a * (10 : ℚ) ^ i := by
  rw [compareScaled_eq, cmp_eq_gt_iff]

theorem compareScaled_eq_eq_iff {a : ℕ} {i : ℤ} {n : ℕ} {j : ℤ} :
    compareScaled a i n j = .eq ↔ a * (10 : ℚ) ^ i = n * (2 : ℚ) ^ j := by
  rw [compareScaled_eq, cmp_eq_eq_iff]

theorem compareScaled_eq_lt_iff {a : ℕ} {i : ℤ} {n : ℕ} {j : ℤ} :
    compareScaled a i n j = .lt ↔ a * (10 : ℚ) ^ i < n * (2 : ℚ) ^ j := by
  rw [compareScaled_eq, cmp_eq_lt_iff]

/-- The decimals that read back are those in the interval. -/
theorem readsBack_iff {x : Binary64} {d : Decimal} : x.readsBack d = true ↔ x.Rounds d.toRat := by
  have hlow : (if x.significand = 1 <<< 52 ∧ minExponent < x.exponent then 4 * x.significand - 1
      else 4 * x.significand - 2) = x.low := rfl
  simp only [readsBack, decide_eq_true_eq, hlow, compareScaled_eq_gt_iff, compareScaled_eq_eq_iff,
    compareScaled_eq_lt_iff]
  constructor
  · intro h
    exact ⟨h.1, h.2⟩
  · intro h
    exact ⟨h.below, h.above⟩

/-! ## Rounding fractions -/

/-- A quotient within half of a natural number is rounded to it, a quotient at half only when the
number is even. -/
theorem roundHalfEven_eq {num den m : ℕ} (hden : 0 < den)
    (hbelow : (m : ℚ) - 1 / 2 < num / den ∨ m % 2 = 0 ∧ (num : ℚ) / den = m - 1 / 2)
    (habove : (num : ℚ) / den < m + 1 / 2 ∨ m % 2 = 0 ∧ (num : ℚ) / den = m + 1 / 2) :
    roundHalfEven num den = m := by
  have hpos : (0 : ℚ) < den := Nat.cast_pos.2 hden
  rw [lt_div_iff₀ hpos, div_eq_iff hpos.ne'] at hbelow
  rw [div_lt_iff₀ hpos, div_eq_iff hpos.ne'] at habove
  have hlow : 2 * (m * den) < 2 * num + den ∨ m % 2 = 0 ∧ 2 * (m * den) = 2 * num + den := by
    refine hbelow.imp (fun h => ?_) (And.imp_right fun h => ?_)
    · qify
      linarith
    · qify
      linarith
  have hhigh : 2 * num < 2 * (m * den) + den ∨ m % 2 = 0 ∧ 2 * num = 2 * (m * den) + den := by
    refine habove.imp (fun h => ?_) (And.imp_right fun h => ?_)
    · qify
      linarith
    · qify
      linarith
  have hsplit := Nat.div_add_mod' num den
  have hmod := Nat.mod_lt num hden
  -- the quotient without its fraction is the number or the one before it
  have hquotient : m = num / den ∨ m = num / den + 1 := by
    have hle : num / den ≤ m := by
      by_contra hlt
      have := Nat.mul_le_mul_right den (Nat.succ_le_of_lt (not_le.1 hlt))
      rw [Nat.succ_mul] at this
      omega
    have hge : m ≤ num / den + 1 := by
      by_contra hlt
      have := Nat.mul_le_mul_right den (Nat.succ_le_of_lt (not_le.1 hlt))
      rw [Nat.succ_mul, Nat.succ_mul] at this
      omega
    omega
  unfold roundHalfEven
  dsimp only
  obtain rfl | rfl := hquotient
  · split
    · rfl
    · split <;> omega
  · rw [Nat.succ_mul (num / den)] at hlow hhigh
    split
    · omega
    · split <;> omega

/-- Scaling down divides by a power of two. -/
theorem scaleDown_div (num den : ℕ) (q : ℤ) :
    ((scaleDown num den q).1 : ℚ) / (scaleDown num den q).2 = num / den / 2 ^ q := by
  simp only [scaleDown, Nat.shiftLeft_eq]
  rw [zpow_eq_div q]
  push_cast
  field_simp

theorem scaleDown_pos {den : ℕ} (hden : 0 < den) (num : ℕ) (q : ℤ) :
    0 < (scaleDown num den q).2 := by
  simp only [scaleDown, Nat.shiftLeft_eq]
  positivity

/-- How a fraction compares with a power of two, in units of another one, tells its logarithm. -/
theorem div_zpow_lt_iff {r : ℚ} (hr : 0 < r) (q : ℤ) (i : ℕ) :
    r / 2 ^ q < 2 ^ i ↔ Int.log 2 r < q + i := by
  have hunit : (0 : ℚ) < 2 ^ q := by positivity
  have hlog : r < ((2 : ℕ) : ℚ) ^ (q + i) ↔ Int.log 2 r < q + i :=
    Int.lt_zpow_iff_log_lt one_lt_two hr
  rw [← hlog, div_lt_iff₀ hunit, Nat.cast_ofNat, zpow_add₀ two_ne_zero, zpow_natCast, mul_comm]

/-- The same on naturals. -/
theorem scaleDown_lt_iff {num den : ℕ} (hnum : 0 < num) (hden : 0 < den) (q : ℤ) (i : ℕ) :
    (scaleDown num den q).1 < 2 ^ i * (scaleDown num den q).2 ↔
      Int.log 2 ((num : ℚ) / den) < q + i := by
  have hr : (0 : ℚ) < num / den := by positivity
  have hscaled : (0 : ℚ) < (scaleDown num den q).2 := Nat.cast_pos.2 (scaleDown_pos hden ..)
  rw [← div_zpow_lt_iff hr, ← scaleDown_div, div_lt_iff₀ hscaled]
  norm_cast

/-- The binary logarithms of both sides leave two logarithms of a fraction. -/
theorem log_div_bounds {num den : ℕ} (hnum : 0 < num) (hden : 0 < den) :
    (num.log2 : ℤ) - den.log2 - 1 ≤ Int.log 2 ((num : ℚ) / den) ∧
      Int.log 2 ((num : ℚ) / den) < num.log2 - den.log2 + 1 := by
  have hr : (0 : ℚ) < num / den := by positivity
  have hpos : (0 : ℚ) < den := Nat.cast_pos.2 hden
  have hnum₁ : (2 : ℚ) ^ num.log2 ≤ num := mod_cast Nat.log2_self_le hnum.ne'
  have hnum₂ : (num : ℚ) < 2 ^ (num.log2 + 1) := mod_cast Nat.lt_log2_self
  have hden₁ : (2 : ℚ) ^ den.log2 ≤ den := mod_cast Nat.log2_self_le hden.ne'
  have hden₂ : (den : ℚ) < 2 ^ (den.log2 + 1) := mod_cast Nat.lt_log2_self
  have hpower : ∀ (a b : ℕ) (i : ℤ), i + b = a → (2 : ℚ) ^ i * 2 ^ b = 2 ^ a := by
    intro a b i h
    rw [← zpow_natCast, ← zpow_natCast, ← zpow_add₀ two_ne_zero, h]
  constructor
  · rw [← Int.zpow_le_iff_le_log one_lt_two hr, le_div_iff₀ hpos, Nat.cast_ofNat]
    calc (2 : ℚ) ^ ((num.log2 : ℤ) - den.log2 - 1) * den
        ≤ 2 ^ ((num.log2 : ℤ) - den.log2 - 1) * 2 ^ (den.log2 + 1) := by gcongr
      _ = 2 ^ num.log2 := hpower _ _ _ (by omega)
      _ ≤ num := hnum₁
  · rw [← Int.lt_zpow_iff_log_lt one_lt_two hr, div_lt_iff₀ hpos, Nat.cast_ofNat]
    calc (num : ℚ) < 2 ^ (num.log2 + 1) := hnum₂
      _ = 2 ^ ((num.log2 : ℤ) - den.log2 + 1) * 2 ^ den.log2 := (hpower _ _ _ (by omega)).symm
      _ ≤ 2 ^ ((num.log2 : ℤ) - den.log2 + 1) * den := by gcongr

/-- The exponent of a fraction is the one that leaves 53 bits before its point. -/
theorem exponent_eq_log {num den : ℕ} (hnum : 0 < num) (hden : 0 < den) {guess : ℤ}
    (hguess : guess = (num.log2 : ℤ) - den.log2 - 52) :
    (if (scaleDown num den guess).1 < (scaleDown num den guess).2 <<< 52 then guess - 1
      else guess) = Int.log 2 ((num : ℚ) / den) - 52 := by
  obtain ⟨hge, hlt⟩ := log_div_bounds hnum hden
  have hwide := scaleDown_lt_iff hnum hden guess 52
  rw [Nat.shiftLeft_eq, mul_comm]
  split
  · rename_i h
    have := hwide.1 h
    omega
  · rename_i h
    have := mt hwide.2 h
    omega

/-- What the rounding of a fraction does at its exponent. -/
theorem ofFraction?_def (negative : Bool) {num den : ℕ} (hnum : 0 < num) (hden : 0 < den) {q : ℤ}
    (hq : q = max minExponent (Int.log 2 ((num : ℚ) / den) - 52)) :
    ofFraction? negative num den =
      let m := roundHalfEven (scaleDown num den q).1 (scaleDown num den q).2
      if m = 2 ^ 53 then if q + 1 ≤ maxExponent then some ⟨negative, 2 ^ 52, q + 1⟩ else none
      else if q ≤ maxExponent then some ⟨negative, m, q⟩ else none := by
  have hexponent := exponent_eq_log hnum hden rfl
  unfold ofFraction?
  dsimp only at hexponent ⊢
  rw [hexponent, ← hq]
  simp only [show (1 <<< 53 : ℕ) = 2 ^ 53 from rfl, show (1 <<< 52 : ℕ) = 2 ^ 52 from rfl]
  split <;> rfl

section Rounding
variable {x : Binary64} {r : ℚ}

/-- The interval of a number, in units of its last place. Only below a power of two is it narrower
than a unit. -/
theorem Rounds.scaled (h : x.Rounds r) :
    ((x.significand : ℚ) - 1 / 2 < r / 2 ^ x.exponent ∨
      x.significand % 2 = 0 ∧ r / 2 ^ x.exponent = x.significand - 1 / 2) ∧
    (r / 2 ^ x.exponent < x.significand + 1 / 2 ∨
      x.significand % 2 = 0 ∧ r / 2 ^ x.exponent = x.significand + 1 / 2) ∧
    (x.significand = 2 ^ 52 → minExponent < x.exponent →
      (2 : ℚ) ^ 52 - 1 / 4 ≤ r / 2 ^ x.exponent) := by
  have hpos : (0 : ℚ) < 2 ^ x.exponent := by positivity
  have hquarter : (2 : ℚ) ^ (x.exponent - 2) = 2 ^ x.exponent / 4 := by
    rw [zpow_sub₀ two_ne_zero]
    norm_num
  have hr : r = r / 2 ^ x.exponent * 2 ^ x.exponent := (div_mul_cancel₀ r hpos.ne').symm
  have hlow : (4 * x.significand : ℚ) ≤ x.low + 2 := by
    have : 4 * x.significand ≤ x.low + 2 := by
      unfold low
      split <;> omega
    exact_mod_cast this
  obtain ⟨hbelow, habove⟩ := h
  rw [hquarter] at hbelow habove
  generalize r / 2 ^ x.exponent = y at hr ⊢
  subst hr
  -- both ends are multiples of the unit, which is positive
  have hends : ∀ a : ℚ, (a * (2 ^ x.exponent / 4) < y * 2 ^ x.exponent ↔ a < 4 * y) ∧
      (y * 2 ^ x.exponent < a * (2 ^ x.exponent / 4) ↔ 4 * y < a) ∧
      (y * 2 ^ x.exponent = a * (2 ^ x.exponent / 4) ↔ 4 * y = a) := by
    intro a
    have hquarters : y * 2 ^ x.exponent = 4 * y * (2 ^ x.exponent / 4) := by ring
    have hunit : (0 : ℚ) < 2 ^ x.exponent / 4 := by positivity
    rw [hquarters]
    exact ⟨mul_lt_mul_iff_left₀ hunit, mul_lt_mul_iff_left₀ hunit, mul_left_inj' hunit.ne'⟩
  rw [(hends _).1, (hends _).2.2] at hbelow
  rw [(hends _).2.1, (hends _).2.2] at habove
  push_cast at habove
  refine ⟨?_, ?_, ?_⟩
  · rcases hbelow with hlt | ⟨heven, heq⟩
    · left
      linarith
    · rcases hlow.lt_or_eq with hlt | heq'
      · left
        linarith
      · right
        exact ⟨heven, by linarith⟩
  · refine habove.imp (fun hlt => ?_) (And.imp_right fun heq => ?_) <;> linarith
  · intro hm hmin
    have hnarrow : x.low = 4 * 2 ^ 52 - 1 := by rw [low, if_pos ⟨hm, hmin⟩, hm]
    have hle : (x.low : ℚ) ≤ 4 * y := hbelow.elim le_of_lt fun h => h.2.ge
    rw [hnarrow] at hle
    norm_num at hle ⊢
    linarith

/-- What lies in the interval of a number is rounded to it. The exponent is that of the number, or
the one before it for what is below a power of two, which is rounded up to the power. -/
theorem ofFraction?_eq (hx : x.Canonical) (hpos : 0 < x.significand) {num den : ℕ} (hnum : 0 < num)
    (hden : 0 < den) (h : x.Rounds ((num : ℚ) / den)) :
    ofFraction? x.negative num den = some x := by
  have hr : (0 : ℚ) < num / den := by positivity
  obtain ⟨hbelow, habove, hnarrow⟩ := h.scaled
  obtain ⟨hlt, hmin, hmax, hnormal⟩ := hx
  -- how the quotient compares with powers of two tells its exponent
  have hpower := div_zpow_lt_iff hr x.exponent
  have hupper : Int.log 2 ((num : ℚ) / den) < x.exponent + 53 := by
    refine (hpower 53).1 ?_
    have : (x.significand + 1 : ℚ) ≤ 2 ^ 53 := mod_cast hlt
    rcases habove with h | ⟨-, h⟩ <;> linarith
  by_cases hbits : x.exponent = minExponent ∨ x.exponent + 52 ≤ Int.log 2 ((num : ℚ) / den)
  · -- the exponent of the number
    have hq : x.exponent = max minExponent (Int.log 2 ((num : ℚ) / den) - 52) := by omega
    rw [ofFraction?_def _ hnum hden hq, roundHalfEven_eq (scaleDown_pos hden ..)
      (by rwa [scaleDown_div]) (by rwa [scaleDown_div])]
    dsimp only
    rw [if_neg hlt.ne, if_pos hmax]
  · rw [not_or, not_le] at hbits
    -- a quotient below 53 bits belongs to a power of two
    have hsmall := (hpower 52).2 hbits.2
    have hm : x.significand = 2 ^ 52 := by
      have : x.significand < 2 ^ 52 + 1 := by
        by_contra hge
        have : (2 ^ 52 + 1 : ℚ) ≤ x.significand := mod_cast not_lt.1 hge
        rcases hbelow with h | ⟨-, h⟩ <;> linarith
      have := mt hnormal hbits.1
      omega
    have hclose := hnarrow hm (lt_of_le_of_ne hmin (Ne.symm hbits.1))
    have hlower : x.exponent + 51 ≤ Int.log 2 ((num : ℚ) / den) := by
      refine not_lt.1 fun h => ?_
      have := (hpower 51).2 h
      linarith
    have hq : x.exponent - 1 = max minExponent (Int.log 2 ((num : ℚ) / den) - 52) := by
      omega
    have hdouble : (num : ℚ) / den / 2 ^ (x.exponent - 1) =
        2 * (num / den / 2 ^ x.exponent) := by
      rw [zpow_sub_one₀ two_ne_zero]
      field_simp
    have hround : roundHalfEven (scaleDown num den (x.exponent - 1)).1
        (scaleDown num den (x.exponent - 1)).2 = 2 ^ 53 := by
      refine roundHalfEven_eq (scaleDown_pos hden ..) ?_ (Or.inl ?_)
      · rw [scaleDown_div, hdouble]
        push_cast
        rcases hclose.lt_or_eq with hlt | heq
        · left
          linarith
        · right
          exact ⟨by decide, by linarith⟩
      · rw [scaleDown_div, hdouble]
        norm_num at hsmall ⊢
        linarith
    rw [ofFraction?_def _ hnum hden hq, hround]
    dsimp only
    rw [if_pos rfl, sub_add_cancel, if_pos hmax, ← hm]

end Rounding

/-! ## Rounding decimals -/

/-- The number of digits places a natural between two powers of ten. -/
theorem digits_bounds {n : ℕ} (hn : 0 < n) :
    (10 : ℚ) ^ (((Nat.toDigits 10 n).length : ℤ) - 1) ≤ n ∧
      (n : ℚ) < 10 ^ ((Nat.toDigits 10 n).length : ℤ) := by
  have hlength : 0 < (Nat.toDigits 10 n).length := Nat.length_toDigits_pos
  constructor
  · obtain ⟨k, hk⟩ := Nat.exists_eq_add_one.2 hlength
    have hle : 10 ^ k ≤ n := by
      by_contra hlt
      rcases Nat.eq_zero_or_pos k with rfl | hk0
      · omega
      · have := (Nat.length_toDigits_le_iff (by decide) hk0).2 (not_le.1 hlt)
        omega
    rw [hk, Nat.cast_succ, add_sub_cancel_right, zpow_natCast]
    exact_mod_cast hle
  · rw [zpow_natCast]
    exact_mod_cast (Nat.length_toDigits_le_iff (by decide) hlength).1 le_rfl

/-- What lies in the interval of a number is neither too small nor too large to be rounded. -/
theorem Rounds.bounds {x : Binary64} {r : ℚ} (hx : x.Canonical) (hpos : 0 < x.significand)
    (h : x.Rounds r) : (2 : ℚ) ^ (-1200 : ℤ) < r ∧ r < 2 ^ (1200 : ℤ) := by
  obtain ⟨hbelow, habove, -⟩ := h.scaled
  have hunit : (0 : ℚ) < 2 ^ x.exponent := by positivity
  have hm : (1 : ℚ) ≤ x.significand := mod_cast hpos
  have hlt : (x.significand + 1 : ℚ) ≤ 2 ^ 53 := mod_cast hx.significand_lt
  have hmin := hx.minExponent_le
  have hmax := hx.exponent_le
  have hlower : 1 / 2 ≤ r / 2 ^ x.exponent := by
    rcases hbelow with h | ⟨-, h⟩ <;> linarith
  have hupper : r / 2 ^ x.exponent < 2 ^ 53 := by
    rcases habove with h | ⟨-, h⟩ <;> linarith
  rw [le_div_iff₀ hunit] at hlower
  rw [div_lt_iff₀ hunit] at hupper
  constructor
  · calc (2 : ℚ) ^ (-1200 : ℤ) < 2 ^ (x.exponent - 1) :=
        zpow_lt_zpow_right₀ one_lt_two (by rw [minExponent] at hmin; omega)
      _ = 1 / 2 * 2 ^ x.exponent := by
        rw [zpow_sub_one₀ two_ne_zero]
        ring
      _ ≤ r := hlower
  · calc r < 2 ^ 53 * 2 ^ x.exponent := hupper
      _ = 2 ^ (53 + x.exponent) := by
        rw [zpow_add₀ two_ne_zero]
        norm_num
      _ < 2 ^ (1200 : ℤ) :=
        zpow_lt_zpow_right₀ one_lt_two (by rw [maxExponent] at hmax; omega)

/-- A decimal in the interval of a number has a digit other than zero. -/
theorem Rounds.digits_pos {x : Binary64} (hx : x.Canonical) (hpos : 0 < x.significand) {d : Decimal}
    (h : x.Rounds d.toRat) : 0 < d.digits := by
  refine Nat.pos_of_ne_zero fun hzero => ?_
  have hlower := (h.bounds hx hpos).1
  rw [Decimal.toRat, hzero, Nat.cast_zero, zero_mul] at hlower
  exact absurd hlower (not_lt.2 (by positivity))

/-- A decimal in the interval of a number is rounded to it. -/
theorem ofDecimal?_eq {x : Binary64} (hx : x.Canonical) (hpos : 0 < x.significand) {d : Decimal}
    (h : x.Rounds d.toRat) : ofDecimal? x.negative d = some x := by
  obtain ⟨hlower, hupper⟩ := h.bounds hx hpos
  have hdigits := h.digits_pos hx hpos
  obtain ⟨hfirst, hlast⟩ := digits_bounds hdigits
  have hscale : (0 : ℚ) < 10 ^ d.scale := by positivity
  have hpower : (2 : ℚ) ^ (1200 : ℤ) < 10 ^ (400 : ℤ) := by
    rw [show (1200 : ℤ) = 3 * 400 from rfl, zpow_mul]
    exact zpow_lt_zpow_left₀ (by norm_num) (by positivity) (by norm_num)
  have hsmall : ¬ ((Nat.toDigits 10 d.digits).length : ℤ) + d.scale < -400 := by
    intro hlt
    refine lt_irrefl ((2 : ℚ) ^ (-1200 : ℤ)) (hlower.trans ?_)
    calc d.toRat < 10 ^ ((Nat.toDigits 10 d.digits).length : ℤ) * 10 ^ d.scale := by
          rw [Decimal.toRat]
          gcongr
      _ = 10 ^ (((Nat.toDigits 10 d.digits).length : ℤ) + d.scale) :=
        (zpow_add₀ (by norm_num) _ _).symm
      _ ≤ 10 ^ (-400 : ℤ) := zpow_le_zpow_right₀ (by norm_num) (by omega)
      _ < 2 ^ (-1200 : ℤ) := by
        rw [zpow_neg, zpow_neg]
        exact inv_strictAnti₀ (by positivity) hpower
  have hlarge : ¬ 400 < ((Nat.toDigits 10 d.digits).length : ℤ) + d.scale := by
    intro hlt
    refine lt_irrefl ((2 : ℚ) ^ (1200 : ℤ)) (lt_trans ?_ hupper)
    calc (2 : ℚ) ^ (1200 : ℤ) < 10 ^ (400 : ℤ) := hpower
      _ ≤ 10 ^ (((Nat.toDigits 10 d.digits).length : ℤ) - 1 + d.scale) :=
        zpow_le_zpow_right₀ (by norm_num) (by omega)
      _ = 10 ^ (((Nat.toDigits 10 d.digits).length : ℤ) - 1) * 10 ^ d.scale :=
        zpow_add₀ (by norm_num) _ _
      _ ≤ d.toRat := by
        rw [Decimal.toRat]
        gcongr
  have hfraction : ((d.digits * Nat.pow 10 d.scale.toNat : ℕ) : ℚ) /
      (Nat.pow 10 (-d.scale).toNat : ℕ) = d.toRat := by
    rw [Decimal.toRat, zpow_eq_div d.scale]
    push_cast [Nat.pow_eq]
    ring
  rw [ofDecimal?, if_neg (by omega), if_neg hlarge]
  refine ofFraction?_eq hx hpos ?_ ?_ (by rwa [hfraction]) <;> simp only [Nat.pow_eq] <;> positivity

/-! ## Canonical numbers -/

theorem canonical_zero (negative : Bool) : (zero negative).Canonical :=
  ⟨by simp [zero], le_rfl, by simp [zero, minExponent, maxExponent], fun _ => rfl⟩

/-- Rounding a fraction gives a canonical number. -/
theorem canonical_of_ofFraction? {negative : Bool} {num den : ℕ} (hnum : 0 < num) (hden : 0 < den)
    {x : Binary64} (h : ofFraction? negative num den = some x) : x.Canonical := by
  obtain ⟨q, hq⟩ : ∃ q, q = max minExponent (Int.log 2 ((num : ℚ) / den) - 52) := ⟨_, rfl⟩
  -- how the quotient compares with powers of two
  have hpower : ∀ i : ℕ, (scaleDown num den q).1 / (scaleDown num den q).2 < 2 ^ i ↔
      Int.log 2 ((num : ℚ) / den) < q + i := by
    intro i
    rw [Nat.div_lt_iff_lt_mul (scaleDown_pos hden ..), scaleDown_lt_iff hnum hden]
  have hround : ∀ n d : ℕ, n / d ≤ roundHalfEven n d ∧ roundHalfEven n d ≤ n / d + 1 := by
    intro n d
    unfold roundHalfEven
    dsimp only
    split
    · omega
    · split <;> omega
  obtain ⟨hfloor, hceil⟩ := hround (scaleDown num den q).1 (scaleDown num den q).2
  have hupper := (hpower 53).2 (by omega)
  rw [ofFraction?_def _ hnum hden hq] at h
  dsimp only at h
  split at h
  · split at h
    · obtain rfl := Option.some.inj h
      refine ⟨by norm_num, ?_, by assumption, by simp⟩
      dsimp only
      omega
    · cases h
  · rename_i hcarry
    split at h
    · obtain rfl := Option.some.inj h
      refine ⟨?_, ?_, by assumption, fun hsmall => ?_⟩
      · dsimp only
        omega
      · dsimp only
        omega
      · dsimp only at hsmall ⊢
        have := (hpower 52).1 (hfloor.trans_lt hsmall)
        omega
    · cases h

/-- Rounding a decimal gives a canonical number. -/
theorem canonical_of_ofDecimal? {negative : Bool} {d : Decimal} {x : Binary64}
    (h : ofDecimal? negative d = some x) : x.Canonical := by
  unfold ofDecimal? at h
  dsimp only at h
  split at h
  · obtain rfl := Option.some.inj h
    exact canonical_zero negative
  · rename_i hdigits
    split at h
    · cases h
    · refine canonical_of_ofFraction? ?_ ?_ h <;> simp only [Nat.pow_eq]
      · have := Nat.pos_of_ne_zero (not_or.1 hdigits).1
        positivity
      · positivity

/-! ## Shortest decimals -/

/-- Moving zeros into the power of ten leaves the decimal as large as it was. -/
theorem toRat_stripZeros (steps : ℕ) (d : Decimal) : (stripZeros steps d).toRat = d.toRat := by
  induction steps generalizing d with
  | zero => rfl
  | succ steps ih =>
    rw [stripZeros]
    split
    · rename_i h
      have hdigits : (d.digits : ℚ) = 10 * (d.digits / 10 : ℕ) :=
        mod_cast (Nat.mul_div_cancel' (Nat.dvd_of_mod_eq_zero h.2)).symm
      rw [ih, Decimal.toRat, Decimal.toRat, zpow_add_one₀ (by norm_num), hdigits]
      ring
    · rfl

/-- The magnitude of a number lies in its interval. -/
theorem rounds_magnitude {x : Binary64} (hpos : 0 < x.significand) :
    x.Rounds (x.significand * 2 ^ x.exponent) := by
  have hunit : (0 : ℚ) < 2 ^ (x.exponent - 2) := by positivity
  have hquarters : (x.significand * 2 ^ x.exponent : ℚ) =
      (4 * x.significand : ℕ) * 2 ^ (x.exponent - 2) := by
    rw [zpow_sub₀ two_ne_zero]
    push_cast
    ring
  have hlow : x.low < 4 * x.significand := by
    unfold low
    split <;> omega
  rw [hquarters]
  refine ⟨Or.inl ?_, Or.inl ?_⟩
  · gcongr
  · gcongr
    omega

/-- What is found on a grid reads back. -/
theorem readsBack_of_onGrid? {x : Binary64} {scale : ℤ} {d : Decimal}
    (h : x.onGrid? scale = some d) : x.readsBack d = true := by
  unfold onGrid? at h
  extract_lets num den below nearer other at h
  split at h
  · rwa [← Option.some.inj h]
  · split at h
    · rwa [← Option.some.inj h]
    · cases h

/-- The exact value of a number as a decimal. -/
theorem toRat_exact (x : Binary64) :
    Decimal.toRat ⟨(x.significand * Nat.pow 5 (-x.exponent).toNat) <<< x.exponent.toNat,
      min 0 x.exponent⟩ = x.significand * 2 ^ x.exponent := by
  rw [Decimal.toRat, Nat.shiftLeft_eq]
  rcases le_total 0 x.exponent with h | h
  · obtain ⟨n, hn⟩ := Int.eq_ofNat_of_zero_le h
    simp [hn]
  · obtain ⟨n, hn⟩ := Int.exists_eq_neg_ofNat h
    rw [min_eq_right h, hn]
    simp only [neg_neg, Int.toNat_natCast, Int.toNat_neg_natCast, pow_zero, mul_one, zpow_neg,
      zpow_natCast, Nat.pow_eq, Nat.cast_mul, Nat.cast_pow, Nat.cast_ofNat]
    rw [show (10 : ℚ) = 2 * 5 by norm_num, mul_pow]
    field_simp

/-- The shortest decimal of a number lies in its interval. -/
theorem rounds_shortest {x : Binary64} (hpos : 0 < x.significand) : x.Rounds x.shortest.toRat := by
  unfold shortest
  rw [if_neg hpos.ne']
  dsimp only
  split
  · rename_i d hd
    obtain ⟨n, -, hgrid⟩ := List.exists_of_findSome?_eq_some hd
    rw [toRat_stripZeros, ← readsBack_iff]
    exact readsBack_of_onGrid? hgrid
  · -- the exact value stands behind the search
    rw [toRat_exact]
    exact rounds_magnitude hpos

/-- A decimal as large as the shortest one of a number reads back. -/
theorem ofDecimal?_of_shortest {x : Binary64} (hx : x.Canonical) (hpos : 0 < x.significand)
    {d : Decimal} (h : d.toRat = x.shortest.toRat) : ofDecimal? x.negative d = some x :=
  ofDecimal?_eq hx hpos (h ▸ rounds_shortest hpos)

end Binary64
end ApiGateway
