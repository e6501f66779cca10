import ApiGateway.Uuid.Basic
import Mathlib.Data.List.Basic
import Mathlib.Logic.Function.Basic

/-!
# Texts of identifiers

The hyphenated text determines the identifier: the digits stand at fixed places, and a number of
fixed width is determined by its digits.
-/
namespace ApiGateway

namespace Hexadecimal

/-- Digits of different values differ. -/
theorem digitChar_inj {a b : ℕ} (ha : a < 16) (hb : b < 16)
    (h : Nat.digitChar a = Nat.digitChar b) : a = b := by
  have hall : ∀ i j : Fin 16, Nat.digitChar i = Nat.digitChar j → i = j := by decide
  exact congrArg Fin.val (hall ⟨a, ha⟩ ⟨b, hb⟩ h)

/-- A number that fits a width is determined by that many digits. -/
theorem digits_inj {width n m : ℕ} (hn : n < Nat.pow 16 width) (hm : m < Nat.pow 16 width)
    (h : digits width n = digits width m) : n = m := by
  induction width generalizing n m with
  | zero =>
    simp only [Nat.pow] at hn hm
    omega
  | succ width ih =>
    have hpow : Nat.pow 16 (width + 1) = Nat.pow 16 width * 16 := rfl
    obtain ⟨hfront, hlast⟩ := List.append_inj' h rfl
    have hdiv : n / 16 = m / 16 := ih (by omega) (by omega) hfront
    have hmod : n % 16 = m % 16 :=
      digitChar_inj (by omega) (by omega) (List.cons.inj hlast).1
    omega

end Hexadecimal

namespace Uuid

/-- Thirty-two digits are determined by their groups. -/
theorem hyphenate_inj {ds es : List Char} (hds : ds.length = 32) (hes : es.length = 32)
    (h : hyphenate ds = hyphenate es) : ds = es := by
  have hgroups : ∀ cs : List Char, hyphenate cs =
      cs.take 8 ++ '-' :: ((cs.drop 8).take 4 ++ '-' :: ((cs.drop 12).take 4 ++
        '-' :: ((cs.drop 16).take 4 ++ '-' :: (cs.drop 20).take 12))) := by
    intro cs
    simp [hyphenate]
  have hjoin : ∀ cs : List Char, cs.length = 32 → cs = cs.take 8 ++ ((cs.drop 8).take 4 ++
      ((cs.drop 12).take 4 ++ ((cs.drop 16).take 4 ++ (cs.drop 20).take 12))) := by
    intro cs hcs
    have hlast : (cs.drop 20).take 12 = cs.drop 20 := List.take_of_length_le (by simp [hcs])
    have hstep : ∀ i k, cs.drop i = (cs.drop i).take k ++ cs.drop (i + k) := by
      intro i k
      rw [← List.drop_drop, List.take_append_drop]
    rw [hlast, ← hstep 16 4, ← hstep 12 4, ← hstep 8 4, List.take_append_drop]
  rw [hgroups, hgroups] at h
  obtain ⟨h₁, h⟩ := List.append_inj h (by simp [hds, hes])
  obtain ⟨h₂, h⟩ := List.append_inj (List.cons.inj h).2 (by simp [hds, hes])
  obtain ⟨h₃, h⟩ := List.append_inj (List.cons.inj h).2 (by simp [hds, hes])
  obtain ⟨h₄, h⟩ := List.append_inj (List.cons.inj h).2 (by simp [hds, hes])
  rw [hjoin ds hds, hjoin es hes, h₁, h₂, h₃, h₄, (List.cons.inj h).2]

/-- Identifiers with the same text are the same. -/
theorem text_injective : Function.Injective text := by
  intro u v h
  have hhyphens : hyphenate u.digits = hyphenate v.digits := by
    simpa [text] using congrArg String.toList h
  have hdigits := hyphenate_inj (by simp [digits]) (by simp [digits]) hhyphens
  have hbits := Hexadecimal.digits_inj u.bits.isLt v.bits.isLt hdigits
  cases u
  cases v
  exact congrArg Uuid.mk (BitVec.eq_of_toNat_eq hbits)

end Uuid

end ApiGateway
