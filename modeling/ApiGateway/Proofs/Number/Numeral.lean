import ApiGateway.Number.Numeral
import ApiGateway.Proofs.Number.Rounding
import Mathlib.Data.List.TakeWhile

/-!
# Written numbers

What is written for a number is a numeral, and the numeral stands for the number: an integer has the
digits of its magnitude, and a double-precision number those of its shortest decimal, with the point
among them, zeros between, or a power of ten behind.

## Main definitions

* `Numeral.Form`, `Numeral.text`: the parts of a numeral as they are written, and their text.
* `Numeral.WritesFloat`: texts that are numerals of floats, with the rational they stand for.

## Main results

* `Numeral.Form.read?_eq`: a numeral is read as its parts.
* `Numeral.isPart_of_read?`: the characters of numerals.
* `Numeral.writesFloat_positionalText`: digits with a point are a numeral that stands for them.
* `read?_integerText`: the text of an integer is a numeral that stands for it.
* `Binary64.read?_text`: the text of a number is a numeral that is rounded to it.
-/
namespace ApiGateway

namespace Numeral

/-- The parts of a numeral as they are written, without its sign: digits, perhaps a point with more
digits, and a text for the power of ten. -/
structure Form (n : Numeral) (power : List Char) : Prop where
  whole_ne_nil : n.whole ≠ []
  whole_isDigit : ∀ c ∈ n.whole, c.isDigit = true
  fraction_isDigit : ∀ digits ∈ n.fraction, ∀ c ∈ digits, c.isDigit = true
  power_eq : readPower? power = some n.power

/-- The text of a numeral without its sign. -/
def text (n : Numeral) (power : List Char) : List Char :=
  n.whole ++ (n.fraction.elim [] ('.' :: ·) ++ power)

/-! ## Reading -/

/-- A power of ten begins with its mark. -/
theorem mem_head?_of_readPower? {power : List Char} {p : Option ℤ} (h : readPower? power = some p) :
    ∀ c ∈ power.head?, c = 'e' ∨ c = 'E' := by
  intro c hc
  cases power with
  | nil => cases hc
  | cons first rest =>
    obtain rfl := Option.some.inj hc
    rw [readPower?] at h
    by_contra hmark
    rw [if_neg hmark] at h
    cases h

/-- Digits in front of something else. -/
theorem takeWhile_digits {digits rest : List Char} (hdigits : ∀ c ∈ digits, c.isDigit = true)
    (hrest : ∀ c ∈ rest.head?, c.isDigit = false) :
    (digits ++ rest).takeWhile Char.isDigit = digits ∧
      (digits ++ rest).dropWhile Char.isDigit = rest := by
  rw [List.takeWhile_append_of_pos hdigits, List.dropWhile_append_of_pos hdigits]
  cases rest with
  | nil => simp
  | cons c rest => simp [hrest c rfl]

/-- A numeral is read as its parts. -/
theorem Form.read?_eq {n : Numeral} {power : List Char} (h : n.Form power)
    (hsign : n.sign = none ∨ n.sign = some '-') :
    read? (n.sign.toList ++ n.text power) = some n := by
  obtain ⟨hne, hwhole, hfraction, hpower⟩ := h
  obtain ⟨sign, whole, fraction, p⟩ := n
  dsimp only at hne hwhole hfraction hpower hsign
  have hsplit : splitSign (sign.toList ++ text ⟨sign, whole, fraction, p⟩ power) =
      (sign, text ⟨sign, whole, fraction, p⟩ power) := by
    obtain ⟨c, rest, rfl⟩ := List.exists_cons_of_ne_nil hne
    have hc := hwhole c (by simp)
    obtain rfl | rfl := hsign
    · simp only [Option.toList_none, List.nil_append, text, List.cons_append, splitSign]
      split <;> simp_all
    · rfl
  have hmark : ∀ c ∈ power.head?, c.isDigit = false := by
    intro c hc
    obtain rfl | rfl := mem_head?_of_readPower? hpower c hc <;> rfl
  rw [read?, hsplit]
  dsimp only [text]
  cases fraction with
  | none =>
    obtain ⟨htake, hdrop⟩ := takeWhile_digits hwhole hmark
    rw [Option.elim_none, List.nil_append, htake, hdrop]
    cases power with
    | nil => simp_all
    | cons c rest =>
      have hc := mem_head?_of_readPower? hpower c rfl
      split
      · simp_all
      · simp_all
  | some digits =>
    have hpoint : ∀ c ∈ ('.' :: (digits ++ power)).head?, c.isDigit = false := by simp
    obtain ⟨htake, hdrop⟩ := takeWhile_digits hwhole hpoint
    obtain ⟨htake', hdrop'⟩ := takeWhile_digits (hfraction digits rfl) hmark
    rw [Option.elim_some, List.cons_append, htake, hdrop]
    simp [htake', hdrop', hne, hpower]

/-! ## Digits -/

/-- The digits of a natural number stand for it. -/
theorem ofDigits_toDigits (n : ℕ) : ofDigits (Nat.toDigits 10 n) = n :=
  Nat.ofDigitChars_ten_toDigits

theorem isDigit_toDigits (n : ℕ) : ∀ c ∈ Nat.toDigits 10 n, c.isDigit = true :=
  fun _ h => Nat.isDigit_of_mem_toDigits (by decide) (by decide) h

/-- Zeros behind digits multiply by a power of ten. -/
theorem ofDigits_append_zeros (digits : List Char) (k : ℕ) :
    ofDigits (digits ++ List.replicate k '0') = 10 ^ k * ofDigits digits :=
  (Nat.ofDigitChars_append 0).trans Nat.ofDigitChars_replicate_zero

/-- Zeros in front of digits change nothing. -/
theorem ofDigits_zeros_append (k : ℕ) (digits : List Char) :
    ofDigits (List.replicate k '0' ++ digits) = ofDigits digits := by
  refine (Nat.ofDigitChars_append 0).trans ?_
  rw [Nat.ofDigitChars_replicate_zero, Nat.mul_zero]
  rfl

/-- The digits of a positive number do not begin with zero. -/
theorem head?_toDigits {n : ℕ} (hn : 0 < n) : (Nat.toDigits 10 n).head? ≠ some '0' := by
  induction n using Nat.strong_induction_on with
  | _ n ih =>
    by_cases hlt : n < 10
    · rw [Nat.toDigits_of_lt_base hlt]
      simp [Nat.digitChar_eq_zero, hn.ne']
    · rw [Nat.toDigits_of_base_le (by decide) (not_lt.1 hlt),
        List.head?_append_of_ne_nil _ Nat.toDigits_ne_nil]
      exact ih (n / 10) (by omega) (by omega)

/-- A power of ten is read as it is written, with a sign in front of its digits. -/
theorem readPower?_sign (p : ℤ) :
    readPower? ((if p < 0 then "e-".toList else 'e' :: "+".toList) ++ (toString p.natAbs).toList) =
      some (some p) := by
  have hdigits : (Nat.toDigits 10 p.natAbs).all Char.isDigit = true :=
    List.all_eq_true.2 (isDigit_toDigits _)
  rw [Nat.toString_eq_ofList_toDigits, String.toList_ofList]
  split
  · rename_i hneg
    have hp : -(p.natAbs : ℤ) = p := by omega
    simpa [readPower?, splitSign, hdigits, ofDigits_toDigits] using hp
  · rename_i hneg
    have hp : (p.natAbs : ℤ) = p := by omega
    simpa [readPower?, splitSign, hdigits, ofDigits_toDigits] using hp

/-! ## Positional texts -/

/-- A text is a numeral with the mark of a float, and stands for a rational. -/
def WritesFloat (written : List Char) (r : ℚ) : Prop :=
  ∃ (n : Numeral) (power : List Char), n.Form power ∧ n.sign = none ∧ written = n.text power ∧
    n.isStrict = true ∧ n.isInteger = false ∧ n.value.toRat = r

section Positional
variable {digits : List Char}

theorem isDigit_zeros (k : ℕ) : ∀ c ∈ List.replicate k '0', c.isDigit = true := by
  intro c hc
  rw [List.eq_of_mem_replicate hc]
  rfl

/-- Digits that end before the point, with zeros up to it. -/
theorem writesFloat_zeros (hne : digits ≠ []) (hdigits : ∀ c ∈ digits, c.isDigit = true)
    (hhead : digits.head? ≠ some '0') (k : ℕ) :
    WritesFloat (digits ++ List.replicate k '0' ++ ".0".toList)
      (ofDigits digits * (10 : ℚ) ^ (k : ℤ)) := by
  refine ⟨⟨none, digits ++ List.replicate k '0', some ['0'], none⟩, [],
    ⟨by simp [hne], ?_, by simp, rfl⟩, rfl, by simp [text], ?_, rfl, ?_⟩
  · intro c hc
    exact (List.mem_append.1 hc).elim (hdigits c) (isDigit_zeros k c)
  · simp [isStrict, hne, List.head?_append_of_ne_nil _ hne, hhead]
  · have hvalue : ofDigits (digits ++ List.replicate k '0' ++ ['0']) =
        10 ^ (k + 1) * ofDigits digits := by
      rw [← ofDigits_append_zeros, List.replicate_succ', List.append_assoc]
    change (ofDigits (digits ++ List.replicate k '0' ++ ['0']) : ℚ) * 10 ^ (-1 : ℤ) = _
    rw [hvalue, zpow_natCast]
    push_cast
    ring

/-- Digits with the point among them. -/
theorem writesFloat_point (hdigits : ∀ c ∈ digits, c.isDigit = true)
    (hhead : digits.head? ≠ some '0') {k : ℕ} (hk : 0 < k) (hlt : k < digits.length) :
    WritesFloat (digits.take k ++ '.' :: digits.drop k)
      (ofDigits digits * (10 : ℚ) ^ ((k : ℤ) - digits.length)) := by
  have hne : digits ≠ [] := List.ne_nil_of_length_pos (by omega)
  have htake : digits.take k ≠ [] := by simp [hk.ne', hne]
  refine ⟨⟨none, digits.take k, some (digits.drop k), none⟩, [], ⟨htake, ?_, ?_, rfl⟩, rfl,
    by simp [text], ?_, rfl, ?_⟩
  · exact fun c hc => hdigits c (List.mem_of_mem_take hc)
  · rintro _ ⟨⟩ c hc
    exact hdigits c (List.mem_of_mem_drop hc)
  · simp [isStrict, htake, hlt, List.head?_take, hk.ne', hhead]
  · change (ofDigits (digits.take k ++ digits.drop k) : ℚ) *
      10 ^ (0 - ((digits.drop k).length : ℤ)) = _
    rw [List.take_append_drop, List.length_drop, Nat.cast_sub hlt.le, zero_sub, neg_sub]

/-- Digits behind the point, with zeros between. -/
theorem writesFloat_fraction (hne : digits ≠ []) (hdigits : ∀ c ∈ digits, c.isDigit = true)
    (k : ℕ) :
    WritesFloat ("0.".toList ++ List.replicate k '0' ++ digits)
      (ofDigits digits * (10 : ℚ) ^ (-(k : ℤ) - digits.length)) := by
  refine ⟨⟨none, ['0'], some (List.replicate k '0' ++ digits), none⟩, [],
    ⟨by simp, by simp, ?_, rfl⟩, rfl, by simp [text], by simp [isStrict, hne], rfl, ?_⟩
  · rintro _ ⟨⟩ c hc
    exact (List.mem_append.1 hc).elim (isDigit_zeros k c) (hdigits c)
  · change (ofDigits (['0'] ++ (List.replicate k '0' ++ digits)) : ℚ) *
      10 ^ (0 - ((List.replicate k '0' ++ digits).length : ℤ)) = _
    rw [← List.append_assoc, ← List.replicate_one, List.replicate_append_replicate,
      ofDigits_zeros_append, List.length_append, List.length_replicate]
    push_cast
    ring_nf

/-- One digit with a power of ten. -/
theorem writesFloat_power {d : Char} (hd : d.isDigit = true) {power : List Char} {p : ℤ}
    (hpower : readPower? power = some (some p)) :
    WritesFloat ([d] ++ power) (ofDigits [d] * (10 : ℚ) ^ p) :=
  ⟨⟨none, [d], none, some p⟩, power, ⟨by simp, by simp [hd], by simp, hpower⟩, rfl, rfl, rfl, rfl,
    by simp [value, Decimal.toRat]⟩

/-- Several digits with a power of ten, the first of them before the point. -/
theorem writesFloat_point_power {d : Char} {rest : List Char} (hne : rest ≠ [])
    (hdigits : ∀ c ∈ d :: rest, c.isDigit = true) {power : List Char} {p : ℤ}
    (hpower : readPower? power = some (some p)) :
    WritesFloat ((d :: '.' :: rest) ++ power)
      (ofDigits (d :: rest) * (10 : ℚ) ^ (p + 1 - (d :: rest).length)) := by
  refine ⟨⟨none, [d], some rest, some p⟩, power, ⟨by simp, ?_, ?_, hpower⟩, rfl, rfl,
    by simp [isStrict, hne], rfl, ?_⟩
  · exact fun c hc => hdigits c (List.mem_cons.2 (Or.inl (List.mem_singleton.1 hc)))
  · rintro _ ⟨⟩ c hc
    exact hdigits c (List.mem_cons_of_mem _ hc)
  · change (ofDigits ([d] ++ rest) : ℚ) * 10 ^ (p - (rest.length : ℤ)) = _
    rw [List.singleton_append, List.length_cons]
    push_cast
    ring_nf

/-- Digits with a point are a numeral with the mark of a float, which stands for them. -/
theorem writesFloat_positionalText (hne : digits ≠ []) (hdigits : ∀ c ∈ digits, c.isDigit = true)
    (hhead : digits.head? ≠ some '0') (point : ℤ) :
    WritesFloat (positionalText "+" digits point)
      (ofDigits digits * (10 : ℚ) ^ (point - digits.length)) := by
  unfold positionalText
  dsimp only
  split
  · rename_i hlarge
    obtain ⟨k, rfl⟩ := Int.eq_ofNat_of_zero_le hlarge.1.le
    rw [Int.toNat_natCast]
    split
    · rename_i hle
      obtain ⟨j, rfl⟩ := Nat.exists_eq_add_of_le hle
      have hzeros := writesFloat_zeros hne hdigits hhead j
      simpa using hzeros
    · rename_i hlt
      exact writesFloat_point hdigits hhead (by omega) (by omega)
  · split
    · rename_i hsmall
      obtain ⟨k, rfl⟩ := Int.exists_eq_neg_ofNat hsmall.2
      simpa using writesFloat_fraction hne hdigits k
    · have hpower := readPower?_sign (point - 1)
      rw [List.append_assoc]
      split
      · have hwritten := writesFloat_point_power (List.cons_ne_nil _ _) hdigits hpower
        rwa [sub_add_cancel] at hwritten
      · rename_i hshort
        obtain ⟨d, rest, rfl⟩ := List.exists_cons_of_ne_nil hne
        cases rest with
        | nil => exact writesFloat_power (hdigits d (by simp)) hpower
        | cons e rest => exact absurd rfl (hshort d e rest)

end Positional

/-! ## The characters of numerals -/

/-- The characters of numerals: digits, signs, the point and the mark of a power of ten. -/
def IsPart (c : Char) : Prop := c.isDigit = true ∨ c ∈ ['+', '-', '.', 'e', 'E']

instance : DecidablePred IsPart := fun _ => inferInstanceAs (Decidable (_ ∨ _))

theorem isPart_of_splitSign {written : List Char} (h : ∀ c ∈ (splitSign written).2, IsPart c) :
    ∀ c ∈ written, IsPart c := by
  unfold splitSign at h
  split at h
  · exact List.forall_mem_cons.2 ⟨Or.inr (by simp), h⟩
  · exact List.forall_mem_cons.2 ⟨Or.inr (by simp), h⟩
  · exact h

/-- What is split off at the first character that is no digit. -/
theorem isPart_of_dropWhile {written : List Char}
    (h : ∀ c ∈ written.dropWhile Char.isDigit, IsPart c) : ∀ c ∈ written, IsPart c := by
  intro c hc
  rw [← List.takeWhile_append_dropWhile (p := Char.isDigit) (l := written), List.mem_append] at hc
  exact hc.elim (fun hc => Or.inl (List.mem_takeWhile_imp hc)) (h c)

theorem isPart_of_readPower? {power : List Char} {p : Option ℤ} (h : readPower? power = some p) :
    ∀ c ∈ power, IsPart c := by
  cases power with
  | nil => simp
  | cons first rest =>
    rw [readPower?] at h
    split at h
    · rename_i hmark
      dsimp only at h
      split at h
      · rename_i hdigits
        refine List.forall_mem_cons.2 ⟨?_, isPart_of_splitSign fun c hc => ?_⟩
        · rcases hmark with rfl | rfl <;> simp [IsPart]
        · exact Or.inl (List.all_eq_true.1 hdigits.2 c hc)
      · cases h
    · cases h

/-- What is read as a numeral has no other characters. -/
theorem isPart_of_read? {written : List Char} {n : Numeral} (h : read? written = some n) :
    ∀ c ∈ written, IsPart c := by
  refine isPart_of_splitSign (isPart_of_dropWhile ?_)
  unfold read? at h
  dsimp only at h
  split at h
  · rename_i rest hrest
    rw [hrest]
    refine List.forall_mem_cons.2 ⟨Or.inr (by simp), isPart_of_dropWhile ?_⟩
    split at h
    · cases h
    · obtain ⟨p, hp, -⟩ := Option.map_eq_some_iff.1 h
      exact isPart_of_readPower? hp
  · split at h
    · cases h
    · obtain ⟨p, hp, -⟩ := Option.map_eq_some_iff.1 h
      exact isPart_of_readPower? hp

end Numeral

/-! ## Texts -/

/-- The text of an integer is a numeral without point or power of ten, which stands for it. -/
theorem read?_integerText (k : ℤ) : ∃ n : Numeral,
    Numeral.read? (integerText k).toList = some n ∧ n.isStrict = true ∧ n.isInteger = true ∧
      (if n.isNegative then -(Numeral.ofDigits n.whole : ℤ) else Numeral.ofDigits n.whole) = k := by
  have hform : ∀ sign, Numeral.Form ⟨sign, Nat.toDigits 10 k.natAbs, none, none⟩ [] := fun sign =>
    ⟨Nat.toDigits_ne_nil, Numeral.isDigit_toDigits _, by simp, rfl⟩
  have hstrict : (Nat.toDigits 10 k.natAbs).length = 1 ∨
      (Nat.toDigits 10 k.natAbs).head? ≠ some '0' := by
    rcases Nat.eq_zero_or_pos k.natAbs with h | h
    · simp [h]
    · exact Or.inr (Numeral.head?_toDigits h)
  by_cases hneg : k < 0
  · refine ⟨⟨some '-', Nat.toDigits 10 k.natAbs, none, none⟩, ?_, ?_, rfl, ?_⟩
    · rw [← (hform (some '-')).read?_eq (Or.inr rfl)]
      simp [integerText, hneg, Numeral.text]
    · simpa [Numeral.isStrict, Nat.toDigits_ne_nil] using hstrict
    · simp only [Numeral.isNegative, decide_true, if_true, Numeral.ofDigits_toDigits]
      omega
  · refine ⟨⟨none, Nat.toDigits 10 k.natAbs, none, none⟩, ?_, ?_, rfl, ?_⟩
    · rw [← (hform none).read?_eq (Or.inl rfl)]
      simp [integerText, hneg, Numeral.text]
    · simpa [Numeral.isStrict, Nat.toDigits_ne_nil] using hstrict
    · simp only [Numeral.isNegative, reduceCtorEq, decide_false, Bool.false_eq_true, if_false,
        Numeral.ofDigits_toDigits]
      omega

namespace Binary64

/-- What is written for the magnitude of a number is a numeral, and whatever is as large as that is
rounded to the number. -/
theorem exists_writesFloat {x : Binary64} (hx : x.Canonical) : ∃ (written : List Char) (r : ℚ),
    x.text = String.ofList (if x.negative then '-' :: written else written) ∧
      Numeral.WritesFloat written r ∧
      ∀ d : Decimal, d.toRat = r → ofDecimal? x.negative d = some x := by
  by_cases hzero : x.significand = 0
  · refine ⟨"0.0".toList, 0, by simp [text, textWith, hzero], ?_, fun d hd => ?_⟩
    · exact ⟨⟨none, ['0'], some ['0'], none⟩, [], ⟨by simp, by simp, by simp, rfl⟩, rfl, rfl, rfl,
        rfl, by simp [Numeral.value, Numeral.ofDigits, Decimal.toRat]⟩
    · have hdigits : d.digits = 0 :=
        Nat.cast_eq_zero.1 ((mul_eq_zero.1 hd).resolve_right (by positivity))
      rw [ofDecimal?, if_pos (Or.inl hdigits), zero, ← hx.exponent_eq (by omega), ← hzero]
  · have hpos := Nat.pos_of_ne_zero hzero
    have hdigits := (rounds_shortest hpos).digits_pos hx hpos
    have hwritten := Numeral.writesFloat_positionalText Nat.toDigits_ne_nil
      (Numeral.isDigit_toDigits _) (Numeral.head?_toDigits hdigits)
      ((Nat.toDigits 10 x.shortest.digits).length + x.shortest.scale)
    rw [add_sub_cancel_left, Numeral.ofDigits_toDigits] at hwritten
    exact ⟨_, _, by simp [text, textWith, hzero], hwritten, fun d => ofDecimal?_of_shortest hx hpos⟩

/-- The text of a number is a numeral with the mark of a float, which is rounded to the number. -/
theorem read?_text {x : Binary64} (hx : x.Canonical) : ∃ n : Numeral,
    Numeral.read? x.text.toList = some n ∧ n.isStrict = true ∧ n.isInteger = false ∧
      n.toBinary64? = some x := by
  obtain ⟨written, r, htext, ⟨n, power, hform, hsign, rfl, hstrict, hinteger, hvalue⟩, hround⟩ :=
    exists_writesFloat hx
  obtain ⟨sign, whole, fraction, p⟩ := n
  obtain rfl : sign = none := hsign
  have hsigned : ∀ sign, Numeral.Form ⟨sign, whole, fraction, p⟩ power := fun _ =>
    ⟨hform.whole_ne_nil, hform.whole_isDigit, hform.fraction_isDigit, hform.power_eq⟩
  rw [htext, String.toList_ofList]
  cases hnegative : x.negative with
  | false =>
    rw [hnegative] at hround
    exact ⟨_, hform.read?_eq (Or.inl rfl), hstrict, hinteger, hround _ hvalue⟩
  | true =>
    rw [hnegative] at hround
    refine ⟨_, (hsigned (some '-')).read?_eq (Or.inr rfl), ?_, hinteger, hround _ hvalue⟩
    simpa [Numeral.isStrict] using hstrict

end Binary64

end ApiGateway
