import Mathlib

/-!
# The order of bytes

Texts are compared character by character. This is the order of their bytes in UTF-8: the first
byte of a character says how many bytes it has, and characters with more bytes are greater ones.

## Main definitions

* `Text.bytes`: the bytes of a text.
-/
namespace ApiGateway.Text

/-- The bytes of a text in UTF-8. -/
def bytes (text : String) : List UInt8 := text.toByteArray.data.toList

/-- The bytes of a text are those of its characters. -/
theorem bytes_eq (text : String) : bytes text = text.toList.flatMap String.utf8EncodeChar := by
  rw [bytes, ← String.utf8Encode_toList]
  simp [List.utf8Encode]

/-- Bytes that start with those of a smaller character are smaller. -/
theorem encode_append_lt {c d : Char} (h : c < d) (front back : List UInt8) :
    String.utf8EncodeChar c ++ front < String.utf8EncodeChar d ++ back := by
  have hlt : c.val.toNat < d.val.toNat := h
  have hd : d.val.toNat < 2097152 := by
    have hvalid := d.valid
    simp only [UInt32.isValidChar, Nat.isValidChar] at hvalid
    omega
  have hbyte : ∀ a b : ℕ, a < 256 → b < 256 → (UInt8.ofNat a < UInt8.ofNat b ↔ a < b) :=
    fun a b ha hb => UInt8.ofNat_lt_iff_lt ha hb
  have hsame : ∀ a b : ℕ, a < 256 → b < 256 → (UInt8.ofNat a = UInt8.ofNat b ↔ a = b) := by
    intro a b ha hb
    simp [← UInt8.toNat_inj, Nat.mod_eq_of_lt ha, Nat.mod_eq_of_lt hb]
  have hdigits : ∀ k : ℕ, k / 4096 = k / 64 / 64 ∧ k / 262144 = k / 64 / 64 / 64 := by omega
  simp only [String.utf8EncodeChar]
  generalize c.val.toNat = m at hlt ⊢
  generalize d.val.toNat = n at hlt hd ⊢
  rw [(hdigits m).1, (hdigits m).2, (hdigits n).1, (hdigits n).2]
  -- one case for each pair of lengths: the bytes are the digits to base 64, the highest one first
  split_ifs <;>
    simp (disch := omega) only [List.cons_append, List.nil_append, List.cons_lt_cons_iff, hbyte,
      hsame] <;>
    omega

/-- A greater text has greater bytes. -/
theorem bytes_lt_of_lt {s t : String} (h : s < t) : bytes s < bytes t := by
  rw [String.lt_iff_toList_lt] at h
  rw [bytes_eq, bytes_eq]
  generalize s.toList = cs at h ⊢
  generalize t.toList = ds at h ⊢
  induction cs generalizing ds with
  | nil =>
    cases ds with
    | nil => simp at h
    | cons d ds =>
      have hne : String.utf8EncodeChar d ≠ [] := by simp
      rw [List.flatMap_nil, List.flatMap_cons]
      cases hbytes : String.utf8EncodeChar d with
      | nil => exact absurd hbytes hne
      | cons a as => simp
  | cons c cs ih =>
    cases ds with
    | nil => simp at h
    | cons d ds =>
      rw [List.flatMap_cons, List.flatMap_cons]
      rcases List.cons_lt_cons_iff.1 h with hlt | ⟨rfl, htail⟩
      · exact encode_append_lt hlt _ _
      · exact List.append_left_lt (ih ds htail)

/-- The order of texts is that of their bytes. -/
theorem bytes_lt_iff {s t : String} : bytes s < bytes t ↔ s < t := by
  constructor
  · intro h
    rcases lt_trichotomy s t with hlt | rfl | hgt
    · exact hlt
    · exact absurd h (List.lt_irrefl _)
    · exact absurd (bytes_lt_of_lt hgt) (List.lt_asymm h)
  · exact bytes_lt_of_lt

end ApiGateway.Text
