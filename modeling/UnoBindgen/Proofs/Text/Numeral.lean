import Mathlib
import UnoBindgen.Text.Numeral

/-!
# Numerals are read back

A printed whole number consists of digits, and reading its digits gives the number.
-/

namespace UnoBindgen.Text

theorem digitValue?_of_isDigit
    {character : Char}
    (digit : character.isDigit = true) :
    digitValue? character = some (character.toNat - '0'.toNat) ∧
      character.toNat - '0'.toNat < 10 := by
  simp only [Char.isDigit, Bool.and_eq_true, decide_eq_true_eq, ge_iff_le,
    UInt32.le_iff_toNat_le] at digit
  have code : 48 ≤ character.toNat ∧ character.toNat ≤ 57 := digit
  have within : '0' ≤ character ∧ character ≤ '9' := digit
  refine ⟨by rw [digitValue?, if_pos within], ?_⟩
  change character.toNat - 48 < 10
  omega

theorem readDigits_eq_ofDigitChars
    {text : Text}
    (digits : ∀ character ∈ text, character.isDigit = true)
    (value : Nat) :
    readDigits 10 value text = some (Nat.ofDigitChars 10 text value) := by
  induction text generalizing value with
  | nil => rfl
  | cons character rest induction =>
      rw [List.forall_mem_cons] at digits
      obtain ⟨read, small⟩ := digitValue?_of_isDigit digits.1
      rw [readDigits, read]
      simp only [small, if_true]
      rw [induction digits.2]
      rfl

/-- A decimal numeral is read back. -/
theorem natural?_ofNat (number : Nat) : natural? 10 (Text.ofNat number) = some number := by
  have nonempty : (Text.ofNat number).isEmpty = false := by
    rw [Text.ofNat, Nat.toDigits_eq_if (by decide)]
    split <;> simp
  have digits : ∀ character ∈ Text.ofNat number, character.isDigit = true :=
    fun character member => Nat.isDigit_of_mem_toDigits (by decide) (by decide) member
  rw [natural?, nonempty, readDigits_eq_ofDigitChars digits, Text.ofNat,
    Nat.ofDigitChars_toDigits (by decide) (by decide)]
  rfl

theorem not_mem_ofNat
    {character : Char}
    (other : character.isDigit = false)
    (number : Nat) :
    character ∉ Text.ofNat number := by
  intro member
  have digit := Nat.isDigit_of_mem_toDigits (by decide) (by decide) member
  rw [other] at digit
  exact Bool.false_ne_true digit

end UnoBindgen.Text
