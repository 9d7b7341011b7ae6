import Mathlib
import UnoBindgen.Proofs.Text.Sort

/-!
# Sorted by bytes

Texts are sorted by code points.  A character with a greater code point has a greater UTF-8
encoding, and this is decided before either encoding ends, so the order of texts is the order of
their bytes.  A sorted list of different texts therefore increases strictly, byte by byte.
-/

namespace UnoBindgen.Text

/-- The UTF-8 encoding of a text. -/
def bytes (text : Text) : List UInt8 :=
  text.flatMap String.utf8EncodeChar

@[simp]
theorem bytes_nil :
    bytes [] = [] := rfl

theorem bytes_cons
    (character : Char)
    (rest : Text) :
    bytes (character :: rest) = String.utf8EncodeChar character ++ bytes rest :=
  List.flatMap_cons

theorem lt_of_last_digit
    {first other : Nat}
    (smaller : first < other) :
    first / 64 < other / 64 ∨ first / 64 = other / 64 ∧ first % 64 < other % 64 := by
  omega

/-- Numbers are compared by their digits of six bits, the highest first. -/
theorem lt_of_digits
    {first other : Nat}
    (smaller : first < other) :
    first / 262144 < other / 262144 ∨
      first / 262144 = other / 262144 ∧
        (first / 4096 % 64 < other / 4096 % 64 ∨
          first / 4096 % 64 = other / 4096 % 64 ∧
            (first / 64 % 64 < other / 64 % 64 ∨
              first / 64 % 64 = other / 64 % 64 ∧ first % 64 < other % 64)) := by
  have thirds (number : Nat) : number / 4096 = number / 64 / 64 :=
    (Nat.div_div_eq_div_mul number 64 64).symm
  have fourths (number : Nat) : number / 262144 = number / 64 / 64 / 64 := by
    rw [← thirds, Nat.div_div_eq_div_mul]
  rw [fourths first, fourths other, thirds first, thirds other]
  rcases lt_of_last_digit smaller with smaller | ⟨same, last⟩
  · rcases lt_of_last_digit smaller with smaller | ⟨same, last⟩
    · rcases lt_of_last_digit smaller with smaller | ⟨same, last⟩
      · exact Or.inl smaller
      · exact Or.inr ⟨same, Or.inl last⟩
    · rw [same]
      exact Or.inr ⟨rfl, Or.inr ⟨rfl, Or.inl last⟩⟩
  · rw [same]
    exact Or.inr ⟨rfl, Or.inr ⟨rfl, Or.inr ⟨rfl, last⟩⟩⟩

/-- Whatever follows, the encoding of a smaller code point comes first. -/
theorem utf8EncodeChar_append_lt
    {first other : Char}
    (smaller : first.toNat < other.toNat)
    (rest others : List UInt8) :
    String.utf8EncodeChar first ++ rest < String.utf8EncodeChar other ++ others := by
  have below : first.val.toNat < other.val.toNat := smaller
  have digits := lt_of_digits below
  have bound : other.val.toNat < 1114112 := by
    rcases other.valid with small | large
    · exact Nat.lt_trans small (by decide)
    · exact large.2
  have lead : first.val.toNat / 262144 % 8 = first.val.toNat / 262144 := by omega
  have otherLead : other.val.toNat / 262144 % 8 = other.val.toNat / 262144 := by omega
  simp only [String.utf8EncodeChar, lead, otherLead]
  -- The number of bytes depends on the range; within a range the first byte that differs decides.
  split_ifs
  all_goals
    simp only [List.cons_append, List.nil_append, List.cons_lt_cons_iff, UInt8.lt_iff_toNat_lt,
      ← UInt8.toNat_inj]
    simp (disch := (rw [UInt8.size]; omega)) only [UInt8.toNat_ofNat_of_lt']
    omega

theorem bytes_lt_of_notAfter
    {left right : Text}
    (before : notAfter left right = true)
    (differs : left ≠ right) :
    left.bytes < right.bytes := by
  induction left generalizing right with
  | nil =>
      cases right with
      | nil => exact (differs rfl).elim
      | cons other others =>
          obtain ⟨byte, more, encoded⟩ :=
            List.exists_cons_of_ne_nil (String.utf8EncodeChar_ne_nil (c := other))
          rw [bytes_cons, encoded, bytes_nil, List.cons_append]
          exact List.nil_lt_cons byte _
  | cons first rest induction =>
      cases right with
      | nil => simp [notAfter] at before
      | cons other others =>
          rw [bytes_cons, bytes_cons]
          rcases (notAfter_cons_iff first other rest others).1 before with smaller | ⟨same, tails⟩
          · exact utf8EncodeChar_append_lt smaller (bytes rest) (bytes others)
          · have head : first = other := Char.toNat_inj.1 same
            subst head
            exact List.append_left_lt (induction tails fun equal => differs (equal ▸ rfl))

/-- The order of texts is that of their encodings. -/
theorem notAfter_iff_bytes_le
    (left right : Text) :
    notAfter left right = true ↔ left.bytes ≤ right.bytes := by
  constructor
  · intro before
    by_cases same : left = right
    · rw [same]
      exact List.le_refl right.bytes
    · exact List.le_of_lt (bytes_lt_of_notAfter before same)
  · intro inOrder
    by_contra after
    have backward : notAfter right left = true :=
      (notAfter_total left right).resolve_left after
    have differs : right ≠ left := by
      rintro rfl
      exact after backward
    exact inOrder (bytes_lt_of_notAfter backward differs)

/-- Different texts are sorted into a strictly increasing list. -/
theorem pairwise_lt_sort
    {texts : List Text}
    (distinct : texts.Nodup) :
    (sort texts).Pairwise fun earlier later => earlier.bytes < later.bytes := by
  have different : (sort texts).Nodup := (sort_perm texts).nodup_iff.2 distinct
  have ordered := List.pairwise_and_iff.2 ⟨pairwise_notAfter_sort texts, different⟩
  exact ordered.imp fun ⟨before, differs⟩ => bytes_lt_of_notAfter before differs

/-- A strictly increasing list is determined by the texts that it holds. -/
theorem eq_of_increasing
    {left right : List Text}
    (leftIncreases : left.Pairwise fun earlier later => earlier.bytes < later.bytes)
    (rightIncreases : right.Pairwise fun earlier later => earlier.bytes < later.bytes)
    (same : ∀ text, text ∈ left ↔ text ∈ right) :
    left = right := by
  have distinct {texts : List Text}
      (increases : texts.Pairwise fun earlier later => earlier.bytes < later.bytes) :
      texts.Nodup := by
    refine increases.imp fun {earlier later} before equal => ?_
    rw [equal] at before
    exact List.lt_irrefl _ before
  have perm : left.Perm right :=
    (List.perm_ext_iff_of_nodup (distinct leftIncreases) (distinct rightIncreases)).2 same
  refine perm.eq_of_pairwise ?_ leftIncreases rightIncreases
  intro earlier later _ _ forward backward
  exact (List.lt_asymm forward backward).elim

end UnoBindgen.Text
