import Mathlib
import UnoBindgen.Text.Basic

/-!
# Sorting forgets the order

The order of texts is total, so a sorted list depends on which texts it holds and not on the order
in which they came.
-/

namespace UnoBindgen.Text

theorem notAfter_cons_iff
    (first other : Char)
    (rest others : Text) :
    notAfter (first :: rest) (other :: others) = true ↔
      first.toNat < other.toNat ∨ first.toNat = other.toNat ∧ notAfter rest others = true := by
  by_cases same : first = other
  · simp [notAfter, same]
  · have differs : first.toNat ≠ other.toNat := fun equal => same (Char.toNat_inj.1 equal)
    simp [notAfter, same, differs]

theorem notAfter_total (left right : Text) :
    notAfter left right = true ∨ notAfter right left = true := by
  induction left generalizing right with
  | nil => simp [notAfter]
  | cons first rest induction =>
      cases right with
      | nil => simp [notAfter]
      | cons other others =>
          rw [notAfter_cons_iff, notAfter_cons_iff]
          rcases Nat.lt_trichotomy first.toNat other.toNat with smaller | same | greater
          · exact Or.inl (Or.inl smaller)
          · exact (induction others).imp (fun tails => Or.inr ⟨same, tails⟩)
              fun tails => Or.inr ⟨same.symm, tails⟩
          · exact Or.inr (Or.inl greater)

theorem notAfter_antisymm
    {left right : Text}
    (forward : notAfter left right = true)
    (backward : notAfter right left = true) :
    left = right := by
  induction left generalizing right with
  | nil =>
      cases right with
      | nil => rfl
      | cons other others => simp [notAfter] at backward
  | cons first rest induction =>
      cases right with
      | nil => simp [notAfter] at forward
      | cons other others =>
          rw [notAfter_cons_iff] at forward backward
          rcases forward with smaller | ⟨same, forwardTails⟩
          · omega
          · rcases backward with smaller | ⟨-, backwardTails⟩
            · omega
            · rw [Char.toNat_inj.1 same, induction forwardTails backwardTails]

theorem notAfter_trans
    {left middle right : Text}
    (first : notAfter left middle = true)
    (second : notAfter middle right = true) :
    notAfter left right = true := by
  induction left generalizing middle right with
  | nil => simp [notAfter]
  | cons leftHead leftRest induction =>
      cases middle with
      | nil => simp [notAfter] at first
      | cons middleHead middleRest =>
          cases right with
          | nil => simp [notAfter] at second
          | cons rightHead rightRest =>
              rw [notAfter_cons_iff] at first second ⊢
              rcases first with smaller | ⟨sameFirst, firstTails⟩
              · omega
              · rcases second with smaller | ⟨sameSecond, secondTails⟩
                · omega
                · exact Or.inr ⟨sameFirst.trans sameSecond, induction firstTails secondTails⟩

theorem insertSorted_perm
    (text : Text)
    (texts : List Text) :
    (insertSorted text texts).Perm (text :: texts) := by
  induction texts with
  | nil => exact List.Perm.refl _
  | cons first rest induction =>
      rw [insertSorted]
      split
      · exact List.Perm.refl _
      · exact (induction.cons first).trans (List.Perm.swap text first rest)

theorem pairwise_notAfter_insertSorted
    (text : Text)
    {texts : List Text}
    (sorted : texts.Pairwise fun earlier later => notAfter earlier later = true) :
    (insertSorted text texts).Pairwise fun earlier later => notAfter earlier later = true := by
  induction texts with
  | nil => exact List.pairwise_singleton _ text
  | cons first rest induction =>
      obtain ⟨behindFirst, restSorted⟩ := List.pairwise_cons.1 sorted
      rw [insertSorted]
      split
      · rename_i before
        refine List.pairwise_cons.2 ⟨fun other member => ?_, sorted⟩
        rcases List.mem_cons.1 member with rfl | later
        · exact before
        · exact notAfter_trans before (behindFirst other later)
      · rename_i behind
        refine List.pairwise_cons.2 ⟨fun other member => ?_, induction restSorted⟩
        rcases List.mem_cons.1 ((insertSorted_perm text rest).mem_iff.1 member) with rfl | later
        · exact (notAfter_total other first).resolve_left behind
        · exact behindFirst other later

@[simp]
theorem sort_nil :
    sort [] = [] := rfl

theorem pairwise_notAfter_sort (texts : List Text) :
    (sort texts).Pairwise fun earlier later => notAfter earlier later = true := by
  induction texts with
  | nil => exact List.Pairwise.nil
  | cons text rest induction => exact pairwise_notAfter_insertSorted text induction

theorem sort_perm (texts : List Text) :
    (sort texts).Perm texts := by
  induction texts with
  | nil => exact List.Perm.refl []
  | cons text rest induction => exact (insertSorted_perm text _).trans (induction.cons text)

/-- Lists that hold the same texts are sorted alike. -/
theorem sort_eq_of_perm
    {left right : List Text}
    (perm : left.Perm right) :
    sort left = sort right := by
  apply List.Perm.eq_of_pairwise (fun _ _ _ _ => notAfter_antisymm)
    (pairwise_notAfter_sort left) (pairwise_notAfter_sort right)
  exact (sort_perm left).trans (perm.trans (sort_perm right).symm)

theorem mem_sort
    (texts : List Text)
    (text : Text) :
    text ∈ sort texts ↔ text ∈ texts :=
  (sort_perm texts).mem_iff

end UnoBindgen.Text
