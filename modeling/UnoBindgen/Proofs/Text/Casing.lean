import Mathlib
import UnoBindgen.Text.Casing
import UnoBindgen.Proofs.Identifier

/-!
# The letter case of identifiers

On the characters of identifiers the case mappings are those of ASCII.  Capitalizing an
identifier gives an identifier that differs from it in letter case only, and identifiers that
differ in letter case only have the same upper-case form.
-/

namespace UnoBindgen.Text

/-- A text with its ASCII letters made small. -/
def foldAscii (text : Text) : Text :=
  text.map Char.toLower

/-- Folding brings no slash into a text. -/
theorem slash_not_mem_foldAscii
    {text : Text}
    (noSlash : '/' ∉ text) :
    '/' ∉ foldAscii text := by
  intro member
  obtain ⟨character, original, folded⟩ := List.mem_map.1 member
  have notLetter : ¬ character.isUpper := by
    intro upper
    have small : character.toLower.isLower = true := by simp [Char.isAlpha, upper]
    rw [folded] at small
    exact absurd small (by decide)
  rw [Char.toLower_eq_of_not_isUpper notLetter] at folded
  exact noSlash (folded ▸ original)

theorem upperChar_of_isFollowing
    {character : Char}
    (following : Identifier.isFollowing character = true) :
    upperChar character = character.toUpper := by
  have ascii : character.toNat < 128 := by
    rw [Identifier.isFollowing_iff_toNat] at following
    omega
  rw [upperChar, if_pos ascii]

theorem toUpper_of_isFollowing
    {text : Text}
    (following : ∀ character ∈ text, Identifier.isFollowing character = true) :
    toUpper text = text.map Char.toUpper :=
  List.map_congr_left fun character member =>
    upperChar_of_isFollowing (following character member)

/-- The upper-case form does not depend on the letter case. -/
theorem toUpper_eq_of_foldAscii_eq
    {left right : Text}
    (leftFollowing : ∀ character ∈ left, Identifier.isFollowing character = true)
    (rightFollowing : ∀ character ∈ right, Identifier.isFollowing character = true)
    (same : foldAscii left = foldAscii right) :
    toUpper left = toUpper right := by
  have unfolded (text : Text) : text.map Char.toUpper = (foldAscii text).map Char.toUpper := by
    simp [foldAscii, Function.comp_def]
  rw [toUpper_of_isFollowing leftFollowing, toUpper_of_isFollowing rightFollowing,
    unfolded left, unfolded right, same]

/-! ## Capitalizing -/

theorem capitalize_of_isIdentifier
    {first : Char}
    {rest : Text}
    (identifier : isIdentifier (first :: rest) = true) :
    capitalize (first :: rest) = first.toUpper :: rest := by
  have following : Identifier.isFollowing first = true :=
    isFollowing_of_mem_isIdentifier identifier List.mem_cons_self
  have decoded : first ≠ replacementChar := by
    rintro rfl
    exact absurd following (by decide)
  rw [capitalize, if_neg decoded, upperChar_of_isFollowing following]

theorem isInitial_toUpper
    {character : Char}
    (initial : Identifier.isInitial character = true) :
    Identifier.isInitial character.toUpper = true := by
  simp only [Identifier.isInitial, Bool.or_eq_true, beq_iff_eq] at initial ⊢
  rcases initial with letter | rfl
  · exact Or.inl (by simpa using letter)
  · exact Or.inr rfl

theorem isIdentifier_capitalize
    {text : Text}
    (identifier : isIdentifier text = true) :
    isIdentifier text.capitalize = true := by
  cases text with
  | nil => exact identifier
  | cons first rest =>
      rw [capitalize_of_isIdentifier identifier]
      rw [isIdentifier_cons_iff] at identifier ⊢
      exact ⟨isInitial_toUpper identifier.1, identifier.2⟩

theorem lowerChar_of_isFollowing
    {character : Char}
    (following : Identifier.isFollowing character = true) :
    lowerChar character = character.toLower := by
  have ascii : character.toNat < 128 := by
    rw [Identifier.isFollowing_iff_toNat] at following
    omega
  rw [lowerChar, if_pos ascii]

theorem uncapitalize_of_isIdentifier
    {first : Char}
    {rest : Text}
    (identifier : isIdentifier (first :: rest) = true) :
    uncapitalize (first :: rest) = first.toLower :: rest := by
  have following : Identifier.isFollowing first = true :=
    isFollowing_of_mem_isIdentifier identifier List.mem_cons_self
  have decoded : first ≠ replacementChar := by
    rintro rfl
    exact absurd following (by decide)
  rw [uncapitalize, if_neg decoded, lowerChar_of_isFollowing following]

theorem isInitial_toLower
    {character : Char}
    (initial : Identifier.isInitial character = true) :
    Identifier.isInitial character.toLower = true := by
  simp only [Identifier.isInitial, Bool.or_eq_true, beq_iff_eq] at initial ⊢
  rcases initial with letter | rfl
  · exact Or.inl (by simpa using letter)
  · exact Or.inr rfl

theorem isIdentifier_uncapitalize
    {text : Text}
    (identifier : isIdentifier text = true) :
    isIdentifier text.uncapitalize = true := by
  cases text with
  | nil => exact identifier
  | cons first rest =>
      rw [uncapitalize_of_isIdentifier identifier]
      rw [isIdentifier_cons_iff] at identifier ⊢
      exact ⟨isInitial_toLower identifier.1, identifier.2⟩

theorem uncapitalize_append
    {name ending : Text}
    (identifier : isIdentifier name = true)
    (continues : ∀ character ∈ ending, Identifier.isFollowing character = true) :
    (name ++ ending).uncapitalize = name.uncapitalize ++ ending := by
  have longer := isIdentifier_append identifier continues
  obtain ⟨first, rest, rfl⟩ :=
    List.exists_cons_of_ne_nil (ne_nil_of_isIdentifier identifier)
  rw [List.cons_append] at longer ⊢
  rw [uncapitalize_of_isIdentifier longer, uncapitalize_of_isIdentifier identifier,
    List.cons_append]

/-- Capitalizing an identifier changes its letter case only. -/
theorem foldAscii_capitalize
    {text : Text}
    (identifier : isIdentifier text = true) :
    foldAscii text.capitalize = foldAscii text := by
  cases text with
  | nil => rfl
  | cons first rest =>
      rw [capitalize_of_isIdentifier identifier]
      simp [foldAscii]

/-! ## The case of the first letter -/

/-- Two texts agree up to the case of their first letters. -/
def AgreeUpToInitial (left right : Text) : Prop :=
  left.head?.map Char.toLower = right.head?.map Char.toLower ∧ left.tail = right.tail

instance (left right : Text) : Decidable (AgreeUpToInitial left right) :=
  inferInstanceAs (Decidable (_ ∧ _))

/-- A text with a small first letter says everything but the case of that letter. -/
theorem uncapitalize_eq_iff
    {left right : Text}
    (leftIdentifier : isIdentifier left = true)
    (rightIdentifier : isIdentifier right = true) :
    left.uncapitalize = right.uncapitalize ↔ AgreeUpToInitial left right := by
  obtain ⟨first, rest, rfl⟩ :=
    List.exists_cons_of_ne_nil (ne_nil_of_isIdentifier leftIdentifier)
  obtain ⟨other, others, rfl⟩ :=
    List.exists_cons_of_ne_nil (ne_nil_of_isIdentifier rightIdentifier)
  rw [uncapitalize_of_isIdentifier leftIdentifier, uncapitalize_of_isIdentifier rightIdentifier]
  simp [AgreeUpToInitial]

/-- A text with a capital first letter says everything but the case of that letter. -/
theorem capitalize_eq_iff
    {left right : Text}
    (leftIdentifier : isIdentifier left = true)
    (rightIdentifier : isIdentifier right = true) :
    left.capitalize = right.capitalize ↔ AgreeUpToInitial left right := by
  obtain ⟨first, rest, rfl⟩ :=
    List.exists_cons_of_ne_nil (ne_nil_of_isIdentifier leftIdentifier)
  obtain ⟨other, others, rfl⟩ :=
    List.exists_cons_of_ne_nil (ne_nil_of_isIdentifier rightIdentifier)
  have sameLetter : first.toUpper = other.toUpper ↔ first.toLower = other.toLower := by
    constructor
    · intro same
      simpa using congrArg Char.toLower same
    · intro same
      simpa using congrArg Char.toUpper same
  rw [capitalize_of_isIdentifier leftIdentifier, capitalize_of_isIdentifier rightIdentifier]
  simp [AgreeUpToInitial, sameLetter]

end UnoBindgen.Text
