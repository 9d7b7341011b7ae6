import Mathlib
import UnoBindgen.Identifier
import UnoBindgen.Text.Blank
import UnoBindgen.Proofs.Text.Split

/-!
# The characters of identifiers

An identifier is non-empty and consists of ASCII letters, digits and underscores only, so none of
the separators of this library (dots, slashes, brackets, commas, white space, line feeds) occurs
in it.  A qualified identifier is a join of identifiers with dots.
-/

namespace UnoBindgen

namespace Identifier

/-- The code points that may follow in an identifier. -/
theorem isFollowing_iff_toNat (character : Char) :
    isFollowing character = true ↔
      (65 ≤ character.toNat ∧ character.toNat ≤ 90) ∨
      (97 ≤ character.toNat ∧ character.toNat ≤ 122) ∨
      character.toNat = 95 ∨
      (48 ≤ character.toNat ∧ character.toNat ≤ 57) := by
  have underscore : character = '_' ↔ character.toNat = 95 := by
    constructor
    · rintro rfl
      rfl
    · intro code
      exact Char.toNat_inj.1 code
  simp only [isFollowing, isInitial, Char.isAlpha, Char.isUpper, Char.isLower, Char.isDigit,
    Bool.or_eq_true, Bool.and_eq_true, decide_eq_true_eq, beq_iff_eq, ge_iff_le,
    UInt32.le_iff_toNat_le, underscore]
  change
    (((65 ≤ character.toNat ∧ character.toNat ≤ 90) ∨
        (97 ≤ character.toNat ∧ character.toNat ≤ 122)) ∨ character.toNat = 95) ∨
      (48 ≤ character.toNat ∧ character.toNat ≤ 57) ↔ _
  omega

theorem isFollowing_of_isInitial
    {character : Char}
    (initial : isInitial character = true) :
    isFollowing character = true := by
  simp [isFollowing, initial]

/-- White space never belongs to an identifier. -/
theorem isBlank_eq_false_of_isFollowing
    {character : Char}
    (following : isFollowing character = true) :
    Text.isBlank character = false := by
  rw [isFollowing_iff_toNat] at following
  simp only [Text.isBlank, Bool.or_eq_false_iff, Bool.and_eq_false_iff, decide_eq_false_iff_not,
    beq_eq_false_iff_ne]
  omega

end Identifier

/-! ## Identifiers -/

theorem isIdentifier_cons_iff (first : Char) (rest : Text) :
    isIdentifier (first :: rest) = true ↔
      Identifier.isInitial first = true ∧
        ∀ character ∈ rest, Identifier.isFollowing character = true := by
  simp [isIdentifier]

theorem ne_nil_of_isIdentifier
    {text : Text}
    (identifier : isIdentifier text = true) :
    text ≠ [] := by
  rintro rfl
  simp [isIdentifier] at identifier

theorem isFollowing_of_mem_isIdentifier
    {text : Text}
    (identifier : isIdentifier text = true)
    {character : Char}
    (member : character ∈ text) :
    Identifier.isFollowing character = true := by
  cases text with
  | nil => simp at member
  | cons first rest =>
      rw [isIdentifier_cons_iff] at identifier
      rcases List.mem_cons.1 member with rfl | inRest
      · exact Identifier.isFollowing_of_isInitial identifier.1
      · exact identifier.2 character inRest

/-- A character that cannot follow in an identifier does not occur in one. -/
theorem not_mem_of_isIdentifier
    {text : Text}
    (identifier : isIdentifier text = true)
    {character : Char}
    (outside : Identifier.isFollowing character = false) :
    character ∉ text := by
  intro member
  have following := isFollowing_of_mem_isIdentifier identifier member
  rw [outside] at following
  exact Bool.false_ne_true following

theorem isIdentifier_append
    {name ending : Text}
    (identifier : isIdentifier name = true)
    (continues : ∀ character ∈ ending, Identifier.isFollowing character = true) :
    isIdentifier (name ++ ending) = true := by
  obtain ⟨first, rest, rfl⟩ :=
    List.exists_cons_of_ne_nil (ne_nil_of_isIdentifier identifier)
  rw [isIdentifier_cons_iff] at identifier
  rw [List.cons_append, isIdentifier_cons_iff, List.forall_mem_append]
  exact ⟨identifier.1, identifier.2, continues⟩

/-! ## Qualified identifiers -/

/-- The dotted sequences of identifiers. -/
def IsDotted (text : Text) : Prop :=
  ∃ segments : List Text,
    segments ≠ [] ∧
      (∀ segment ∈ segments, isIdentifier segment = true) ∧
      text = Text.join "." segments

theorem isQualifiedIdentifier_iff_isDotted (text : Text) :
    isQualifiedIdentifier text = true ↔ IsDotted text := by
  rw [isQualifiedIdentifier, List.all_eq_true]
  constructor
  · intro identifiers
    exact ⟨text.splitAt '.', Text.splitAt_ne_nil '.' text, identifiers,
      (Text.join_splitAt '.' text).symm⟩
  · rintro ⟨segments, nonempty, identifiers, rfl⟩
    have free : ∀ segment ∈ segments, '.' ∉ segment := by
      intro segment member
      exact not_mem_of_isIdentifier (identifiers segment member) (by decide)
    rw [show Text.join "." segments = Text.join ['.'] segments from rfl,
      Text.splitAt_join nonempty free]
    exact identifiers

namespace IsDotted

theorem ne_nil
    {text : Text}
    (dotted : IsDotted text) :
    text ≠ [] := by
  obtain ⟨segments, nonempty, identifiers, rfl⟩ := dotted
  exact Text.join_ne_nil _ nonempty fun segment member =>
    ne_nil_of_isIdentifier (identifiers segment member)

/-- The characters of a dotted name are those of identifiers and the dot. -/
theorem isFollowing_or_dot
    {text : Text}
    (dotted : IsDotted text)
    {character : Char}
    (member : character ∈ text) :
    Identifier.isFollowing character = true ∨ character = '.' := by
  obtain ⟨segments, -, identifiers, rfl⟩ := dotted
  rcases Text.mem_join member with inSeparator | ⟨segment, segmentMember, inSegment⟩
  · exact Or.inr (by simpa using inSeparator)
  · exact Or.inl
      (isFollowing_of_mem_isIdentifier (identifiers segment segmentMember) inSegment)

theorem not_mem
    {text : Text}
    (dotted : IsDotted text)
    {character : Char}
    (outside : Identifier.isFollowing character = false)
    (noDot : character ≠ '.') :
    character ∉ text := by
  intro member
  rcases dotted.isFollowing_or_dot member with following | dot
  · rw [outside] at following
    exact Bool.false_ne_true following
  · exact noDot dot

end IsDotted

end UnoBindgen
