import Mathlib
import UnoBindgen.Proofs.Identifier

/-!
# The regular expression of identifiers

Identifiers are usually given by a regular expression, `[A-Za-z_][A-Za-z0-9_]*`.  Here it is
written out with bracket classes over ranges of characters, and a text matches it exactly when
`isIdentifier` accepts the text.
-/

namespace UnoBindgen.Identifier

open RegularExpression

/-! ## Bracket classes -/

/-- The characters from one to another, as a range in brackets lists them. -/
def charactersFrom (first last : Char) : List Char :=
  (List.range' first.toNat (last.toNat + 1 - first.toNat)).map Char.ofNat

/-- A bracket class: any one of the listed characters. -/
def oneOf (characters : List Char) : RegularExpression Char :=
  (characters.map char).sum

theorem mem_charactersFrom_iff
    (first last : Char)
    (low : last.toNat < 0xD800)
    (character : Char) :
    character ∈ charactersFrom first last ↔
      first.toNat ≤ character.toNat ∧ character.toNat ≤ last.toNat := by
  simp only [charactersFrom, List.mem_map, List.mem_range'_1]
  constructor
  · rintro ⟨code, ⟨least, greatest⟩, rfl⟩
    have valid : code.isValidChar := Or.inl (by omega)
    rw [Char.toNat_ofNat, if_pos valid]
    omega
  · rintro ⟨least, greatest⟩
    exact ⟨character.toNat, ⟨least, by omega⟩, Char.ofNat_toNat character⟩

theorem mem_matches_oneOf_iff
    (characters : List Char)
    (text : Text) :
    text ∈ (oneOf characters).matches' ↔ ∃ character ∈ characters, text = [character] := by
  induction characters with
  | nil =>
      have nothing : text ∉ (oneOf []).matches' := Language.notMem_zero text
      simp [nothing]
  | cons first rest induction =>
      have divided : oneOf (first :: rest) = char first + oneOf rest := rfl
      rw [divided, matches'_add, Language.mem_add, induction, matches'_char,
        List.exists_mem_cons_iff]
      exact Iff.rfl

theorem mem_matches_star_oneOf_iff
    (characters : List Char)
    (text : Text) :
    text ∈ (oneOf characters).star.matches' ↔ ∀ character ∈ text, character ∈ characters := by
  rw [matches'_star, Language.mem_kstar]
  constructor
  · rintro ⟨words, rfl, matched⟩ character member
    obtain ⟨word, wordMember, inWord⟩ := List.mem_flatten.1 member
    obtain ⟨listed, listedMember, rfl⟩ :=
      (mem_matches_oneOf_iff characters word).1 (matched word wordMember)
    rwa [List.mem_singleton.1 inWord]
  · intro listed
    refine ⟨text.map fun character => [character], ?_, ?_⟩
    · induction text with
      | nil => rfl
      | cons first rest induction =>
          rw [List.map_cons, List.flatten_cons, ← induction fun character member =>
            listed character (List.mem_cons_of_mem first member)]
          rfl
    · intro word member
      obtain ⟨character, characterMember, rfl⟩ := List.mem_map.1 member
      exact (mem_matches_oneOf_iff characters [character]).2
        ⟨character, listed character characterMember, rfl⟩

/-! ## The expression -/

/-- The class `[A-Za-z_]`. -/
def initials : List Char :=
  charactersFrom 'A' 'Z' ++ charactersFrom 'a' 'z' ++ ['_']

/-- The class `[A-Za-z0-9_]`. -/
def followers : List Char :=
  initials ++ charactersFrom '0' '9'

/-- The regular expression `[A-Za-z_][A-Za-z0-9_]*`. -/
def expression : RegularExpression Char :=
  oneOf initials * (oneOf followers).star

theorem isInitial_iff_mem_initials (character : Char) :
    isInitial character = true ↔ character ∈ initials := by
  have upper := mem_charactersFrom_iff 'A' 'Z' (by decide) character
  have lower := mem_charactersFrom_iff 'a' 'z' (by decide) character
  rw [initials, List.mem_append, List.mem_append, upper, lower, List.mem_singleton]
  simp only [isInitial, Char.isAlpha, Char.isUpper, Char.isLower, Bool.or_eq_true,
    Bool.and_eq_true, decide_eq_true_eq, beq_iff_eq, ge_iff_le, UInt32.le_iff_toNat_le]
  rfl

theorem isFollowing_iff_mem_followers (character : Char) :
    isFollowing character = true ↔ character ∈ followers := by
  have digits := mem_charactersFrom_iff '0' '9' (by decide) character
  rw [followers, List.mem_append, ← isInitial_iff_mem_initials, digits]
  simp only [isFollowing, Char.isDigit, Bool.or_eq_true, Bool.and_eq_true, decide_eq_true_eq,
    ge_iff_le, UInt32.le_iff_toNat_le]
  rfl

/-- Identifiers are the texts that match the expression. -/
theorem mem_matches_expression_iff (text : Text) :
    text ∈ expression.matches' ↔ isIdentifier text = true := by
  rw [expression, matches'_mul, Language.mem_mul]
  constructor
  · rintro ⟨start, startMatches, rest, restMatches, rfl⟩
    obtain ⟨first, listed, rfl⟩ := (mem_matches_oneOf_iff initials start).1 startMatches
    rw [mem_matches_star_oneOf_iff] at restMatches
    rw [List.singleton_append, isIdentifier_cons_iff, isInitial_iff_mem_initials]
    exact ⟨listed, fun character member =>
      (isFollowing_iff_mem_followers character).2 (restMatches character member)⟩
  · intro identifier
    obtain ⟨first, rest, rfl⟩ :=
      List.exists_cons_of_ne_nil (ne_nil_of_isIdentifier identifier)
    rw [isIdentifier_cons_iff, isInitial_iff_mem_initials] at identifier
    refine ⟨[first], (mem_matches_oneOf_iff initials [first]).2 ⟨first, identifier.1, rfl⟩, rest,
      (mem_matches_star_oneOf_iff followers rest).2 fun character member => ?_, rfl⟩
    exact (isFollowing_iff_mem_followers character).1 (identifier.2 character member)

example : "B_1".toList ∈ expression.matches' ∧ "1_B".toList ∉ expression.matches' := by
  simp only [mem_matches_expression_iff]
  decide

end UnoBindgen.Identifier
