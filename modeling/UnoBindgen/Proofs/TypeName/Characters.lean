import UnoBindgen.Proofs.Text.Lines
import UnoBindgen.Proofs.TypeName.Classification

/-!
# The characters of type names and spellings

A type name may be padded with white space between its brackets, so a comment that mentions it can
run over several lines.  Apart from white space it consists of dotted names, brackets and commas,
so it never has a double quote; and no spelling has a double quote or a line feed.
-/

namespace UnoBindgen.TypeName

/-- The characters of type names: those of dotted names, white space, brackets and commas. -/
def isTypeCharacter (character : Char) : Bool :=
  Identifier.isFollowing character || Text.isBlank character ||
    ['.', '<', '>', ',', '[', ']'].contains character

theorem IsFlat.isTypeCharacter
    {text : Text}
    (flat : IsFlat text)
    {character : Char}
    (member : character ∈ text) :
    isTypeCharacter character = true := by
  rcases flat character member with following | rfl | rfl
  · simp [TypeName.isTypeCharacter, following]
  · decide
  · decide

/-- A type name has no other characters. -/
theorem Matches.isTypeCharacter
    {clause : Clause}
    {name : Text}
    (matched : Matches clause name)
    {character : Char}
    (member : character ∈ name) :
    isTypeCharacter character = true := by
  have blanks {text : Text} (blank : Text.AllBlank text) (inText : character ∈ text) :
      TypeName.isTypeCharacter character = true := by
    simp [TypeName.isTypeCharacter, blank character inText]
  induction matched with
  | void => exact isFlat_void.isTypeCharacter member
  | string => exact isFlat_string.isTypeCharacter member
  | primitive known => exact (isFlat_of_mem_primitiveNames known).isTypeCharacter member
  | named dotted notVoid notString notPrimitive =>
      exact (isFlat_of_isDotted dotted).isTypeCharacter member
  | sequence matched notVoid inElement =>
      simp only [List.mem_cons] at member
      rcases member with rfl | rfl | inside
      · decide
      · decide
      · exact inElement inside
  | @instantiated struct arguments dotted nonempty padded matched notVoid inNames =>
      simp only [List.mem_append, List.mem_cons, List.not_mem_nil, or_false] at member
      rcases member with inStruct | rfl | inArguments | rfl
      · exact (isFlat_of_isDotted dotted).isTypeCharacter inStruct
      · decide
      · rcases Text.mem_join inArguments with inComma | ⟨text, textMember, inText⟩
        · rw [List.mem_singleton.1 inComma]
          decide
        · obtain ⟨argument, argumentMember, rfl⟩ := List.mem_map.1 textMember
          have blank := padded argument argumentMember
          rcases List.mem_append.1 inText with inFront | inAfter
          · rcases List.mem_append.1 inFront with inBefore | inName
            · exact blanks blank.1 inBefore
            · exact inNames argument argumentMember inName
          · exact blanks blank.2 inAfter
      · decide

/-- A type with a category matches a clause of that category. -/
theorem matches_of_category
    {type : TypeName}
    {category : Category}
    (accepted : type.category = .ok category) :
    ∃ clause, Matches clause type.text ∧ clause.category = category := by
  rw [TypeName.category] at accepted
  split at accepted
  · rename_i found classified
    rw [← Except.ok.inj accepted]
    exact matches_of_classify classified
  · exact absurd accepted (by simp)

theorem mem_primitiveNames_of_category
    {type : TypeName}
    (primitive : type.category = .ok .primitive) :
    type.text ∈ primitiveNames := by
  obtain ⟨clause, matched, same⟩ := matches_of_category primitive
  generalize type.text = text at matched ⊢
  cases matched with
  | primitive known => exact known
  | void => exact absurd same (by decide)
  | string => exact absurd same (by decide)
  | named => exact absurd same (by decide)
  | sequence => exact absurd same (by decide)
  | instantiated => exact absurd same (by decide)

/-- A character that belongs to no type name is in none. -/
theorem not_mem_of_category
    {type : TypeName}
    {category : Category}
    (accepted : type.category = .ok category)
    {character : Char}
    (outside : isTypeCharacter character = false) :
    character ∉ type.text := by
  obtain ⟨clause, matched, -⟩ := matches_of_category accepted
  intro member
  rw [matched.isTypeCharacter member] at outside
  exact Bool.false_ne_true outside.symm

/-- Only an aggregate can have a line feed in its name. -/
theorem lineFeed_not_mem_of_category
    {type : TypeName}
    {category : Category}
    (accepted : type.category = .ok category)
    (supported : category ≠ .aggregate) :
    '\n' ∉ type.text := by
  obtain ⟨clause, matched, rfl⟩ := matches_of_category accepted
  have flat : IsFlat type.text := by
    refine matched.isFlat ?_ ?_
    · rintro rfl
      exact supported rfl
    · rintro rfl
      exact supported rfl
  exact flat.not_mem (by decide) (by decide) (by decide)

/-- A type with a category has no double quote in its name. -/
theorem quote_not_mem_of_category
    {type : TypeName}
    {category : Category}
    (accepted : type.category = .ok category) :
    '"' ∉ type.text :=
  not_mem_of_category accepted (by decide)

theorem isInline_primitiveSpelling
    (name : Text)
    (surface : Surface) :
    Text.IsInline (primitiveSpelling ((primitive? name).getD ⟨[], []⟩) surface) := by
  have table :
      ∀ entry ∈ primitiveTypes,
        Text.IsInline entry.2.native ∧ Text.IsInline entry.2.haskell := by
    decide
  have both :
      Text.IsInline ((primitive? name).getD ⟨[], []⟩).native ∧
        Text.IsInline ((primitive? name).getD ⟨[], []⟩).haskell := by
    cases found : primitive? name with
    | none => decide
    | some primitive =>
        obtain ⟨before, after, entries, -⟩ := List.lookup_eq_some_iff.1 found
        exact table (name, primitive) (by rw [entries]; simp)
  cases surface
  · exact both.1
  · exact both.1
  · exact both.2
  · exact both.2

/-- Spellings stay on their line and have no double quote. -/
theorem isInline_of_spelling
    {type : TypeName}
    {surface : Surface}
    {spelled : Text}
    (known : type.spelling (some surface) = .ok spelled) :
    Text.IsInline spelled := by
  rw [spelling_some_eq] at known
  split at known
  · exact absurd known (by simp)
  · rw [← Except.ok.inj known]
    cases surface <;> decide
  · rw [← Except.ok.inj known]
    cases surface <;> decide
  · rw [← Except.ok.inj known]
    exact isInline_primitiveSpelling type.text surface
  · exact absurd known (by simp)

end UnoBindgen.TypeName
