import UnoBindgen.Native
import UnoBindgen.Proofs.Identifier.Expression
import UnoBindgen.Proofs.Naming.Symbols

/-!
# Derived names as words of C and C++

An exported symbol and a header guard have to be identifiers of C, and the name of the generated
header stands between quotation marks in an `#include` line.  The path of a checked entity starts
with a letter or an underscore and goes on with characters of identifiers, so that a symbol behind
a checked prefix always is an identifier.  What stands before the path in a guard is only checked
character by character, and an extension only for slashes: a guard may start with a digit, and the
name of a header may end its own line.

The main theorem says for which accepted settings all derived names are words as they should be.
-/

namespace UnoBindgen

/-! ## Identifiers behind other characters -/

theorem Identifier.isDigit_eq_false_of_isInitial
    {character : Char}
    (initial : isInitial character = true) :
    character.isDigit = false := by
  rw [Bool.eq_false_iff]
  intro digit
  simp only [isInitial, Char.isAlpha, Char.isUpper, Char.isLower, Char.isDigit, Bool.or_eq_true,
    Bool.and_eq_true, decide_eq_true_eq, ge_iff_le, beq_iff_eq,
    UInt32.le_iff_toNat_le] at initial digit
  rcases initial with (upper | lower) | rfl
  · exact absurd (upper.1.trans digit.2) (by decide)
  · exact absurd (lower.1.trans digit.2) (by decide)
  · exact absurd digit.2 (by decide)

/-- Characters of identifiers in front of an identifier make an identifier unless they start with
a digit. -/
theorem isIdentifier_append_iff_of_following
    {front : Text}
    (following : ∀ character ∈ front, Identifier.isFollowing character = true)
    {name : Text}
    (identifier : isIdentifier name = true) :
    isIdentifier (front ++ name) = true ↔ ∀ character ∈ front.head?, character.isDigit = false := by
  cases front with
  | nil => simp [identifier]
  | cons first rest =>
      have firstFollowing := following first List.mem_cons_self
      have restFollowing :
          ∀ character ∈ rest ++ name, Identifier.isFollowing character = true := by
        rw [List.forall_mem_append]
        exact ⟨fun character member => following character (List.mem_cons_of_mem first member),
          fun character member => isFollowing_of_mem_isIdentifier identifier member⟩
      rw [List.cons_append, isIdentifier_cons_iff, and_iff_left restFollowing, List.head?_cons]
      simp only [Option.mem_some_iff, forall_eq']
      -- A digit follows in identifiers, and it starts none.
      rw [Identifier.isFollowing, Bool.or_eq_true] at firstFollowing
      exact ⟨Identifier.isDigit_eq_false_of_isInitial, fun noDigit =>
        firstFollowing.resolve_right (by simp [noDigit])⟩

/-! ## Upper-case identifiers -/

theorem Identifier.isFollowing_toUpper
    {character : Char}
    (following : isFollowing character = true) :
    isFollowing character.toUpper = true := by
  rw [isFollowing, Bool.or_eq_true] at following
  rcases following with initial | digit
  · exact isFollowing_of_isInitial (Text.isInitial_toUpper initial)
  · have unchanged : character.toUpper = character := by
      refine Char.toUpper_eq_of_not_isLower fun lower => ?_
      simp only [Char.isDigit, Char.isLower, Bool.and_eq_true, decide_eq_true_eq, ge_iff_le,
        UInt32.le_iff_toNat_le] at digit lower
      exact absurd (lower.1.trans digit.2) (by decide)
    rw [unchanged, isFollowing, digit, Bool.or_true]

theorem Text.isIdentifier_toUpper
    {text : Text}
    (identifier : isIdentifier text = true) :
    isIdentifier text.toUpper = true := by
  rw [Text.toUpper_of_isFollowing fun _ member => isFollowing_of_mem_isIdentifier identifier member]
  cases text with
  | nil => exact identifier
  | cons first rest =>
      rw [isIdentifier_cons_iff] at identifier
      rw [List.map_cons, isIdentifier_cons_iff, List.forall_mem_map]
      exact ⟨Text.isInitial_toUpper identifier.1, fun character member =>
        Identifier.isFollowing_toUpper (identifier.2 character member)⟩

/-! ## The path inside symbols and guards -/

theorem ModulePath.isIdentifier_flattened
    {path : ModulePath}
    (identifiers : path.HasIdentifiers)
    (inner : path.segments ≠ []) :
    isIdentifier path.flattened = true := by
  obtain ⟨first, rest, segments⟩ := List.exists_cons_of_ne_nil inner
  have joined : path.flattened = first ++ (rest.map (['_'] ++ ·)).flatten := by
    rw [flattened, segments]
    exact Text.join_cons_eq_append_flatten ['_'] first rest
  rw [joined]
  refine isIdentifier_append (identifiers first (segments ▸ List.mem_cons_self)) ?_
  intro character member
  apply isFollowing_of_mem_flattened identifiers
  rw [joined]
  exact List.mem_append_right first member

theorem Entity.isIdentifier_flattened
    {entity : Entity}
    (checked : entity.check = .ok ()) :
    isIdentifier entity.path.flattened = true :=
  ModulePath.isIdentifier_flattened (hasIdentifiers_path checked)
    (by simp [Entity.path, ModulePath.child])

/-! ## Words -/

/-- What may stand between the quotation marks of an `#include` line. -/
structure Native.IsQuotable (operand : Text) : Prop where
  noMark : '"' ∉ operand
  noLineFeed : '\n' ∉ operand
  noReturn : '\r' ∉ operand

theorem Native.isQuotable_append_iff (front back : Text) :
    IsQuotable (front ++ back) ↔ IsQuotable front ∧ IsQuotable back := by
  constructor
  · rintro ⟨noMark, noLineFeed, noReturn⟩
    simp only [List.mem_append, not_or] at noMark noLineFeed noReturn
    exact ⟨⟨noMark.1, noLineFeed.1, noReturn.1⟩, ⟨noMark.2, noLineFeed.2, noReturn.2⟩⟩
  · rintro ⟨frontQuotable, backQuotable⟩
    constructor <;> simp [frontQuotable.noMark, backQuotable.noMark, frontQuotable.noLineFeed,
      backQuotable.noLineFeed, frontQuotable.noReturn, backQuotable.noReturn]

theorem Native.isQuotable_of_isIdentifier
    {name : Text}
    (identifier : isIdentifier name = true) :
    IsQuotable name where
  noMark := not_mem_of_isIdentifier identifier (by decide)
  noLineFeed := not_mem_of_isIdentifier identifier (by decide)
  noReturn := not_mem_of_isIdentifier identifier (by decide)

namespace Names

/-- The derived names that are words of C and C++: symbols and the guard match the expression of
identifiers, and the own header can be included. -/
structure AreWords (names : Names) : Prop where
  callSymbol :
    ∀ function ∈ Identifier.expression.matches',
      names.callSymbol function ∈ Identifier.expression.matches'
  constructorSymbol : names.constructorSymbol ∈ Identifier.expression.matches'
  headerGuard : names.headerGuard ∈ Identifier.expression.matches'
  ownHeader : Native.IsQuotable names.ownHeader

section Accepted

variable
    {options : NamingOptions}
    {entity : Entity}
    (checked : entity.check = .ok ())

include checked

theorem isIdentifier_callSymbol
    (symbolPrefix : isIdentifier options.symbolPrefix = true)
    {function : Text}
    (identifier : isIdentifier function = true) :
    isIdentifier ((ofEntity options entity).callSymbol function) = true := by
  rw [callSymbol_ofEntity]
  refine isIdentifier_append symbolPrefix ?_
  rw [List.forall_mem_append, List.forall_mem_cons]
  exact
    ⟨fun _ member => isFollowing_of_mem_isIdentifier (Entity.isIdentifier_flattened checked) member,
      by decide, fun _ member => isFollowing_of_mem_isIdentifier identifier member⟩

theorem isIdentifier_headerGuard_iff
    (guardPrefix : Settings.isGuardAffix options.guardPrefix = true)
    (guardSuffix : Settings.isGuardAffix options.guardSuffix = true) :
    isIdentifier (ofEntity options entity).headerGuard = true ↔
      ∀ character ∈ options.guardPrefix.head?, character.isDigit = false := by
  have divided :
      (ofEntity options entity).headerGuard =
        options.guardPrefix ++ (entity.path.headerGuard ++ options.guardSuffix) :=
    List.append_assoc ..
  rw [divided]
  refine isIdentifier_append_iff_of_following (List.all_eq_true.1 guardPrefix) ?_
  exact isIdentifier_append (Text.isIdentifier_toUpper (Entity.isIdentifier_flattened checked))
    (List.all_eq_true.1 guardSuffix)

theorem isQuotable_ownHeader_iff :
    Native.IsQuotable (ofEntity options entity).ownHeader ↔
      Native.IsQuotable options.headerExtension := by
  have divided :
      (ofEntity options entity).ownHeader = entity.name ++ options.headerExtension := rfl
  rw [divided, Native.isQuotable_append_iff, and_iff_right]
  exact Native.isQuotable_of_isIdentifier (Entity.isIdentifier_name checked)

end Accepted

/--
Under accepted settings the symbols of a checked entity are identifiers.  Its guard is one too
unless the guard prefix starts with a digit, and its own header can be included unless the
extension of headers has a quotation mark or a line break.
-/
theorem areWords_iff
    (settings : Settings)
    (entity : Entity)
    (accepted : settings.check = .ok ())
    (checked : entity.check = .ok ()) :
    (∀ function ∈ Identifier.expression.matches',
      (ofEntity settings.naming entity).callSymbol function ∈ Identifier.expression.matches') ∧
    (ofEntity settings.naming entity).constructorSymbol ∈ Identifier.expression.matches' ∧
    ((ofEntity settings.naming entity).AreWords ↔
      (∀ character ∈ settings.naming.guardPrefix.head?, character.isDigit = false) ∧
        Native.IsQuotable settings.naming.headerExtension) := by
  have naming : settings.naming.WellFormed := ((Settings.check_eq_ok_iff settings).1 accepted).2.1
  have calls :
      ∀ function ∈ Identifier.expression.matches',
        (ofEntity settings.naming entity).callSymbol function ∈
          Identifier.expression.matches' := by
    intro function identifier
    rw [Identifier.mem_matches_expression_iff] at identifier ⊢
    exact isIdentifier_callSymbol checked naming.symbolPrefix identifier
  have creation :
      (ofEntity settings.naming entity).constructorSymbol ∈ Identifier.expression.matches' :=
    calls constructorFunction ((Identifier.mem_matches_expression_iff _).2 (by decide))
  have guard := isIdentifier_headerGuard_iff checked naming.guardPrefix naming.guardSuffix
  have header :
      Native.IsQuotable (ofEntity settings.naming entity).ownHeader ↔
        Native.IsQuotable settings.naming.headerExtension :=
    isQuotable_ownHeader_iff checked
  rw [← Identifier.mem_matches_expression_iff] at guard
  refine ⟨calls, creation, ?_⟩
  rw [← guard, ← header]
  exact ⟨fun words => ⟨words.headerGuard, words.ownHeader⟩,
    fun facts => ⟨calls, creation, facts.1, facts.2⟩⟩

/-- The default settings with another guard prefix and another extension of headers. -/
def settingsWith (guardPrefix headerExtension : Text) : Settings :=
  { Settings.default with
    naming :=
      { NamingOptions.default with
        guardPrefix := guardPrefix
        headerExtension := headerExtension } }

/-- A guard may start with the path, whatever stands behind it. -/
theorem areWords_bare_prefix :
    (settingsWith [] ".h++").check = .ok () ∧
      (plainInterface "widget" "get").check = .ok () ∧
      (ofEntity (settingsWith [] ".h++").naming (plainInterface "widget" "get")).AreWords := by
  have accepted : (settingsWith [] ".h++").check = .ok () := by decide
  have checked : (plainInterface "widget" "get").check = .ok () := rfl
  obtain ⟨-, -, words⟩ :=
    areWords_iff (settingsWith [] ".h++") (plainInterface "widget" "get") accepted checked
  exact ⟨accepted, checked, words.2 ⟨by simp [settingsWith], by constructor <;> decide⟩⟩

/-- Settings are accepted under which the guard of a checked entity starts with a digit, and
others under which the line that includes its header ends inside the name of the header. -/
theorem exists_accepted_not_areWords :
    ((settingsWith "9" ".hpp").check = .ok () ∧
      (ofEntity (settingsWith "9" ".hpp").naming (plainInterface "Widget" "get")).headerGuard ∉
        Identifier.expression.matches') ∧
    ((settingsWith "HSUNO_" ".h\"\npp").check = .ok () ∧
      '"' ∈ (ofEntity (settingsWith "HSUNO_" ".h\"\npp").naming
        (plainInterface "Widget" "get")).ownHeader ∧
      '\n' ∈ (ofEntity (settingsWith "HSUNO_" ".h\"\npp").naming
        (plainInterface "Widget" "get")).ownHeader) ∧
    (plainInterface "Widget" "get").check = .ok () := by
  rw [Identifier.mem_matches_expression_iff]
  decide

end Names

end UnoBindgen
