import Mathlib
import UnoBindgen.Proofs.Naming.Targets
import UnoBindgen.Proofs.Plan
import UnoBindgen.Proofs.TypeName.Characters

/-!
# The texts of a plan stay on their lines

The names of a consistent entity are identifiers, so the views of its path and the names of its
methods and parameters have neither line feeds nor double quotes.  Naming options are free texts;
when they have no line feed, the guard, the header and the symbols of the entity have none either.
-/

namespace UnoBindgen

/-- The texts of the naming options. -/
def NamingOptions.texts (options : NamingOptions) : List Text :=
  [options.symbolPrefix, options.guardPrefix, options.guardSuffix, options.headerExtension,
    options.sourceExtension, options.bindingExtension, options.nativeContext]

/-- The naming options without a line break. -/
def NamingOptions.IsSingleLine (options : NamingOptions) : Prop :=
  ∀ text ∈ options.texts, '\n' ∉ text

theorem isInline_of_isFollowing
    {text : Text}
    (following : ∀ character ∈ text, Identifier.isFollowing character = true) :
    Text.IsInline text := by
  intro character member
  constructor
  · rintro rfl
    exact absurd (following '\n' member) (by decide)
  · rintro rfl
    exact absurd (following '"' member) (by decide)

theorem isInline_of_isIdentifier
    {text : Text}
    (identifier : isIdentifier text = true) :
    Text.IsInline text :=
  isInline_of_isFollowing fun _ member => isFollowing_of_mem_isIdentifier identifier member

/-! ## Views of the path -/

namespace ModulePath

theorem isInline_join_segments
    {path : ModulePath}
    (identifiers : path.HasIdentifiers)
    {separator : Text}
    (separatorInline : Text.IsInline separator) :
    Text.IsInline (Text.join separator path.segments) :=
  Text.isInline_join separatorInline fun segment member =>
    isInline_of_isIdentifier (identifiers segment member)

theorem isInline_capitalizedName
    {path : ModulePath}
    (identifiers : path.HasIdentifiers) :
    Text.IsInline path.capitalizedName :=
  Text.isInline_join (by decide) fun _ member =>
    isInline_of_isIdentifier (isIdentifier_of_mem_capitalizedSegments identifiers member)

theorem lineFeed_not_mem_headerGuard
    {path : ModulePath}
    (identifiers : path.HasIdentifiers) :
    '\n' ∉ path.headerGuard := by
  have following : ∀ character ∈ path.flattened, Identifier.isFollowing character = true :=
    fun _ member => isFollowing_of_mem_flattened identifiers member
  rw [headerGuard, Text.toUpper_of_isFollowing following]
  intro member
  obtain ⟨character, original, upper⟩ := List.mem_map.1 member
  have code := (Identifier.isFollowing_iff_toNat character).1 (following character original)
  by_cases lower : character.isLower = true
  · have letter : character.toUpper.isUpper = true := by simp [Char.isAlpha, lower]
    rw [upper] at letter
    exact absurd letter (by decide)
  · rw [Char.toUpper_eq_of_not_isLower lower] at upper
    rw [upper] at code
    exact absurd code (by decide)

end ModulePath

/-! ## Names of an entity -/

/-- The names that generated lines mention have no line feed, and those that are not taken from
the options have no double quote. -/
structure Names.IsInline (names : Names) : Prop where
  qualified : Text.IsInline names.qualified
  fullName : Text.IsInline names.fullName
  nativeHeader : Text.IsInline names.nativeHeader
  foreignModule : Text.IsInline names.foreignModule
  foreignType : Text.IsInline names.foreignType
  headerGuard : '\n' ∉ names.headerGuard
  ownHeader : '\n' ∉ names.ownHeader
  symbolStem : '\n' ∉ names.symbolStem

theorem Names.isInline_ofEntity
    {options : NamingOptions}
    (singleLine : options.IsSingleLine)
    {entity : Entity}
    (checked : entity.check = .ok ()) :
    (Names.ofEntity options entity).IsInline := by
  have path := Entity.hasIdentifiers_path checked
  have name := Entity.isIdentifier_name checked
  have nameInline := isInline_of_isIdentifier name
  have guardPrefix := singleLine options.guardPrefix (by simp [NamingOptions.texts])
  have guardSuffix := singleLine options.guardSuffix (by simp [NamingOptions.texts])
  have headerExtension := singleLine options.headerExtension (by simp [NamingOptions.texts])
  have symbolPrefix := singleLine options.symbolPrefix (by simp [NamingOptions.texts])
  have guard := ModulePath.lineFeed_not_mem_headerGuard path
  have flattened : '\n' ∉ entity.path.flattened :=
    (ModulePath.isInline_join_segments path (by decide)).lineFeed_not_mem
  have slashPath : Text.IsInline entity.path.slashPath :=
    ModulePath.isInline_join_segments path (by decide)
  refine
    { qualified := ModulePath.isInline_join_segments path (by decide)
      fullName := ModulePath.isInline_join_segments path (by decide)
      nativeHeader := (Text.isInline_append _ _).2 ⟨slashPath, by decide⟩
      foreignModule := ModulePath.isInline_capitalizedName path
      foreignType := isInline_of_isIdentifier (Text.isIdentifier_capitalize name)
      headerGuard := ?_
      ownHeader := ?_
      symbolStem := ?_ }
  · change '\n' ∉ options.guardPrefix ++ entity.path.headerGuard ++ options.guardSuffix
    simp [guardPrefix, guard, guardSuffix]
  · change '\n' ∉ entity.name ++ options.headerExtension
    simp [nameInline.lineFeed_not_mem, headerExtension]
  · rw [Names.symbolStem_ofEntity]
    simp [symbolPrefix, flattened]

/-! ## Plans of methods -/

/-- The texts of a plan stay on their lines, and only its symbol may have a double quote. -/
structure MethodPlan.IsInline (plan : MethodPlan) : Prop where
  names : plan.names.IsInline
  method : isIdentifier plan.method = true
  parameters : ∀ value ∈ plan.parameters, isIdentifier value.name = true
  symbol : '\n' ∉ plan.symbol
  importName : Text.IsInline plan.importName
  qualified : Text.IsInline plan.qualified
  spellings :
    ∀ value ∈ plan.result :: plan.parameters, ∀ surface,
      Text.IsInline (value.spellings.on surface)
  types : ∀ value ∈ plan.result :: plan.parameters, '"' ∉ value.type.text

theorem PlannedValue.Settles.isInline_spelling
    {value : PlannedValue}
    {name : Text}
    {type : TypeName}
    (settles : value.Settles name type)
    (surface : Surface) :
    Text.IsInline (value.spellings.on surface) := by
  by_cases aggregate : value.category = .aggregate
  · rw [settles.unspelled aggregate]
    cases surface <;> decide
  · exact TypeName.isInline_of_spelling (settles.spelled aggregate surface)

theorem PlannedValue.Settles.quote_not_mem
    {value : PlannedValue}
    {name : Text}
    {type : TypeName}
    (settles : value.Settles name type) :
    '"' ∉ value.type.text := by
  rw [settles.sameType]
  exact TypeName.quote_not_mem_of_category settles.classified

/-- The plan of a method whose names are identifiers, in an entity with inline names. -/
theorem MethodPlan.Settles.isInline
    {plan : MethodPlan}
    {names : Names}
    {method : Method}
    (settles : plan.Settles names method)
    (namesInline : names.IsInline)
    (methodName : isIdentifier method.name = true)
    (parameterNames :
      ∀ parameter ∈ method.parameters, isIdentifier parameter.name = true) :
    plan.IsInline := by
  have nameInline := isInline_of_isIdentifier methodName
  have fromParameter :
      ∀ value ∈ plan.parameters, ∃ parameter ∈ method.parameters,
        value.Settles parameter.name parameter.type :=
    fun _ member => exists_of_mem_right settles.parameters member
  have fromPosition :
      ∀ value ∈ plan.result :: plan.parameters, ∃ name type, value.Settles name type := by
    intro value member
    rcases List.mem_cons.1 member with rfl | inParameters
    · exact ⟨[], method.returns, settles.result⟩
    · obtain ⟨parameter, -, settled⟩ := fromParameter value inParameters
      exact ⟨parameter.name, parameter.type, settled⟩
  refine
    { names := settles.sameNames ▸ namesInline
      method := settles.sameMethod ▸ methodName
      parameters := ?_
      symbol := ?_
      importName := ?_
      qualified := ?_
      spellings := ?_
      types := ?_ }
  · intro value member
    obtain ⟨parameter, parameterMember, settled⟩ := fromParameter value member
    rw [settled.sameName]
    exact parameterNames parameter parameterMember
  · rw [settles.symbol, Names.callSymbol]
    simp [namesInline.symbolStem, nameInline.lineFeed_not_mem]
  · rw [settles.importName]
    exact (Text.isInline_append _ _).2 ⟨by decide, nameInline⟩
  · rw [settles.qualified, Names.qualifiedMethod, Text.isInline_append, Text.isInline_append]
    exact ⟨⟨namesInline.fullName, by decide⟩, nameInline⟩
  · intro value member surface
    obtain ⟨name, type, settled⟩ := fromPosition value member
    exact settled.isInline_spelling surface
  · intro value member
    obtain ⟨name, type, settled⟩ := fromPosition value member
    exact settled.quote_not_mem

/-- The comments about aggregate types show nothing to a test that looks for a character that they
do not have, even where a type name breaks the line. -/
theorem MethodPlan.shows_comments
    {plan : MethodPlan}
    {mark : Char}
    (other : mark ≠ '\n')
    (typesFree : ∀ value ∈ plan.result :: plan.parameters, mark ∉ value.type.text)
    {test : Text → Bool}
    (marked : ∀ line, test line = true → mark ∈ line)
    {comment : Text → Text}
    (commentFree : ∀ type, mark ∉ type → mark ∉ comment type) :
    Text.Shows test
      ((Text.distinct (plan.unsupported.map TypeName.text)).flatMap comment ++ "\n") [] := by
  apply Text.Shows.unmarked marked
  · simp
  · intro member
    rcases List.mem_append.1 member with inComments | inEnd
    · obtain ⟨type, typeMember, inComment⟩ := List.mem_flatMap.1 inComments
      rw [Text.distinct, List.mem_eraseDups] at typeMember
      obtain ⟨typeName, nameMember, rfl⟩ := List.mem_map.1 typeMember
      obtain ⟨value, valueMember, -, rfl⟩ := (plan.mem_unsupported_iff typeName).1 nameMember
      have typeFree := typesFree value valueMember
      exact commentFree value.type.text typeFree inComment
    · exact other (List.mem_singleton.1 inEnd)

theorem MethodPlan.IsInline.shows_comments
    {plan : MethodPlan}
    (inline : plan.IsInline)
    {test : Text → Bool}
    (quoted : ∀ line, test line = true → '"' ∈ line)
    {comment : Text → Text}
    (commentFree : ∀ type, '"' ∉ type → '"' ∉ comment type) :
    Text.Shows test
      ((Text.distinct (plan.unsupported.map TypeName.text)).flatMap comment ++ "\n") [] :=
  MethodPlan.shows_comments (by decide) inline.types quoted commentFree

end UnoBindgen
