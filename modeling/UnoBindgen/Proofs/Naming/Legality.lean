import Mathlib
import UnoBindgen.Proofs.Emission.Outcome
import UnoBindgen.Proofs.Emission.Parts

/-!
# The names of a Haskell module as names of the language

The identifiers of a schema allow more than Haskell does: they may start with any letter or with an
underscore, and they may be reserved words.  The names of a generated module are derived from them
in several ways, and only some of these look at the reserved words.  An imported shim is named `c`
and then the method, so the methods `ase` and `lass` lead to reserved words; the wildcard passes
through as the name of a method or a parameter; and capitalizing does not change an underscore.

The main theorem states that nothing else goes wrong: every name of a composed module is legal in
its role exactly when the entity avoids these names.
-/

namespace UnoBindgen

/-! ## Legal names -/

namespace Lexeme

/-- The reserved words of the language, and the wildcard. -/
def reserved : List Text :=
  Text.words
    [ "_", "case", "class", "data", "default", "deriving", "do", "else", "foreign", "if",
    "import", "in", "infix", "infixl", "infixr", "instance", "let", "module", "newtype", "of",
    "then", "type", "where" ]

/-- What may stand behind the first character of a name. -/
def isNameCharacter (character : Char) : Bool :=
  Identifier.isFollowing character || character == '\''

/-- Whether a text can name a value: it starts with a small letter or an underscore, and it is
neither reserved nor the wildcard. -/
def isVariable : Text → Bool
  | [] => false
  | first :: rest =>
    (first.isLower || first == '_') && rest.all isNameCharacter &&
      !reserved.contains (first :: rest)

/-- Whether a text can name a type, a class or a part of a module: it starts with a capital. -/
def isConstructor : Text → Bool
  | [] => false
  | first :: rest => first.isUpper && rest.all isNameCharacter

theorem isNameCharacter_of_isFollowing
    {character : Char}
    (following : Identifier.isFollowing character = true) :
    isNameCharacter character = true := by
  simp [isNameCharacter, following]

theorem isLower_toLower
    {character : Char}
    (initial : Identifier.isInitial character = true) :
    (character.toLower.isLower || character.toLower == '_') = true := by
  simp only [Identifier.isInitial, Bool.or_eq_true, beq_iff_eq] at initial ⊢
  rcases initial with letter | rfl
  · exact Or.inl (by simpa using letter)
  · exact Or.inr rfl

/-- An identifier with a small first letter and any number of primes is a legal name unless it is
reserved. -/
theorem isVariable_marked_iff
    {name : Text}
    (identifier : isIdentifier name = true)
    (count : Nat) :
    isVariable (FreshName.marked '\'' name.uncapitalize count) = true ↔
      FreshName.marked '\'' name.uncapitalize count ∉ reserved := by
  obtain ⟨first, rest, rfl⟩ :=
    List.exists_cons_of_ne_nil (ne_nil_of_isIdentifier identifier)
  have small := isLower_toLower ((isIdentifier_cons_iff first rest).1 identifier).1
  have continued :
      (rest ++ List.replicate count '\'').all isNameCharacter = true := by
    rw [List.all_eq_true]
    intro character member
    rcases List.mem_append.1 member with inRest | isMark
    · exact isNameCharacter_of_isFollowing
        (((isIdentifier_cons_iff first rest).1 identifier).2 character inRest)
    · rw [List.eq_of_mem_replicate isMark]
      decide
  rw [Text.uncapitalize_of_isIdentifier identifier, FreshName.marked, List.cons_append,
    isVariable, small, continued]
  simp

theorem isVariable_small_iff
    {name : Text}
    (identifier : isIdentifier name = true)
    (small : name.uncapitalize = name) :
    isVariable name = true ↔ name ∉ reserved := by
  have unmarked : FreshName.marked '\'' name.uncapitalize 0 = name := by
    simp [FreshName.marked, small]
  rw [← unmarked]
  exact isVariable_marked_iff identifier 0

/-- Capitalizing makes a legal name of a type, unless there is no letter to capitalize. -/
theorem isConstructor_capitalize_append_iff
    {name : Text}
    (identifier : isIdentifier name = true)
    (ending : Text)
    (continues : ∀ character ∈ ending, Identifier.isFollowing character = true) :
    isConstructor (name.capitalize ++ ending) = true ↔ name.head? ≠ some '_' := by
  obtain ⟨first, rest, rfl⟩ :=
    List.exists_cons_of_ne_nil (ne_nil_of_isIdentifier identifier)
  have following := (isIdentifier_cons_iff first rest).1 identifier
  have continued : (rest ++ ending).all isNameCharacter = true := by
    rw [List.all_eq_true]
    intro character member
    rcases List.mem_append.1 member with inRest | inEnding
    · exact isNameCharacter_of_isFollowing (following.2 character inRest)
    · exact isNameCharacter_of_isFollowing (continues character inEnding)
  rw [Text.capitalize_of_isIdentifier identifier, List.cons_append, isConstructor, continued,
    Bool.and_true, List.head?_cons, ne_eq, Option.some.injEq]
  have initial := following.1
  simp only [Identifier.isInitial, Bool.or_eq_true, beq_iff_eq] at initial
  constructor
  · rintro upper rfl
    exact absurd upper (by decide)
  · intro letter
    simpa using initial.resolve_right letter

theorem isConstructor_capitalize_iff
    {name : Text}
    (identifier : isIdentifier name = true) :
    isConstructor name.capitalize = true ↔ name.head? ≠ some '_' := by
  have general := isConstructor_capitalize_append_iff identifier []
    (fun _ member => absurd member List.not_mem_nil)
  rwa [List.append_nil] at general

end Lexeme

/-! ## Names of values -/

open Lexeme

theorem Text.uncapitalize_eq_wildcard_iff
    {name : Text}
    (identifier : isIdentifier name = true) :
    name.uncapitalize = "_" ↔ name = "_" := by
  constructor
  · intro same
    obtain ⟨first, rest, rfl⟩ :=
      List.exists_cons_of_ne_nil (ne_nil_of_isIdentifier identifier)
    rw [uncapitalize_of_isIdentifier identifier] at same
    obtain ⟨folded, rfl⟩ := List.cons.inj same
    have notUpper : ¬ first.isUpper := by
      intro upper
      have letter : first.toLower.isLower = true := by simp [Char.isAlpha, upper]
      rw [folded] at letter
      exact absurd letter (by decide)
    rw [← Char.toLower_eq_of_not_isUpper notUpper, folded]
    rfl
  · rintro rfl
    decide

namespace Binding

theorem eq_wildcard_of_mem_reserved
    {word : Text}
    (member : word ∈ reserved)
    (unlisted : word ∉ reservedWords) :
    word = "_" := by
  have all : ∀ other ∈ reserved, other ∈ reservedWords ∨ other = "_" := by decide
  exact (all word member).resolve_left unlisted

/-- A value identifier is legal unless it is the wildcard. -/
theorem isVariable_identifier_iff
    {name : Text}
    (named : isIdentifier name = true) :
    isVariable (identifier name) = true ↔ name ≠ "_" := by
  by_cases taken : IsTaken name.uncapitalize
  · have primed : ∀ word ∈ reserved, '\'' ∉ word := by decide
    have legal : isVariable (identifier name) = true := by
      rw [identifier_of_isTaken taken]
      refine (isVariable_marked_iff named 1).2 fun listed => primed _ listed ?_
      simp [FreshName.marked]
    refine iff_of_true legal ?_
    rintro rfl
    exact absurd taken (by decide)
  · have unlisted : name.uncapitalize ∉ reservedWords := fun listed => taken (Or.inr listed)
    have exactly := isVariable_marked_iff named 0
    rw [FreshName.marked, List.replicate_zero, List.append_nil] at exactly
    rw [identifier_of_not_isTaken taken, exactly, ne_eq, ← Text.uncapitalize_eq_wildcard_iff named]
    refine not_congr ⟨fun listed => eq_wildcard_of_mem_reserved listed unlisted, ?_⟩
    intro wildcard
    rw [wildcard]
    decide

end Binding

namespace Names

/-- An imported shim has a legal name unless the method completes a reserved word. -/
theorem isVariable_importName_iff
    {function : Text}
    (named : isIdentifier function = true) :
    isVariable (importName function) = true ↔ function ∉ Text.words ["ase", "lass"] := by
  rw [isVariable_small_iff (Emission.isIdentifier_importName named)
    (Emission.uncapitalize_importName named)]
  refine not_congr ⟨?_, ?_⟩
  · intro listed
    have all :
        ∀ word ∈ reserved, word.head? = some 'c' → word.tail ∈ Text.words ["ase", "lass"] := by
      decide
    exact all (importName function) listed rfl
  · intro listed
    have all : ∀ word ∈ Text.words ["ase", "lass"], importName word ∈ reserved := by decide
    exact all function listed

theorem isVariable_getterFunction
    {member : Text}
    (named : isIdentifier member = true) :
    isVariable (Binding.identifier (getterFunction member)) = true ∧
      isVariable (importName (getterFunction member)) = true := by
  have function := isIdentifier_getterFunction named
  constructor
  · rw [Binding.isVariable_identifier_iff function]
    exact fun wildcard => absurd (congrArg List.head? wildcard) (by simp [getterFunction])
  · rw [isVariable_importName_iff function]
    intro listed
    have all : ∀ word ∈ Text.words ["ase", "lass"], word.head? ≠ some 'g' := by decide
    exact all _ listed rfl

/-- The wrapper and the import of a constructor have an `N` and an underscore of their own. -/
theorem isVariable_constructor
    {names : Names}
    (named : isIdentifier names.name = true) :
    isVariable names.constructorWrapperName = true ∧
      isVariable names.constructorImportName = true := by
  have new : ∀ character ∈ ("New" : Text), Identifier.isFollowing character = true :=
    List.all_eq_true.1 rfl
  have under : ∀ character ∈ ("_new" : Text), Identifier.isFollowing character = true :=
    List.all_eq_true.1 rfl
  constructor
  · have capitalFree : ∀ word ∈ reserved, 'N' ∉ word := by decide
    have wrapper :
        FreshName.marked '\'' (names.name ++ "New").uncapitalize 0 =
          names.constructorWrapperName := by
      rw [FreshName.marked, Text.uncapitalize_append named new, List.replicate_zero,
        List.append_nil]
      rfl
    rw [← wrapper, isVariable_marked_iff (isIdentifier_append named new)]
    intro listed
    refine capitalFree _ listed ?_
    rw [wrapper]
    exact List.mem_append_right _ (by decide)
  · have underscoreFree : ∀ word ∈ Text.words ["ase", "lass"], '_' ∉ word := by decide
    have imported :
        names.constructorImportName = importName (names.name.capitalize ++ "_new") := by
      rw [constructorImportName, importName, List.append_assoc, List.append_assoc]
      rfl
    rw [imported, isVariable_importName_iff
      (isIdentifier_append (Text.isIdentifier_capitalize named) under)]
    intro listed
    exact underscoreFree _ listed (List.mem_append_right _ (by decide))

end Names

/-! ## Names that a wrapper binds -/

namespace Binding

@[simp]
theorem length_marshaledNames
    (avoid : List Text)
    (values : List PlannedValue) :
    (marshaledNames avoid values).length = values.length := by
  induction values generalizing avoid with
  | nil => rfl
  | cons value rest induction =>
      rw [marshaledNames]
      split <;> simp [induction]

/-- The arguments of a wrapper are the freshly chosen names. -/
theorem map_argument_bindParameters (plan : MethodPlan) :
    (bindParameters plan).map BoundParameter.argument =
      FreshName.chooseAll '\'' (avoidedNames plan)
        (plan.parameters.map fun value => value.name.uncapitalize) := by
  rw [bindParameters, List.map_zipWith]
  apply List.ext_getElem
  · simp
  · intro index bound otherBound
    simp

/-- The names that a wrapper binds for its parameters. -/
def boundNames (plan : MethodPlan) : List Text :=
  (bindParameters plan).flatMap fun parameter =>
    parameter.argument :: parameter.marshaled?.toList

theorem isVariable_marshaled
    {plan : MethodPlan}
    (named : ∀ value ∈ plan.parameters, isIdentifier value.name = true)
    {parameter : BoundParameter}
    (member : parameter ∈ bindParameters plan)
    {marshaled : Text}
    (present : parameter.marshaled? = some marshaled) :
    isVariable marshaled = true := by
  rw [bindParameters, ← List.map_uncurry_zip_eq_zipWith] at member
  obtain ⟨⟨value, names⟩, pairMember, rfl⟩ := List.mem_map.1 member
  have marshaledMember := (List.of_mem_zip (List.of_mem_zip pairMember).2).2
  rw [show names.2 = some marshaled from present] at marshaledMember
  obtain ⟨original, originalMember, count, rfl⟩ :=
    exists_marked_of_mem_marshaledNames marshaledMember
  have identifier := isIdentifier_marshaledIdentifier (named original originalMember)
  have small :
      (marshaledIdentifier original.name).uncapitalize = marshaledIdentifier original.name :=
    Text.uncapitalize_of_isIdentifier identifier
  have all : ∀ word ∈ reserved, word.head? ≠ some 'h' := by decide
  rw [← small, isVariable_marked_iff identifier, small]
  exact fun listed => all _ listed rfl

/-- The wildcard is no longer than the name that it was made from. -/
theorem eq_of_marked_eq_wildcard
    {name : Text}
    (named : isIdentifier name = true)
    {count : Nat}
    (wildcard : FreshName.marked '\'' name.uncapitalize count = "_") :
    name.uncapitalize = "_" := by
  have nonempty := List.length_pos_of_ne_nil
    (ne_nil_of_isIdentifier (Text.isIdentifier_uncapitalize named))
  have lengths : (name.uncapitalize ++ List.replicate count '\'').length = 1 :=
    congrArg List.length wildcard
  rw [List.length_append, List.length_replicate] at lengths
  obtain rfl : count = 0 := by omega
  rwa [FreshName.marked, List.replicate_zero, List.append_nil] at wildcard

/-- The wildcard is only avoided where the method is called like that. -/
theorem wildcard_not_mem_avoidedNames
    {plan : MethodPlan}
    (methodNamed : isIdentifier plan.method = true)
    (imported : plan.importName = Names.importName plan.method)
    (notWildcard : plan.method ≠ "_") :
    ("_" : Text) ∉ avoidedNames plan := by
  have fixed : ("_" : Text) ∉ wrapperLocals ++ reservedWords := by decide
  have method : ("_" : Text) ≠ identifier plan.method := by
    intro same
    have illegal := (isVariable_identifier_iff methodNamed).2 notWildcard
    rw [← same] at illegal
    exact absurd illegal (by decide)
  have shim : ("_" : Text) ≠ plan.importName := by
    rw [imported]
    exact fun same => absurd (congrArg List.head? same) (by simp [Names.importName])
  rw [avoidedNames, List.mem_cons, List.mem_cons, not_or, not_or]
  exact ⟨method, shim, fixed⟩

/-- The names that a wrapper binds are legal unless a parameter is the wildcard. -/
theorem isVariable_boundNames_iff
    {plan : MethodPlan}
    (methodNamed : isIdentifier plan.method = true)
    (imported : plan.importName = Names.importName plan.method)
    (named : ∀ value ∈ plan.parameters, isIdentifier value.name = true)
    (notWildcard : plan.method ≠ "_") :
    (∀ name ∈ boundNames plan, isVariable name = true) ↔
      ∀ value ∈ plan.parameters, value.name ≠ "_" := by
  constructor
  · intro legal value member wildcard
    have free := wildcard_not_mem_avoidedNames methodNamed imported notWildcard
    have small : ("_" : Text) ∈ plan.parameters.map fun value => value.name.uncapitalize :=
      List.mem_map.2 ⟨value, member, by rw [wildcard]; decide⟩
    have chosen := FreshName.mem_chooseAll_of_not_mem '\'' small free
    rw [← map_argument_bindParameters] at chosen
    obtain ⟨parameter, parameterMember, same⟩ := List.mem_map.1 chosen
    have illegal :=
      legal parameter.argument
        (List.mem_flatMap.2 ⟨parameter, parameterMember, List.mem_cons_self⟩)
    rw [same] at illegal
    exact absurd illegal (by decide)
  · intro notWild name member
    obtain ⟨parameter, parameterMember, inNames⟩ := List.mem_flatMap.1 member
    rcases List.mem_cons.1 inNames with rfl | isMarshaled
    · have chosen : parameter.argument ∈ (bindParameters plan).map BoundParameter.argument :=
        List.mem_map_of_mem parameterMember
      rw [map_argument_bindParameters] at chosen
      have unlisted : parameter.argument ∉ reservedWords := by
        intro listed
        refine FreshName.not_mem_of_mem_chooseAll chosen ?_
        simp [avoidedNames, listed]
      obtain ⟨small, smallMember, count, same⟩ :=
        FreshName.exists_marked_of_mem_chooseAll chosen
      obtain ⟨value, valueMember, rfl⟩ := List.mem_map.1 smallMember
      rw [same, isVariable_marked_iff (named value valueMember), ← same]
      intro listed
      have wildcard := eq_wildcard_of_mem_reserved listed unlisted
      rw [same] at wildcard
      exact notWild value valueMember
        ((Text.uncapitalize_eq_wildcard_iff (named value valueMember)).1
          (eq_of_marked_eq_wildcard (named value valueMember) wildcard))
    · exact isVariable_marshaled named parameterMember (Option.mem_toList.1 isMarshaled)

end Binding

/-! ## Well-named entities -/

/-- The names of a method do not get in the way of its wrapper: they are not the wildcard, and
when the method can be called, its import is no reserved word. -/
def Method.IsWellNamed (method : Method) : Prop :=
  method.name ≠ "_" ∧
    (method.hasAggregate = false →
      method.name ∉ Text.words ["ase", "lass"] ∧
        ∀ parameter ∈ method.parameters, parameter.name ≠ "_")

/-- The names of an entity do not get in the way of its Haskell module. -/
structure Entity.IsWellNamed (entity : Entity) : Prop where
  /-- Every part of the path can be capitalized. -/
  path : ∀ segment ∈ entity.path.segments, segment.head? ≠ some '_'
  methods :
    entity.tag = .known .interface →
      ∀ method ∈ entity.methods?.getD [], method.IsWellNamed

namespace Emission

/-- The values that are declared or bound for a method: the class method, and for a method that
can be called the import and what the wrapper binds. -/
def methodValues (plan : MethodPlan) : List Text :=
  Binding.identifier plan.method ::
    if plan.isSupported then plan.importName :: Binding.boundNames plan else []

/-- The values that a Haskell module declares or binds. -/
def Parts.values (names : Names) : Parts → List Text
  | .methods plans => plans.flatMap methodValues
  | .getters plans =>
    plans.flatMap fun plan => [Binding.identifier plan.function, plan.importName]
  | .base _ => [names.constructorWrapperName, names.constructorImportName]

/-- The names of a Haskell module are legal in their roles. -/
structure Parts.IsLegal (names : Names) (parts : Parts) : Prop where
  values : ∀ value ∈ parts.values names, isVariable value = true
  types : ∀ type ∈ parts.types names, isConstructor type = true
  segments : ∀ segment ∈ names.foreignModule.splitAt '.', isConstructor segment = true

theorem isVariable_methodValues_iff
    {plan : MethodPlan}
    {names : Names}
    {method : Method}
    (settles : plan.Settles names method)
    (named : isIdentifier method.name = true)
    (parametersNamed : ∀ parameter ∈ method.parameters, isIdentifier parameter.name = true) :
    (∀ value ∈ methodValues plan, isVariable value = true) ↔ method.IsWellNamed := by
  have planNamed : isIdentifier plan.method = true := settles.sameMethod ▸ named
  have imported : plan.importName = Names.importName plan.method :=
    settles.sameMethod ▸ settles.importName
  have valuesNamed : ∀ value ∈ plan.parameters, isIdentifier value.name = true := by
    intro value member
    obtain ⟨parameter, parameterMember, settled⟩ :=
      exists_of_mem_right settles.parameters member
    rw [settled.sameName]
    exact parametersNamed parameter parameterMember
  rw [methodValues, List.forall_mem_cons, Binding.isVariable_identifier_iff planNamed,
    Method.IsWellNamed, settles.sameMethod]
  refine and_congr_right fun notWildcard => ?_
  cases aggregate : method.hasAggregate with
  | true =>
      have unsupported : plan.isSupported = false := by
        rw [settles.isSupported_eq, aggregate]
        rfl
      simp [unsupported]
  | false =>
      have supported : plan.isSupported = true := by
        rw [settles.isSupported_eq, aggregate]
        rfl
      rw [if_pos supported, List.forall_mem_cons, settles.importName,
        Names.isVariable_importName_iff named,
        Binding.isVariable_boundNames_iff planNamed imported valuesNamed
          (settles.sameMethod ▸ notWildcard),
        forall_mem_iff_of_forall₂ settles.parameters
          (fun parameter _ value settled => by rw [settled.sameName])]
      simp

/-- The parts of a module are legal names exactly when those of the path can be capitalized. -/
theorem isConstructor_foreignModule_iff
    (options : NamingOptions)
    {entity : Entity}
    (checked : entity.check = .ok ()) :
    (∀ segment ∈ (Names.ofEntity options entity).foreignModule.splitAt '.',
      isConstructor segment = true) ↔
      ∀ segment ∈ entity.path.segments, segment.head? ≠ some '_' := by
  have path := Entity.hasIdentifiers_path checked
  have nonempty : entity.path.capitalizedSegments ≠ [] := by
    simp [ModulePath.capitalizedSegments, Entity.path, ModulePath.child]
  have free : ∀ segment ∈ entity.path.capitalizedSegments, '.' ∉ segment :=
    fun segment member =>
      not_mem_of_isIdentifier (ModulePath.isIdentifier_of_mem_capitalizedSegments path member)
        (by decide)
  have split :
      (Names.ofEntity options entity).foreignModule.splitAt '.' =
        entity.path.capitalizedSegments :=
    Text.splitAt_join nonempty free
  rw [split, ModulePath.capitalizedSegments, List.forall_mem_map]
  exact forall₂_congr fun segment member => isConstructor_capitalize_iff (path segment member)

theorem Parts.IsPlanned.isConstructor_of_mem_types
    {context : Context}
    {entity : Entity}
    (checked : entity.check = .ok ())
    {parts : Parts}
    (planned : parts.IsPlanned context entity)
    (capitals : ∀ segment ∈ entity.path.segments, segment.head? ≠ some '_')
    {type : Text}
    (member : type ∈ parts.types (Names.ofEntity context.options entity)) :
    isConstructor type = true := by
  have named : isIdentifier entity.name = true := Entity.isIdentifier_name checked
  have capital : entity.name.head? ≠ some '_' :=
    capitals entity.name
      (List.mem_append_right entity.module.segments (List.mem_singleton_self entity.name))
  have plain : isConstructor entity.name.capitalize = true :=
    (isConstructor_capitalize_iff named).2 capital
  have object : isConstructor (entity.name.capitalize ++ "Obj") = true :=
    (isConstructor_capitalize_append_iff named "Obj" (List.all_eq_true.1 rfl)).2 capital
  cases planned with
  | methods => exact List.mem_singleton.1 member ▸ plain
  | getters =>
      rcases List.mem_cons.1 member with rfl | isObject
      · exact plain
      · exact List.mem_singleton.1 isObject ▸ object
  | base => exact List.mem_singleton.1 member ▸ plain

/-- Getters and constructors always have legal names, and so only methods decide. -/
theorem Parts.IsPlanned.isVariable_values_iff
    {context : Context}
    {entity : Entity}
    (checked : entity.check = .ok ())
    {parts : Parts}
    (planned : parts.IsPlanned context entity) :
    (∀ value ∈ parts.values (Names.ofEntity context.options entity), isVariable value = true) ↔
      (entity.tag = .known .interface →
        ∀ method ∈ entity.methods?.getD [], method.IsWellNamed) := by
  cases planned with
  | methods interface planned =>
      have settled :=
        ((mapM_eq_ok_iff _ _ _).1 planned).imp fun _ _ => MethodPlan.settles_of_ofMethod
      rw [Parts.values, List.forall_mem_flatMap, imp_iff_right interface]
      apply forall_mem_iff_of_forall₂ settled
      intro method member plan settles
      have identifiers := Entity.isIdentifier_of_mem_methods checked interface member
      exact isVariable_methodValues_iff settles identifiers.1 identifiers.2
  | getters exception planned =>
      refine iff_of_true ?_ (by simp [exception])
      intro value member
      obtain ⟨plan, planMember, isValue⟩ := List.mem_flatMap.1 member
      obtain ⟨field, fieldMember, settles⟩ :=
        exists_of_mem_right (settles_of_planGetters planned) planMember
      have fieldNamed := Entity.isIdentifier_of_mem_members checked exception
        (List.mem_of_mem_filter fieldMember)
      have legal := Names.isVariable_getterFunction fieldNamed
      rw [settles.function, settles.importName] at isValue
      rcases List.mem_cons.1 isValue with rfl | isImport
      · exact legal.1
      · exact List.mem_singleton.1 isImport ▸ legal.2
  | base singleton =>
      refine iff_of_true ?_ (by simp [singleton])
      have legal :=
        @Names.isVariable_constructor (Names.ofEntity context.options entity)
          (Entity.isIdentifier_name checked)
      intro value member
      rcases List.mem_cons.1 member with rfl | isImport
      · exact legal.1
      · exact List.mem_singleton.1 isImport ▸ legal.2

/-- The names of the planned parts are legal exactly when the entity is well named. -/
theorem Parts.IsPlanned.isLegal_iff
    {context : Context}
    {entity : Entity}
    (checked : entity.check = .ok ())
    {parts : Parts}
    (planned : parts.IsPlanned context entity) :
    parts.IsLegal (Names.ofEntity context.options entity) ↔ entity.IsWellNamed := by
  have segments := isConstructor_foreignModule_iff context.options checked
  have values := planned.isVariable_values_iff checked
  constructor
  · rintro ⟨legalValues, -, legalSegments⟩
    exact ⟨segments.1 legalSegments, values.1 legalValues⟩
  · rintro ⟨capitals, methods⟩
    exact ⟨values.2 methods,
      fun _ member => planned.isConstructor_of_mem_types checked capitals member,
      segments.2 capitals⟩

/--
A composed Haskell module is rendered from parts whose names are all legal in their roles, exactly
when no part of the entity's path starts with an underscore, no method is the wildcard, and no
method that can be called is `ase` or `lass` or has the wildcard as a parameter.
-/
theorem exists_isLegal_iff_of_compose
    (context : Context)
    (entity : Entity)
    (texts : Texts)
    (composed : compose context entity = .ok texts) :
    ∃ parts : Parts,
      parts.IsPlanned context entity ∧
        texts.binding =
          tidyEnd
            (parts.texts context.options (Names.ofEntity context.options entity)).binding ∧
        (parts.IsLegal (Names.ofEntity context.options entity) ↔ entity.IsWellNamed) := by
  obtain ⟨checked, parts, planned, binding⟩ := exists_parts_of_compose composed
  exact ⟨parts, planned, binding, planned.isLegal_iff checked⟩

/-- An interface with one method that takes a string. -/
def noteInterface (method parameter : Text) : Entity :=
  ⟨"Note", ⟨["a"]⟩, .known .interface, some [⟨method, .void, [⟨parameter, .string⟩]⟩],
    none, none⟩

theorem exists_compose_noteInterface
    {method parameter : Text}
    (checked : (noteInterface method parameter).check = .ok ()) :
    ∃ texts, compose ⟨.default, .empty⟩ (noteInterface method parameter) = .ok texts := by
  have void : TypeName.void.category = .ok .void := TypeName.Matches.void.category_eq
  have methods :
      (noteInterface method parameter).methods? =
        some [⟨method, .void, [⟨parameter, .string⟩]⟩] := rfl
  apply (compose_of_interface ⟨.default, .empty⟩ checked rfl).1
  simp [Position.firstFlawed?, Position.ofEntity, Position.ofMethod, Position.flaw?, methods, void,
    TypeName.category_string]

/-- A method and a parameter that are called like reserved words get primes. -/
theorem exists_isLegal_primed :
    ∃ texts,
      compose ⟨.default, .empty⟩ (noteInterface "class" "data") = .ok texts ∧
        ∃ parts : Parts,
          parts.IsPlanned ⟨.default, .empty⟩ (noteInterface "class" "data") ∧
            parts.IsLegal (Names.ofEntity .default (noteInterface "class" "data")) := by
  obtain ⟨texts, composed⟩ :=
    exists_compose_noteInterface (show (noteInterface "class" "data").check = .ok () from rfl)
  obtain ⟨parts, planned, -, exactly⟩ :=
    exists_isLegal_iff_of_compose ⟨.default, .empty⟩ _ texts composed
  have wellNamed : (noteInterface "class" "data").IsWellNamed := by
    refine ⟨by decide, fun _ method member => ?_⟩
    obtain rfl := List.mem_singleton.1 member
    exact ⟨by decide, fun _ => ⟨by decide, by decide⟩⟩
  exact ⟨texts, composed, parts, planned, exactly.2 wellNamed⟩

/-- An entity is composed although its Haskell module has a name that is illegal in its role. -/
def IsMisnamed
    (context : Context)
    (entity : Entity) : Prop :=
  ∃ texts,
    compose context entity = .ok texts ∧
      ∀ parts : Parts,
        parts.IsPlanned context entity →
          ¬ parts.IsLegal (Names.ofEntity context.options entity)

theorem isMisnamed_noteInterface
    {method parameter : Text}
    (checked : (noteInterface method parameter).check = .ok ())
    (misnamed : method = "_" ∨ method ∈ Text.words ["ase", "lass"] ∨ parameter = "_") :
    IsMisnamed ⟨.default, .empty⟩ (noteInterface method parameter) := by
  obtain ⟨texts, composed⟩ := exists_compose_noteInterface checked
  refine ⟨texts, composed, fun parts planned legal => ?_⟩
  have void : TypeName.void.category = .ok .void := TypeName.Matches.void.category_eq
  have callable :
      Method.hasAggregate ⟨method, .void, [⟨parameter, .string⟩]⟩ = false := by
    simp [Method.hasAggregate, Method.types, void, TypeName.category_string, Except.toOption]
  have wellNamed :=
    ((planned.isLegal_iff checked).1 legal).methods rfl _ (List.mem_singleton_self _)
  have called := wellNamed.2 callable
  rcases misnamed with wildcard | completes | wildcard
  · exact wellNamed.1 wildcard
  · exact called.1 completes
  · exact called.2 _ (List.mem_singleton_self _) wildcard

/-- The import of the method `ase` is a reserved word, and the wildcard stays what it is as a
method and as a parameter. -/
theorem isMisnamed_wildcards_and_ase :
    IsMisnamed ⟨.default, .empty⟩ (noteInterface "ase" "data") ∧
      IsMisnamed ⟨.default, .empty⟩ (noteInterface "_" "data") ∧
      IsMisnamed ⟨.default, .empty⟩ (noteInterface "get" "_") :=
  ⟨isMisnamed_noteInterface rfl (by decide), isMisnamed_noteInterface rfl (by decide),
    isMisnamed_noteInterface rfl (by decide)⟩

end Emission

end UnoBindgen
