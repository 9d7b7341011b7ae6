import Mathlib
import UnoBindgen.Proofs.Emission.ForeignInterface
import UnoBindgen.Proofs.Naming.Symbols
import UnoBindgen.Proofs.Text.Casing

/-!
# Names that share a scope

The check of an entity keeps the names of its methods apart, and those of its members, letter by
letter.  The names derived from them do not all keep the case of the first letter: an accessor is
named after the capitalized member, and a Haskell value starts with a small letter.

The main theorems state for one entity which derived names are always different, and exactly when
the others are.  The symbols of methods are different for every checked interface.  The accessors
of an exception, and the values that the Haskell module of an interface declares, are different
exactly when no two of the underlying names agree up to the case of their first letters; in the
Haskell module an imported shim takes part with the name `c` and then the method.
-/

namespace UnoBindgen

/-! ## Value identifiers -/

namespace Binding

/-- A name that is reserved or bound by the wrappers. -/
def IsTaken (name : Text) : Prop :=
  name ∈ wrapperLocals ∨ name ∈ reservedWords

instance (name : Text) : Decidable (IsTaken name) :=
  inferInstanceAs (Decidable (_ ∨ _))

theorem isTaken_iff (name : Text) :
    IsTaken name ↔ (wrapperLocals.contains name || reservedWords.contains name) = true := by
  rw [IsTaken, Bool.or_eq_true, List.contains_iff_mem, List.contains_iff_mem]

theorem identifier_of_isTaken
    {name : Text}
    (taken : IsTaken name.uncapitalize) :
    identifier name = name.uncapitalize ++ "'" :=
  if_pos ((isTaken_iff _).1 taken)

theorem identifier_of_not_isTaken
    {name : Text}
    (free : ¬ IsTaken name.uncapitalize) :
    identifier name = name.uncapitalize :=
  if_neg fun listed => free ((isTaken_iff _).2 listed)

/-- A name with a prime is no identifier, so it differs from all of them. -/
theorem primed_ne_of_isIdentifier
    (name : Text)
    {other : Text}
    (otherIdentifier : isIdentifier other = true) :
    name ++ "'" ≠ other := by
  rintro rfl
  have outside : Identifier.isFollowing '\'' = false := by decide
  exact not_mem_of_isIdentifier otherIdentifier outside (by simp)

/-- The prime keeps a taken name apart from the others, and hides no difference. -/
theorem identifier_eq_iff
    {left right : Text}
    (leftIdentifier : isIdentifier left = true)
    (rightIdentifier : isIdentifier right = true) :
    identifier left = identifier right ↔ Text.AgreeUpToInitial left right := by
  rw [← Text.uncapitalize_eq_iff leftIdentifier rightIdentifier]
  have leftSmall := Text.isIdentifier_uncapitalize leftIdentifier
  have rightSmall := Text.isIdentifier_uncapitalize rightIdentifier
  constructor
  · intro same
    by_cases leftTaken : IsTaken left.uncapitalize
    · rw [identifier_of_isTaken leftTaken] at same
      by_cases rightTaken : IsTaken right.uncapitalize
      · rw [identifier_of_isTaken rightTaken] at same
        exact List.append_cancel_right same
      · rw [identifier_of_not_isTaken rightTaken] at same
        exact (primed_ne_of_isIdentifier _ rightSmall same).elim
    · rw [identifier_of_not_isTaken leftTaken] at same
      by_cases rightTaken : IsTaken right.uncapitalize
      · rw [identifier_of_isTaken rightTaken] at same
        exact (primed_ne_of_isIdentifier _ leftSmall same.symm).elim
      · rw [identifier_of_not_isTaken rightTaken] at same
        exact same
  · intro same
    rw [identifier, identifier, same]

/-- A value identifier is a given name with a small first letter when the two agree up to that
letter, unless the name is taken. -/
theorem identifier_eq_small_iff
    {name small : Text}
    (nameIdentifier : isIdentifier name = true)
    (smallIdentifier : isIdentifier small = true)
    (isSmall : small.uncapitalize = small) :
    identifier name = small ↔ Text.AgreeUpToInitial name small ∧ ¬ IsTaken small := by
  rw [← Text.uncapitalize_eq_iff nameIdentifier smallIdentifier, isSmall]
  constructor
  · intro same
    by_cases taken : IsTaken name.uncapitalize
    · rw [identifier_of_isTaken taken] at same
      exact (primed_ne_of_isIdentifier _ smallIdentifier same).elim
    · rw [identifier_of_not_isTaken taken] at same
      exact ⟨same, same ▸ taken⟩
  · rintro ⟨same, free⟩
    rw [identifier_of_not_isTaken (same ▸ free), same]

end Binding

namespace Names

/-! ## The symbols and accessors of one entity -/

/-- The symbols of all methods of an entity, whether they can be called or not. -/
def methodSymbols
    (options : NamingOptions)
    (entity : Entity) :
    List Text :=
  (entity.methods?.getD []).map fun method => (ofEntity options entity).callSymbol method.name

/-- The members of an entity that have an accessor. -/
def primitiveMembers (entity : Entity) : List Field :=
  (entity.members?.getD []).filter fun member =>
    member.type.category.toOption == some .primitive

/-- The symbols of the accessors of an entity. -/
def accessorSymbols
    (options : NamingOptions)
    (entity : Entity) :
    List Text :=
  (primitiveMembers entity).map fun member =>
    (ofEntity options entity).callSymbol (getterFunction member.name)

/-- The Haskell names of the accessors of an entity. -/
def accessorNames (entity : Entity) : List Text :=
  (primitiveMembers entity).map fun member => Binding.identifier (getterFunction member.name)

theorem callSymbol_injective (names : Names) : Function.Injective names.callSymbol :=
  fun _ _ same => List.append_cancel_left same

theorem getterFunction_eq_iff
    {left right : Text}
    (leftIdentifier : isIdentifier left = true)
    (rightIdentifier : isIdentifier right = true) :
    getterFunction left = getterFunction right ↔ Text.AgreeUpToInitial left right := by
  rw [← Text.capitalize_eq_iff leftIdentifier rightIdentifier]
  exact ⟨List.append_cancel_left, congrArg _⟩

theorem isIdentifier_getterFunction
    {member : Text}
    (identifier : isIdentifier member = true) :
    isIdentifier (getterFunction member) = true := by
  have capital := Text.isIdentifier_capitalize identifier
  have spelled : getterFunction member = 'g' :: 'e' :: 't' :: member.capitalize := rfl
  rw [spelled, isIdentifier_cons_iff, List.forall_mem_cons, List.forall_mem_cons]
  exact ⟨by decide, by decide, by decide, fun _ => isFollowing_of_mem_isIdentifier capital⟩

/-- The names of two accessors start with the same small letter. -/
theorem agreeUpToInitial_getterFunction_iff (left right : Text) :
    Text.AgreeUpToInitial (getterFunction left) (getterFunction right) ↔
      getterFunction left = getterFunction right := by
  constructor
  · rintro ⟨-, rest⟩
    exact congrArg (List.cons 'g') rest
  · intro same
    rw [same]
    exact ⟨rfl, rfl⟩

/-- Names derived from identifiers are different exactly when the identifiers do not agree. -/
theorem nodup_map_iff_pairwise
    {Source : Type}
    {sources : List Source}
    {derived : Source → Text}
    {agree : Source → Source → Prop}
    (same :
      ∀ left ∈ sources, ∀ right ∈ sources, (derived left = derived right ↔ agree left right)) :
    (sources.map derived).Nodup ↔ sources.Pairwise fun left right => ¬ agree left right := by
  rw [List.Nodup, List.pairwise_map]
  apply List.Pairwise.iff_of_mem
  intro left right leftMember rightMember
  exact not_congr (same left leftMember right rightMember)

/-- The accessors of a checked exception have different symbols exactly when no two primitive
members agree up to the case of their first letters, and so do their Haskell names. -/
theorem nodup_accessors_iff
    (options : NamingOptions)
    {entity : Entity}
    (checked : entity.check = .ok ())
    (exception : entity.tag = .known .exception) :
    ((accessorSymbols options entity).Nodup ↔
        (primitiveMembers entity).Pairwise fun left right =>
          ¬ Text.AgreeUpToInitial left.name right.name) ∧
      ((accessorNames entity).Nodup ↔
        (primitiveMembers entity).Pairwise fun left right =>
          ¬ Text.AgreeUpToInitial left.name right.name) := by
  have identifiers :
      ∀ member ∈ primitiveMembers entity, isIdentifier member.name = true :=
    fun member present =>
      Entity.isIdentifier_of_mem_members checked exception (List.mem_of_mem_filter present)
  constructor
  · apply nodup_map_iff_pairwise
    intro left leftMember right rightMember
    rw [(callSymbol_injective _).eq_iff,
      getterFunction_eq_iff (identifiers left leftMember) (identifiers right rightMember)]
  · apply nodup_map_iff_pairwise
    intro left leftMember right rightMember
    have leftIdentifier := identifiers left leftMember
    have rightIdentifier := identifiers right rightMember
    rw [Binding.identifier_eq_iff (isIdentifier_getterFunction leftIdentifier)
        (isIdentifier_getterFunction rightIdentifier),
      agreeUpToInitial_getterFunction_iff, getterFunction_eq_iff leftIdentifier rightIdentifier]

/-- The methods of a checked interface have different symbols. -/
theorem nodup_methodSymbols
    (options : NamingOptions)
    {entity : Entity}
    (checked : entity.check = .ok ())
    (interface : entity.tag = .known .interface) :
    (methodSymbols options entity).Nodup := by
  have distinct := Entity.nodup_methods_of_check checked interface
  have symbols := distinct.map (callSymbol_injective (ofEntity options entity))
  rwa [List.map_map] at symbols

/--
Every method of a checked interface has a symbol of its own.  The accessors of a checked exception
have symbols of their own, and Haskell names of their own, exactly when no two of its primitive
members agree up to the case of their first letters.
-/
theorem ownSymbols_nodup_iff
    (options : NamingOptions)
    (entity : Entity)
    (checked : entity.check = .ok ()) :
    (entity.tag = .known .interface → (methodSymbols options entity).Nodup) ∧
      (entity.tag = .known .exception →
        ((accessorSymbols options entity).Nodup ↔
            (primitiveMembers entity).Pairwise fun left right =>
              ¬ Text.AgreeUpToInitial left.name right.name) ∧
          ((accessorNames entity).Nodup ↔
            (primitiveMembers entity).Pairwise fun left right =>
              ¬ Text.AgreeUpToInitial left.name right.name)) :=
  ⟨nodup_methodSymbols options checked, nodup_accessors_iff options checked⟩

/-- An interface with two methods, which have no parameters and no result. -/
def pairInterface (first second : Text) : Entity :=
  ⟨"Widget", ⟨["a"]⟩, .known .interface, some [⟨first, .void, []⟩, ⟨second, .void, []⟩],
    none, none⟩

/-- An exception with the members `code` and `Code`, the second of the given type. -/
def failureException (second : TypeName) : Entity :=
  ⟨"Failure", ⟨["a"]⟩, .known .exception, none,
    some [⟨"code", ⟨"long"⟩⟩, ⟨"Code", second⟩, ⟨"interface", ⟨"short"⟩⟩], none⟩

theorem isPrimitive_of_mem
    {name : Text}
    (known : name ∈ TypeName.primitiveNames) :
    ((TypeName.category ⟨name⟩).toOption == some .primitive) = true := by
  rw [(TypeName.Matches.primitive known).category_eq]
  rfl

/-- The second member has an accessor when its type is primitive. -/
theorem primitiveMembers_failureException (second : TypeName) :
    primitiveMembers (failureException second) =
      if (second.category.toOption == some .primitive) = true then
        [⟨"code", ⟨"long"⟩⟩, ⟨"Code", second⟩, ⟨"interface", ⟨"short"⟩⟩]
      else
        [⟨"code", ⟨"long"⟩⟩, ⟨"interface", ⟨"short"⟩⟩] := by
  have members :
      (failureException second).members? =
        some [⟨"code", ⟨"long"⟩⟩, ⟨"Code", second⟩, ⟨"interface", ⟨"short"⟩⟩] := rfl
  have long : ((TypeName.category ⟨"long"⟩).toOption == some .primitive) = true :=
    isPrimitive_of_mem (by decide)
  have short : ((TypeName.category ⟨"short"⟩).toOption == some .primitive) = true :=
    isPrimitive_of_mem (by decide)
  rw [primitiveMembers, members, Option.getD_some, List.filter_cons, if_pos long,
    List.filter_cons, List.filter_cons, if_pos short, List.filter_nil]
  split
  · rfl
  · rfl

/-- Members that agree up to the case of their first letters do no harm when only one of them has
an accessor, and neither do such methods to their symbols. -/
theorem ownSymbols_nodup_one_accessor :
    (pairInterface "get" "Get").check = .ok () ∧
      (methodSymbols .default (pairInterface "get" "Get")).Nodup ∧
      (failureException ⟨"string"⟩).check = .ok () ∧
      (accessorSymbols .default (failureException ⟨"string"⟩)).Nodup ∧
      (accessorNames (failureException ⟨"string"⟩)).Nodup := by
  have string : TypeName.category ⟨"string"⟩ = .ok .string := TypeName.Matches.string.category_eq
  have apart :
      (primitiveMembers (failureException ⟨"string"⟩)).Pairwise fun left right =>
        ¬ Text.AgreeUpToInitial left.name right.name := by
    rw [primitiveMembers_failureException, string, if_neg (by decide)]
    decide
  have methods := (ownSymbols_nodup_iff .default (pairInterface "get" "Get") rfl).1 rfl
  have accessors := (ownSymbols_nodup_iff .default (failureException ⟨"string"⟩) rfl).2 rfl
  exact ⟨rfl, methods, rfl, accessors.1.2 apart, accessors.2.2 apart⟩

/-- A checked exception with the primitive members `code` and `Code` has two accessors with the
symbol `hsuno_a_Failure_getCode`. -/
theorem not_ownSymbols_nodup_of_check :
    ¬ ∀ (options : NamingOptions) (entity : Entity),
      isIdentifier options.symbolPrefix = true →
      entity.check = .ok () →
      (entity.tag = .known .interface → (methodSymbols options entity).Nodup) ∧
        (entity.tag = .known .exception →
          (accessorSymbols options entity).Nodup ∧ (accessorNames entity).Nodup) := by
  intro always
  have distinct :=
    ((always .default (failureException ⟨"short"⟩) (by decide) rfl).2 rfl).1
  rw [accessorSymbols, primitiveMembers_failureException,
    if_pos (isPrimitive_of_mem (by decide))] at distinct
  exact absurd distinct (by decide)

end Names

/-! ## The values of a Haskell module -/

namespace Emission

/-- The values that the Haskell module of an interface declares at its top level: a class method
for every method, and an imported shim for every method that can be called. -/
def valueNames (entity : Entity) : List Text :=
  ((entity.methods?.getD []).map fun method => Binding.identifier method.name) ++
    (callableMethods entity).map fun method => Names.importName method.name

/-- The methods are so named that the values derived from them differ. -/
structure ValuesApart (entity : Entity) : Prop where
  /-- No two methods agree up to the case of their first letters. -/
  methods :
    (entity.methods?.getD []).Pairwise fun left right =>
      ¬ Text.AgreeUpToInitial left.name right.name
  /-- A method that agrees with the import of a method, up to the case of its first letter, gets
  a prime that the import does not have. -/
  imports :
    ∀ method ∈ entity.methods?.getD [], ∀ imported ∈ callableMethods entity,
      Text.AgreeUpToInitial method.name (Names.importName imported.name) →
        Binding.IsTaken (Names.importName imported.name)

theorem isIdentifier_importName
    {name : Text}
    (identifier : isIdentifier name = true) :
    isIdentifier (Names.importName name) = true :=
  (isIdentifier_cons_iff 'c' name).2
    ⟨by decide, fun _ => isFollowing_of_mem_isIdentifier identifier⟩

theorem uncapitalize_importName
    {name : Text}
    (identifier : isIdentifier name = true) :
    (Names.importName name).uncapitalize = Names.importName name :=
  Text.uncapitalize_of_isIdentifier (isIdentifier_importName identifier)

theorem importName_injective : Function.Injective Names.importName :=
  fun _ _ same => List.append_cancel_left same

theorem nodup_valueNames_iff
    {entity : Entity}
    (checked : entity.check = .ok ())
    (interface : entity.tag = .known .interface) :
    (valueNames entity).Nodup ↔ ValuesApart entity := by
  have identifiers :
      ∀ method ∈ entity.methods?.getD [], isIdentifier method.name = true :=
    fun method member => (Entity.isIdentifier_of_mem_methods checked interface member).1
  have callable :
      ∀ method ∈ callableMethods entity, method ∈ entity.methods?.getD [] :=
    fun method => List.mem_of_mem_filter
  have methods :
      ((entity.methods?.getD []).map fun method => Binding.identifier method.name).Nodup ↔
        (entity.methods?.getD []).Pairwise fun left right =>
          ¬ Text.AgreeUpToInitial left.name right.name :=
    Names.nodup_map_iff_pairwise fun left leftMember right rightMember =>
      Binding.identifier_eq_iff (identifiers left leftMember) (identifiers right rightMember)
  have imports :
      ((callableMethods entity).map fun method => Names.importName method.name).Nodup := by
    have distinct := Entity.nodup_methods_of_check checked interface
    have chosen : ((callableMethods entity).map Method.name).Nodup :=
      distinct.sublist (List.filter_sublist.map Method.name)
    have imported := chosen.map importName_injective
    rwa [List.map_map] at imported
  have meets :
      ∀ method ∈ entity.methods?.getD [], ∀ imported ∈ callableMethods entity,
        (Binding.identifier method.name = Names.importName imported.name ↔
          Text.AgreeUpToInitial method.name (Names.importName imported.name) ∧
            ¬ Binding.IsTaken (Names.importName imported.name)) := by
    intro method member imported importedMember
    have identifier := identifiers imported (callable imported importedMember)
    exact Binding.identifier_eq_small_iff (identifiers method member)
      (isIdentifier_importName identifier) (uncapitalize_importName identifier)
  rw [valueNames, List.nodup_append, methods]
  constructor
  · rintro ⟨apart, -, disjoint⟩
    refine ⟨apart, fun method member imported importedMember agree => ?_⟩
    by_contra free
    exact disjoint _ (List.mem_map_of_mem member) _ (List.mem_map_of_mem importedMember)
      ((meets method member imported importedMember).2 ⟨agree, free⟩)
  · rintro ⟨apart, primed⟩
    refine ⟨apart, imports, fun value inMethods other inImports same => ?_⟩
    obtain ⟨method, member, rfl⟩ := List.mem_map.1 inMethods
    obtain ⟨imported, importedMember, rfl⟩ := List.mem_map.1 inImports
    obtain ⟨agree, free⟩ := (meets method member imported importedMember).1 same
    exact free (primed method member imported importedMember agree)

/-- The values that the rendered plans of an interface declare. -/
def declaredValues (plans : List MethodPlan) : List Text :=
  (plans.map fun plan => Binding.identifier plan.method) ++
    (plans.filter MethodPlan.isSupported).map MethodPlan.importName

theorem declaredValues_eq_valueNames
    {names : Names}
    {entity : Entity}
    {plans : List MethodPlan}
    (planned : (entity.methods?.getD []).mapM (MethodPlan.ofMethod names) = .ok plans) :
    declaredValues plans = valueNames entity := by
  rw [mapM_eq_ok_iff] at planned
  rw [declaredValues, valueNames, callableMethods]
  generalize entity.methods?.getD [] = methods at planned
  congr 1
  · induction planned with
    | nil => rfl
    | cons head tail induction =>
        rw [List.map_cons, List.map_cons, induction,
          (MethodPlan.settles_of_ofMethod head).sameMethod]
  · induction planned with
    | nil => rfl
    | @cons method plan rest others head tail induction =>
        have settles := MethodPlan.settles_of_ofMethod head
        have sameTest := settles.isSupported_eq
        by_cases supported : plan.isSupported = true
        · rw [List.filter_cons_of_pos supported, List.filter_cons_of_pos (sameTest ▸ supported),
            List.map_cons, List.map_cons, induction, settles.importName]
        · rw [List.filter_cons_of_neg supported, List.filter_cons_of_neg (sameTest ▸ supported),
            induction]

/--
The Haskell module of an interface is rendered from plans that declare the values named here, and
it declares no value twice exactly when no two methods agree up to the case of their first
letters, and no method agrees in that way with the import of a callable method, unless the import
has a name that is taken.
-/
theorem nodup_valueNames_iff_of_compose
    (context : Context)
    (entity : Entity)
    (texts : Texts)
    (interface : entity.tag = .known .interface)
    (composed : compose context entity = .ok texts) :
    (∃ plans,
      texts.binding =
          tidyEnd (interfaceTexts (Names.ofEntity context.options entity) plans).binding ∧
        declaredValues plans = valueNames entity) ∧
      ((valueNames entity).Nodup ↔ ValuesApart entity) := by
  obtain ⟨checked, plans, planned, -, -, binding⟩ := exists_plans_of_compose interface composed
  exact ⟨⟨plans, binding, declaredValues_eq_valueNames planned⟩,
    nodup_valueNames_iff checked interface⟩

theorem exists_compose_pairInterface
    (first second : Text)
    (checked : (Names.pairInterface first second).check = .ok ()) :
    ∃ texts, compose ⟨.default, .empty⟩ (Names.pairInterface first second) = .ok texts := by
  have void : TypeName.void.category = .ok .void := TypeName.Matches.void.category_eq
  obtain ⟨nothing, nothingPlanned, -⟩ := PlannedValue.exists_plan_of_category [] void
  have plain (names : Names) (name : Text) :
      ∃ plan, MethodPlan.ofMethod names ⟨name, .void, []⟩ = .ok plan := by
    simp only [MethodPlan.ofMethod, nothingPlanned, MethodPlan.planParameters_nil]
    exact ⟨_, rfl⟩
  obtain ⟨firstPlan, firstPlanned⟩ :=
    plain (Names.ofEntity .default (Names.pairInterface first second)) first
  obtain ⟨secondPlan, secondPlanned⟩ :=
    plain (Names.ofEntity .default (Names.pairInterface first second)) second
  apply exists_compose_of_plans checked rfl
  exact (mapM_eq_ok_iff _ _ [firstPlan, secondPlan]).2
    (.cons firstPlanned (.cons secondPlanned .nil))

theorem callableMethods_pairInterface (first second : Text) :
    callableMethods (Names.pairInterface first second) =
      [⟨first, .void, []⟩, ⟨second, .void, []⟩] := by
  have void : TypeName.void.category = .ok .void := TypeName.Matches.void.category_eq
  have methods :
      (Names.pairInterface first second).methods? =
        some [⟨first, .void, []⟩, ⟨second, .void, []⟩] := rfl
  simp [callableMethods, methods, Method.hasAggregate, Method.types, void, Except.toOption]

/-- The import of the method `ase` is called like the method `Case` with a small first letter, and
only the method gets a prime. -/
theorem nodup_valueNames_primed :
    ∃ texts,
      compose ⟨.default, .empty⟩ (Names.pairInterface "Case" "ase") = .ok texts ∧
        (valueNames (Names.pairInterface "Case" "ase")).Nodup := by
  obtain ⟨texts, composed⟩ := exists_compose_pairInterface "Case" "ase" rfl
  have apart : ValuesApart (Names.pairInterface "Case" "ase") := by
    constructor
    · decide
    · rw [callableMethods_pairInterface]
      decide
  exact ⟨texts, composed,
    (nodup_valueNames_iff_of_compose ⟨.default, .empty⟩ _ texts rfl composed).2.2 apart⟩

/-- Two interfaces that are composed although their Haskell modules declare a value twice: the
class methods of `get` and `Get`, and the import of `lose` with the class method of `close`. -/
theorem exists_compose_repeated_values :
    (∃ texts,
      compose ⟨.default, .empty⟩ (Names.pairInterface "get" "Get") = .ok texts ∧
        ¬ (valueNames (Names.pairInterface "get" "Get")).Nodup) ∧
      ∃ texts,
        compose ⟨.default, .empty⟩ (Names.pairInterface "lose" "close") = .ok texts ∧
          ¬ (valueNames (Names.pairInterface "lose" "close")).Nodup := by
  constructor
  · obtain ⟨texts, composed⟩ := exists_compose_pairInterface "get" "Get" rfl
    refine ⟨texts, composed, ?_⟩
    rw [valueNames, callableMethods_pairInterface]
    decide
  · obtain ⟨texts, composed⟩ := exists_compose_pairInterface "lose" "close" rfl
    refine ⟨texts, composed, ?_⟩
    rw [valueNames, callableMethods_pairInterface]
    decide

end Emission

end UnoBindgen
