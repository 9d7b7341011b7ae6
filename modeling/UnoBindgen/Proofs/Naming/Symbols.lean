import Mathlib
import UnoBindgen.Proofs.Naming.Targets
import UnoBindgen.Proofs.Plan
import UnoBindgen.Proofs.TypeName.Classification

/-!
# Exported symbols of different entities

A symbol is the stem of its entity, an underscore and a function.  The registry keeps stems apart,
but an underscore may also stand inside a stem or a function, so a symbol can be cut in more than
one place.  Two entities share a symbol exactly when the stem of one continues the stem of the
other behind an underscore, and a function of the other starts with that continuation.

The main theorem states that the registry leaves this one kind of clash and no other.
-/

namespace UnoBindgen.Names

/-! ## What an entity exports -/

/-- The functions that an entity exports: the methods of an interface that can be called, an
accessor for each primitive member of an exception, and the constructor of an interface
singleton. -/
def exportedFunctions
    (options : NamingOptions)
    (entity : Entity) :
    List Text :=
  match entity.tag with
  | .known .interface =>
    ((entity.methods?.getD []).filter fun method =>
      (MethodPlan.ofMethod (ofEntity options entity) method).toOption.any
        MethodPlan.isSupported).map Method.name
  | .known .exception =>
    ((entity.members?.getD []).filter fun member =>
      member.type.category.toOption == some .primitive).map fun member =>
        getterFunction member.name
  | .known .interfaceSingleton => [constructorFunction]
  | _ => []

/-- The symbols of the functions that an entity exports. -/
def exportedSymbols
    (options : NamingOptions)
    (entity : Entity) :
    List Text :=
  (exportedFunctions options entity).map (ofEntity options entity).callSymbol

/-- No symbol is exported by two different entities. -/
def SymbolsDisjoint
    (options : NamingOptions)
    (entities : List Entity) : Prop :=
  ∀ left ∈ entities, ∀ right ∈ entities, left ≠ right →
    ∀ symbol ∈ exportedSymbols options left, symbol ∉ exportedSymbols options right

/-! ## Where a symbol can be cut -/

/-- Some symbol of the outer entity can be read as one of the inner entity: the inner stem
continues the outer one, and a function of the outer entity starts with the continuation. -/
def Overlaps
    (options : NamingOptions)
    (outer inner : Entity) : Prop :=
  ∃ middle : Text,
    inner.path.flattened = outer.path.flattened ++ "_" ++ middle ∧
      ∃ function ∈ exportedFunctions options inner,
        middle ++ "_" ++ function ∈ exportedFunctions options outer

/-- A text with two cuts at an underscore has one of the cuts inside the part that the other
leaves over. -/
theorem exists_middle_of_cuts
    {firstStem secondStem firstFunction secondFunction : Text}
    (different : firstStem ≠ secondStem)
    (same :
      firstStem ++ '_' :: firstFunction = secondStem ++ '_' :: secondFunction) :
    (∃ middle,
      secondStem = firstStem ++ '_' :: middle ∧
        firstFunction = middle ++ '_' :: secondFunction) ∨
    (∃ middle,
      firstStem = secondStem ++ '_' :: middle ∧
        secondFunction = middle ++ '_' :: firstFunction) := by
  rcases List.append_eq_append_iff.1 same with
    ⟨between, stems, functions⟩ | ⟨between, stems, functions⟩
  · left
    cases between with
    | nil => exact (different (by simpa using stems.symm)).elim
    | cons character middle =>
        obtain ⟨rfl, rest⟩ := List.cons.inj functions
        exact ⟨middle, stems, rest⟩
  · right
    cases between with
    | nil => exact (different (by simpa using stems)).elim
    | cons character middle =>
        obtain ⟨rfl, rest⟩ := List.cons.inj functions
        exact ⟨middle, stems, rest⟩

theorem callSymbol_ofEntity
    (options : NamingOptions)
    (entity : Entity)
    (function : Text) :
    (ofEntity options entity).callSymbol function =
      options.symbolPrefix ++ (entity.path.flattened ++ '_' :: function) := by
  rw [callSymbol, symbolStem_ofEntity]
  simp

/-- Entities with different stems that share a symbol overlap in one of the two directions. -/
theorem overlaps_of_shared_symbol
    {options : NamingOptions}
    {left right : Entity}
    (stems : left.path.flattened ≠ right.path.flattened)
    {symbol : Text}
    (inLeft : symbol ∈ exportedSymbols options left)
    (inRight : symbol ∈ exportedSymbols options right) :
    Overlaps options left right ∨ Overlaps options right left := by
  obtain ⟨leftFunction, leftMember, rfl⟩ := List.mem_map.1 inLeft
  obtain ⟨rightFunction, rightMember, same⟩ := List.mem_map.1 inRight
  rw [callSymbol_ofEntity, callSymbol_ofEntity] at same
  rcases exists_middle_of_cuts stems.symm (List.append_cancel_left same) with
    ⟨middle, stem, function⟩ | ⟨middle, stem, function⟩
  · right
    refine ⟨middle, by simpa using stem, leftFunction, leftMember, ?_⟩
    simpa [function] using rightMember
  · left
    refine ⟨middle, by simpa using stem, rightFunction, rightMember, ?_⟩
    simpa [function] using leftMember

/-- Entities that overlap share a symbol. -/
theorem Overlaps.shared_symbol
    {options : NamingOptions}
    {outer inner : Entity}
    (overlaps : Overlaps options outer inner) :
    ∃ symbol ∈ exportedSymbols options outer, symbol ∈ exportedSymbols options inner := by
  obtain ⟨middle, stem, function, innerMember, outerMember⟩ := overlaps
  refine ⟨_, List.mem_map_of_mem outerMember, List.mem_map.2 ⟨function, innerMember, ?_⟩⟩
  rw [callSymbol_ofEntity, callSymbol_ofEntity, stem]
  simp

/-- No entity overlaps itself, because a continued stem is longer. -/
theorem Overlaps.ne
    {options : NamingOptions}
    {outer inner : Entity}
    (overlaps : Overlaps options outer inner) :
    outer ≠ inner := by
  rintro rfl
  obtain ⟨middle, stem, -⟩ := overlaps
  have lengths := congrArg List.length stem
  simp at lengths

/-- An entity whose functions have no underscore overlaps no entity inside it. -/
theorem not_overlaps_of_no_underscore
    {options : NamingOptions}
    {outer : Entity}
    (plain : ∀ function ∈ exportedFunctions options outer, '_' ∉ function)
    (inner : Entity) :
    ¬ Overlaps options outer inner := by
  rintro ⟨middle, -, function, -, outerMember⟩
  exact plain _ outerMember (by simp)

/-! ## The registry and symbols -/

/-- Accepted entities export no common symbol exactly when no two of them overlap. -/
theorem symbolsDisjoint_iff_not_overlaps
    (options : NamingOptions)
    (entities : List Entity)
    (registry : Registry)
    (accepted : Registry.ofEntities entities = .ok registry) :
    SymbolsDisjoint options entities ↔
      ∀ outer ∈ entities, ∀ inner ∈ entities, ¬ Overlaps options outer inner := by
  have apart := ((Registry.ofEntities_eq_ok_iff entities registry).1 accepted).1
  constructor
  · intro disjoint outer outerMember inner innerMember overlaps
    obtain ⟨symbol, inOuter, inInner⟩ := overlaps.shared_symbol
    exact disjoint outer outerMember inner innerMember overlaps.ne symbol inOuter inInner
  · intro separate left leftMember right rightMember different symbol inLeft inRight
    have leftApart : left.Apart right :=
      apart.forall leftMember rightMember different
    rcases overlaps_of_shared_symbol leftApart.stems inLeft inRight with overlaps | overlaps
    · exact separate left leftMember right rightMember overlaps
    · exact separate right rightMember left leftMember overlaps

/-- An interface in the module `a` with one method, which has no parameters and no result. -/
def plainInterface (name method : Text) : Entity :=
  ⟨name, ⟨["a"]⟩, .known .interface, some [⟨method, .void, []⟩], none, none⟩

theorem exportedFunctions_plainInterface
    (options : NamingOptions)
    (name method : Text) :
    exportedFunctions options (plainInterface name method) = [method] := by
  have void : TypeName.void.category = .ok .void := TypeName.Matches.void.category_eq
  obtain ⟨nothing, planned, category⟩ := PlannedValue.exists_plan_of_category [] void
  simp [exportedFunctions, plainInterface, MethodPlan.ofMethod, planned, category,
    MethodPlan.planParameters_nil, Except.toOption, MethodPlan.isSupported, MethodPlan.start,
    PlannedValue.isSupported]

/-- The registry accepts these two interfaces, and their symbols differ although the stem of the
one continues that of the other. -/
theorem symbolsDisjoint_continued_stems :
    SymbolsDisjoint .default
      [plainInterface "Widget" "getCount", plainInterface "Widget_b" "get"] := by
  refine (symbolsDisjoint_iff_not_overlaps .default _ _ rfl).2 ?_
  intro outer outerMember inner innerMember
  apply not_overlaps_of_no_underscore
  simp only [List.mem_cons, List.not_mem_nil, or_false] at outerMember
  rcases outerMember with rfl | rfl
  · rw [exportedFunctions_plainInterface]
    decide
  · rw [exportedFunctions_plainInterface]
    decide

/-- The registry accepts two consistent interfaces that export the same symbol,
`hsuno_a_Widget_b_get`. -/
theorem not_symbolsDisjoint_of_accepted :
    ¬ ∀ (options : NamingOptions) (entities : List Entity) (registry : Registry),
      isIdentifier options.symbolPrefix = true →
      (∀ entity ∈ entities, entity.check = .ok ()) →
      Registry.ofEntities entities = .ok registry →
      SymbolsDisjoint options entities := by
  intro always
  have checked :
      ∀ entity ∈ [plainInterface "Widget" "b_get", plainInterface "Widget_b" "get"],
        entity.check = .ok () := by
    intro entity member
    simp only [List.mem_cons, List.not_mem_nil, or_false] at member
    rcases member with rfl | rfl
    · rfl
    · rfl
  have disjoint := always .default _ _ (by decide) checked rfl
  refine disjoint (plainInterface "Widget" "b_get") (by simp) (plainInterface "Widget_b" "get")
    (by simp) (by decide) "hsuno_a_Widget_b_get" ?_ ?_
  · rw [exportedSymbols, exportedFunctions_plainInterface]
    decide
  · rw [exportedSymbols, exportedFunctions_plainInterface]
    decide

end UnoBindgen.Names
