import UnoBindgen.Proofs.Entity.Consistency
import UnoBindgen.Proofs.Identifier.Expression
import UnoBindgen.Proofs.ModulePath

/-!
# Consistent descriptions

`Entity.IsConsistent` says what a description has to satisfy, without any order of looking: names
match the regular expression of identifiers, names that share a scope differ, the part that belongs
to the kind is there, and a singleton is not based on itself.  Parts that belong to other kinds may
be there or not.

The main theorem states that the check, which walks through the description and stops at its first
fault, accepts these descriptions and no others.
-/

namespace UnoBindgen

/-- The tag with a code is one of the kinds exactly when the code is the one of that kind. -/
theorem KindTag.ofCode_eq_known_iff (code : Int) (kind : Kind) :
    ofCode code = .known kind ↔ kind.code = code := by
  constructor
  · intro known
    rw [ofCode] at known
    split at known
    · rename_i other found
      obtain rfl := KindTag.known.inj known
      simpa using List.find?_some found
    · exact absurd known (by simp)
  · rintro rfl
    cases kind <;> rfl

namespace Entity

/-! ## Conditions without an order -/

/-- Names of one scope: identifiers, all of them different. -/
structure AreScoped (names : List Text) : Prop where
  identifiers : ∀ name ∈ names, name ∈ Identifier.expression.matches'
  distinct : names.Nodup

/-- The part of an interface: methods with different names, and parameters that have different
names in each method. -/
def HasMethods (entity : Entity) : Prop :=
  ∃ methods, entity.methods? = some methods ∧
    AreScoped (methods.map Method.name) ∧
    ∀ method ∈ methods, AreScoped (method.parameters.map Field.name)

/-- The part of an exception: members with different names. -/
def HasMembers (entity : Entity) : Prop :=
  ∃ members, entity.members? = some members ∧ AreScoped (members.map Field.name)

/-- The part of a singleton: a base with a dotted name that is not its own. -/
def HasBase (entity : Entity) : Prop :=
  ∃ base, entity.base? = some base ∧ base ≠ entity.fullName ∧
    ∃ segments : List Text, segments ≠ [] ∧
      (∀ segment ∈ segments, segment ∈ Identifier.expression.matches') ∧
      base = Text.join "." segments

/-- The part that belongs to a kind. -/
def HasPart (entity : Entity) : Kind → Prop
  | .interface => entity.HasMethods
  | .exception => entity.HasMembers
  | .interfaceSingleton => entity.HasBase
  | .serviceSingleton => entity.HasBase

/-- A description without any inconsistency. -/
structure IsConsistent (entity : Entity) : Prop where
  name : entity.name ∈ Identifier.expression.matches'
  module : ∀ segment ∈ entity.module.segments, segment ∈ Identifier.expression.matches'
  part : ∃ kind, entity.tag = .known kind ∧ entity.HasPart kind

/-! ## The parts that have no fault -/

theorem areScoped_map_iff
    {Source : Type}
    (name : Source → Text)
    (sources : List Source) :
    AreScoped (sources.map name) ↔
      (∀ source ∈ sources, isIdentifier (name source) = true) ∧ (sources.map name).Nodup := by
  have identifiers :
      (∀ word ∈ sources.map name, word ∈ Identifier.expression.matches') ↔
        ∀ source ∈ sources, isIdentifier (name source) = true := by
    simp only [List.forall_mem_map, Identifier.mem_matches_expression_iff]
  rw [← identifiers]
  exact ⟨fun names => ⟨names.identifiers, names.distinct⟩, fun names => ⟨names.1, names.2⟩⟩

theorem partFault?_interface_eq_none_iff (entity : Entity) :
    entity.partFault? .interface = none ↔ entity.HasMethods := by
  rw [partFault?, HasMethods]
  cases entity.methods? with
  | none => simp
  | some methods =>
      simp only [methodFault?_eq_none_iff, parameterFault?_eq_none_iff, areScoped_map_iff,
        Option.some.injEq, exists_eq_left', List.not_mem_nil, not_false_eq_true, true_and,
        forall_and]
      tauto

theorem partFault?_exception_eq_none_iff (entity : Entity) :
    entity.partFault? .exception = none ↔ entity.HasMembers := by
  rw [partFault?, HasMembers]
  cases entity.members? with
  | none => simp
  | some members =>
      simp only [memberFault?_eq_none_iff, areScoped_map_iff, Option.some.injEq, exists_eq_left']

/-- A base without a fault is a dotted name other than that of the entity. -/
theorem baseFault?_eq_none_iff
    {entity : Entity}
    (identifiers : entity.path.HasIdentifiers)
    (base : Text) :
    entity.baseFault? base = none ↔
      isQualifiedIdentifier base = true ∧ base ≠ entity.fullName := by
  rw [baseFault?]
  by_cases qualified : isQualifiedIdentifier base = true
  · have nonempty : base ≠ [] := ((isQualifiedIdentifier_iff_isDotted base).1 qualified).ne_nil
    obtain ⟨path, parsed⟩ := (ModulePath.exists_parse_iff base).2 (Or.inr qualified)
    have itself : path = entity.path ↔ base = entity.fullName := by
      have read := ModulePath.parse_eq_ok_iff base entity.path
      rw [parsed, and_iff_right identifiers, Except.ok.injEq] at read
      exact read.trans eq_comm
    rw [if_neg nonempty, if_neg (by simp [qualified])]
    simp only [parsed, ModulePath.equals_iff, itself, qualified, true_and]
    split <;> simp_all
  · split <;> simp_all

theorem baseFault?_getD_eq_none_iff
    {entity : Entity}
    (identifiers : entity.path.HasIdentifiers) :
    entity.baseFault? (entity.base?.getD []) = none ↔ entity.HasBase := by
  rw [baseFault?_eq_none_iff identifiers, isQualifiedIdentifier_iff_isDotted, HasBase]
  simp only [IsDotted, Identifier.mem_matches_expression_iff]
  cases entity.base? with
  | none =>
      -- The empty text stands for a base that is missing, and it is no dotted name.
      exact iff_of_false (fun accepted => IsDotted.ne_nil accepted.1 rfl) (by simp)
  | some base =>
      rw [Option.getD_some, and_comm]
      simp only [Option.some.injEq, exists_eq_left']

theorem partFault?_eq_none_iff
    {entity : Entity}
    (identifiers : entity.path.HasIdentifiers)
    (kind : Kind) :
    entity.partFault? kind = none ↔ entity.HasPart kind := by
  cases kind with
  | interface => exact partFault?_interface_eq_none_iff entity
  | exception => exact partFault?_exception_eq_none_iff entity
  | interfaceSingleton => exact baseFault?_getD_eq_none_iff identifiers
  | serviceSingleton => exact baseFault?_getD_eq_none_iff identifiers

/-! ## The check is exact -/

theorem hasIdentifiers_path_iff (entity : Entity) :
    entity.path.HasIdentifiers ↔
      entity.name ∈ Identifier.expression.matches' ∧
        ∀ segment ∈ entity.module.segments, segment ∈ Identifier.expression.matches' := by
  simp only [Identifier.mem_matches_expression_iff, ModulePath.HasIdentifiers, path,
    ModulePath.child, List.forall_mem_append, List.mem_singleton, forall_eq, and_comm]

/--
The check accepts exactly the consistent descriptions, and whatever it refuses it reports as an
invalid schema.  A description with a kind code has one of the kinds when its code is the one of
that kind.
-/
theorem check_exactly (entity : Entity) :
    (entity.check = .ok () ↔ entity.IsConsistent) ∧
      (∀ fault, entity.check = .error fault → fault.CarriesOnly .invalidSchema) ∧
      ∀ code kind, KindTag.ofCode code = .known kind ↔ kind.code = code := by
  refine ⟨?_, fun fault refused => carriesOnly_of_check refused, KindTag.ofCode_eq_known_iff⟩
  rw [check_eq_ok_iff, fault?_eq_none_iff]
  constructor
  · rintro ⟨identifiers, kind, tag, clean⟩
    obtain ⟨name, module⟩ := (hasIdentifiers_path_iff entity).1 identifiers
    exact ⟨name, module, kind, tag, (partFault?_eq_none_iff identifiers kind).1 clean⟩
  · rintro ⟨name, module, kind, tag, part⟩
    have identifiers := (hasIdentifiers_path_iff entity).2 ⟨name, module⟩
    exact ⟨identifiers, kind, tag, (partFault?_eq_none_iff identifiers kind).2 part⟩

/-- A singleton in the module `a` that is based on itself. -/
def selfBased : Entity :=
  ⟨"Widget", ⟨["a"]⟩, .known .serviceSingleton, none, some [], some "a.Widget"⟩

/-- The check refuses it as an invalid schema, although all its names are identifiers. -/
theorem check_exactly_selfBased :
    ¬ selfBased.IsConsistent ∧
      ∃ fault, selfBased.check = .error fault ∧ fault.CarriesOnly .invalidSchema := by
  obtain ⟨accepts, reports, -⟩ := check_exactly selfBased
  have refused :
      selfBased.check =
        .error (.invalidSchema "singleton a.Widget names itself as its base") := rfl
  refine ⟨fun consistent => ?_, _, refused, reports _ refused⟩
  rw [accepts.2 consistent] at refused
  exact absurd refused (by simp)

end Entity

end UnoBindgen
