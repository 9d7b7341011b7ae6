import UnoBindgen.Plan
import UnoBindgen.Proofs.Fault
import UnoBindgen.Proofs.Traversal

/-!
# What a plan settles

A plan that is made carries over the names and types of the method, has the category of every
position, and has the spellings of every position that can be passed.  A method can be called
exactly when none of its positions is an aggregate.
-/

namespace UnoBindgen

/-! ## Positions -/

namespace Spellings

@[simp]
theorem on_withSpelling_self (spellings : Spellings) (spelled : Text) (surface : Surface) :
    (spellings.withSpelling spelled surface).on surface = spelled := by
  cases surface <;> rfl

theorem on_withSpelling_of_ne
    (spellings : Spellings)
    (spelled : Text)
    {surface other : Surface}
    (different : other ≠ surface) :
    (spellings.withSpelling spelled surface).on other = spellings.on other := by
  cases surface <;> cases other <;> first | rfl | exact (different rfl).elim

/-- A type that has a spelling everywhere is spelled on the surfaces in turn, and the others keep
what they have. -/
theorem exists_spell
    {type : TypeName}
    (spelled : ∀ surface, ∃ text, type.spelling (some surface) = .ok text)
    (surfaces : List Surface)
    (spellings : Spellings) :
    ∃ after, spell type surfaces spellings = .ok after ∧
      (∀ surface ∈ surfaces, type.spelling (some surface) = .ok (after.on surface)) ∧
      ∀ surface ∉ surfaces, after.on surface = spellings.on surface := by
  induction surfaces generalizing spellings with
  | nil => exact ⟨spellings, rfl, by simp, fun _ _ => rfl⟩
  | cons first rest induction =>
      obtain ⟨text, here⟩ := spelled first
      obtain ⟨after, others, shown, kept⟩ := induction (spellings.withSpelling text first)
      refine ⟨after, by rw [spell, here]; exact others, ?_, ?_⟩
      · intro surface member
        by_cases later : surface ∈ rest
        · exact shown surface later
        · obtain rfl := (List.mem_cons.1 member).resolve_right later
          rw [here, kept surface later, on_withSpelling_self]
      · intro surface outside
        rw [List.mem_cons, not_or] at outside
        rw [kept surface outside.2, on_withSpelling_of_ne spellings text outside.1]

/-- Spelling an aggregate ends at the first surface. -/
theorem spell_of_aggregate
    {type : TypeName}
    (aggregate : type.category = .ok .aggregate)
    (surfaces : List Surface)
    (spellings : Spellings) :
    spell type surfaces spellings = .ok spellings := by
  cases surfaces with
  | nil => rfl
  | cons first rest =>
      have unsupported := (Fault.CarriesOnly.unsupportedType type.text).carries_iff .unsupportedType
      rw [spell, TypeName.spelling_some_eq, aggregate]
      exact if_pos (unsupported.2 rfl)

end Spellings

theorem Surface.mem_all (surface : Surface) : surface ∈ Surface.all := by
  cases surface <;> decide

namespace PlannedValue

/-- A planned value describes a position with this name and type. -/
structure Settles
    (value : PlannedValue)
    (name : Text)
    (type : TypeName) : Prop where
  sameName : value.name = name
  sameType : value.type = type
  classified : type.category = .ok value.category
  /-- A value that can be passed has the spelling of its type on every surface. -/
  spelled :
    value.category ≠ .aggregate →
      ∀ surface, type.spelling (some surface) = .ok (value.spellings.on surface)
  /-- An aggregate has no spelling. -/
  unspelled : value.category = .aggregate → value.spellings = .none

/-- Planned values describe parameters one by one. -/
abbrev SettlesAll
    (parameters : List Field)
    (values : List PlannedValue) : Prop :=
  List.Forall₂
    (fun parameter value => value.Settles parameter.name parameter.type) parameters values

/-- A position can be planned as soon as its type has a category, and the plan settles it. -/
theorem exists_settles_of_category
    (name : Text)
    {type : TypeName}
    {category : Category}
    (classified : type.category = .ok category) :
    ∃ value, plan name type = .ok value ∧ value.category = category ∧
      value.Settles name type := by
  have planned
      {spellings : Spellings}
      (spelled : Spellings.spell type Surface.all .none = .ok spellings) :
      plan name type = .ok ⟨name, type, category, spellings⟩ := by
    rw [plan, classified, spelled]
    rfl
  by_cases aggregate : category = .aggregate
  · subst aggregate
    have none := Spellings.spell_of_aggregate classified Surface.all .none
    exact ⟨_, planned none, rfl, rfl, rfl, classified, fun supported => (supported rfl).elim,
      fun _ => rfl⟩
  · have everywhere (surface : Surface) : ∃ text, type.spelling (some surface) = .ok text := by
      rw [TypeName.spelling_some_eq, classified]
      cases category with
      | aggregate => exact (aggregate rfl).elim
      | void => exact ⟨_, rfl⟩
      | string => exact ⟨_, rfl⟩
      | primitive => exact ⟨_, rfl⟩
    obtain ⟨after, spelled, shown, -⟩ := Spellings.exists_spell everywhere Surface.all .none
    exact ⟨_, planned spelled, rfl, rfl, rfl, classified,
      fun _ surface => shown surface surface.mem_all, fun absurd => (aggregate absurd).elim⟩

theorem settles_of_plan
    {name : Text}
    {type : TypeName}
    {value : PlannedValue}
    (planned : plan name type = .ok value) :
    value.Settles name type := by
  obtain ⟨category, classified, -⟩ := (bind_eq_ok_iff _ _ _).1 planned
  obtain ⟨same, alsoPlanned, -, settles⟩ := exists_settles_of_category name classified
  rwa [Except.ok.inj (planned.symm.trans alsoPlanned)]

theorem exists_plan_of_category
    (name : Text)
    {type : TypeName}
    {category : Category}
    (classified : type.category = .ok category) :
    ∃ value, plan name type = .ok value ∧ value.category = category := by
  obtain ⟨value, planned, same, -⟩ := exists_settles_of_category name classified
  exact ⟨value, planned, same⟩

end PlannedValue

/-! ## Methods -/

/-- The types of a method, the result before the parameters. -/
def Method.types (method : Method) : List TypeName :=
  method.returns :: method.parameters.map Field.type

/-- Whether some position of a method is an aggregate. -/
def Method.hasAggregate (method : Method) : Bool :=
  method.types.any fun type => type.category.toOption == some .aggregate

namespace MethodPlan

@[simp]
theorem planParameters_nil
    (plan : MethodPlan)
    (earlier : List Text) :
    plan.planParameters earlier [] = .ok plan := rfl

/-- A parameter is planned when its name is new and its type is not void, and the others follow. -/
theorem planParameters_cons_eq_ok_iff
    (plan : MethodPlan)
    (earlier : List Text)
    (parameter : Field)
    (rest : List Field)
    (after : MethodPlan) :
    plan.planParameters earlier (parameter :: rest) = .ok after ↔
      parameter.name ∉ earlier ∧
        ∃ value,
          PlannedValue.plan parameter.name parameter.type = .ok value ∧
            value.category ≠ .void ∧
            (plan.withParameter value).planParameters (parameter.name :: earlier) rest =
              .ok after := by
  by_cases seen : parameter.name ∈ earlier
  · have refused : plan.planParameters earlier (parameter :: rest) = .error _ := if_pos seen
    simp [refused, seen]
  · have continued : plan.planParameters earlier (parameter :: rest) = _ := if_neg seen
    rw [continued]
    cases planned : PlannedValue.plan parameter.name parameter.type with
    | error fault => simp
    | ok value =>
        by_cases void : value.category = .void
        · simp [void]
        · simp [void, seen]

/-- A plan that has more parameters and is else the same. -/
structure Continues (after plan : MethodPlan) (values : List PlannedValue) : Prop where
  names : after.names = plan.names
  method : after.method = plan.method
  symbol : after.symbol = plan.symbol
  importName : after.importName = plan.importName
  qualified : after.qualified = plan.qualified
  result : after.result = plan.result
  parameters : after.parameters = plan.parameters ++ values

theorem continues_self (plan : MethodPlan) : plan.Continues plan [] :=
  ⟨rfl, rfl, rfl, rfl, rfl, rfl, (List.append_nil _).symm⟩

theorem parameters_withParameter (plan : MethodPlan) (value : PlannedValue) :
    (plan.withParameter value).parameters = plan.parameters ++ [value] := rfl

theorem Continues.of_withParameter
    {after plan : MethodPlan}
    {value : PlannedValue}
    {others : List PlannedValue}
    (continues : after.Continues (plan.withParameter value) others) :
    after.Continues plan (value :: others) :=
  { continues with
    parameters := by rw [continues.parameters, parameters_withParameter, List.append_cons _ value others] }

theorem settles_of_planParameters
    {plan after : MethodPlan}
    {earlier : List Text}
    {parameters : List Field}
    (planned : plan.planParameters earlier parameters = .ok after) :
    ∃ values, after.Continues plan values ∧ PlannedValue.SettlesAll parameters values := by
  induction parameters generalizing plan earlier with
  | nil =>
      obtain rfl := Except.ok.inj planned
      exact ⟨[], continues_self plan, .nil⟩
  | cons parameter rest induction =>
      obtain ⟨-, value, valuePlanned, -, othersPlanned⟩ :=
        (planParameters_cons_eq_ok_iff _ _ _ _ _).1 planned
      obtain ⟨others, continues, settle⟩ := induction othersPlanned
      exact ⟨value :: others, continues.of_withParameter,
        .cons (PlannedValue.settles_of_plan valuePlanned) settle⟩

/-- A plan is that of a method of the entity with these names. -/
structure Settles
    (plan : MethodPlan)
    (names : Names)
    (method : Method) : Prop where
  sameNames : plan.names = names
  sameMethod : plan.method = method.name
  symbol : plan.symbol = names.callSymbol method.name
  importName : plan.importName = Names.importName method.name
  qualified : plan.qualified = names.qualifiedMethod method.name
  result : plan.result.Settles [] method.returns
  parameters : PlannedValue.SettlesAll method.parameters plan.parameters

theorem settles_of_ofMethod
    {names : Names}
    {method : Method}
    {plan : MethodPlan}
    (planned : ofMethod names method = .ok plan) :
    plan.Settles names method := by
  rw [ofMethod] at planned
  split at planned
  · exact absurd planned (by simp)
  · rename_i result resultPlanned
    obtain ⟨values, continues, settle⟩ := settles_of_planParameters planned
    exact
      { sameNames := continues.names
        sameMethod := continues.method
        symbol := continues.symbol
        importName := continues.importName
        qualified := continues.qualified
        result := continues.result ▸ PlannedValue.settles_of_plan resultPlanned
        parameters := continues.parameters ▸ settle }

end MethodPlan

theorem PlannedValue.Settles.isSupported_eq
    {value : PlannedValue}
    {name : Text}
    {type : TypeName}
    (settles : value.Settles name type) :
    value.isSupported = !(type.category.toOption == some .aggregate) := by
  rw [settles.classified]
  simp [isSupported, Except.toOption, bne]

theorem PlannedValue.Settles.spelling_eq_ok
    {value : PlannedValue}
    {name : Text}
    {type : TypeName}
    (settles : value.Settles name type)
    (supported : value.isSupported = true)
    (surface : Surface) :
    type.spelling (some surface) = .ok (value.spellings.on surface) :=
  settles.spelled (bne_iff_ne.1 supported) surface

/-- A value that can be passed is spelled by its category. -/
theorem PlannedValue.Settles.spelling_cases
    {value : PlannedValue}
    {name : Text}
    {type : TypeName}
    (settles : value.Settles name type)
    (supported : value.isSupported = true)
    (surface : Surface) :
    (type.category = .ok .void ∧
        value.spellings.on surface = TypeName.voidSpelling surface) ∨
      (type.category = .ok .string ∧
        value.spellings.on surface = TypeName.stringSpelling surface) ∨
      (type.category = .ok .primitive ∧
        value.spellings.on surface =
          TypeName.primitiveSpelling ((TypeName.primitive? type.text).getD ⟨[], []⟩) surface) := by
  have spelled := settles.spelling_eq_ok supported surface
  rw [TypeName.spelling_some_eq] at spelled
  split at spelled
  · exact absurd spelled (by simp)
  · rename_i void
    exact .inl ⟨void, (Except.ok.inj spelled).symm⟩
  · rename_i string
    exact .inr (.inl ⟨string, (Except.ok.inj spelled).symm⟩)
  · rename_i primitive
    exact .inr (.inr ⟨primitive, (Except.ok.inj spelled).symm⟩)
  · exact absurd spelled (by simp)

namespace MethodPlan

/-- The positions of a plan are those of the method, the result before the parameters. -/
theorem Settles.positions
    {plan : MethodPlan}
    {names : Names}
    {method : Method}
    (settles : plan.Settles names method) :
    List.Forall₂ (fun type value => ∃ name, PlannedValue.Settles value name type)
      method.types (plan.result :: plan.parameters) := by
  refine .cons ⟨[], settles.result⟩ (List.forall₂_map_left_iff.2 ?_)
  exact settles.parameters.imp fun parameter _ settled => ⟨parameter.name, settled⟩

theorem Settles.map_type_eq
    {plan : MethodPlan}
    {names : Names}
    {method : Method}
    (settles : plan.Settles names method) :
    (plan.result :: plan.parameters).map PlannedValue.type = method.types := by
  have same :=
    map_eq_map_of_forall₂ settles.positions fun _ _ _ ⟨_, settled⟩ => settled.sameType
  rw [same, List.map_id']

/-- The types of a plan have the categories that it says. -/
theorem Settles.category_eq
    {plan : MethodPlan}
    {names : Names}
    {method : Method}
    (settles : plan.Settles names method)
    {value : PlannedValue}
    (member : value ∈ plan.result :: plan.parameters) :
    value.type.category = .ok value.category := by
  obtain ⟨type, -, name, settled⟩ := exists_of_mem_right settles.positions member
  rw [settled.sameType]
  exact settled.classified

/-- The types recorded are those of the values that cannot be passed. -/
theorem mem_unsupported_iff (plan : MethodPlan) (type : TypeName) :
    type ∈ plan.unsupported ↔
      ∃ value ∈ plan.result :: plan.parameters,
        value.isSupported = false ∧ value.type = type := by
  rw [plan.unsupported_eq, List.mem_map]
  simp only [List.mem_filter, Bool.not_eq_true', and_assoc]

theorem isSupported_eq_all (plan : MethodPlan) :
    plan.isSupported = (plan.result :: plan.parameters).all PlannedValue.isSupported := by
  rw [isSupported, unsupported_eq, Bool.eq_iff_iff, List.isEmpty_iff, List.map_eq_nil_iff,
    List.filter_eq_nil_iff, List.all_eq_true]
  simp

theorem all_isSupported_eq
    {parameters : List Field}
    {values : List PlannedValue}
    (settles : PlannedValue.SettlesAll parameters values) :
    values.all PlannedValue.isSupported =
      !(parameters.any fun parameter =>
        parameter.type.category.toOption == some .aggregate) := by
  induction settles with
  | nil => rfl
  | cons head tail induction =>
      rw [List.all_cons, List.any_cons, Bool.not_or, head.isSupported_eq, induction]

theorem mapM_spelling_eq_ok
    {parameters : List Field}
    {values : List PlannedValue}
    (settles : PlannedValue.SettlesAll parameters values)
    (supported : values.all PlannedValue.isSupported = true)
    (surface : Surface) :
    parameters.mapM (fun parameter => parameter.type.spelling (some surface)) =
      .ok (values.map fun value => value.spellings.on surface) := by
  rw [mapM_eq_ok_iff]
  induction settles with
  | nil => exact List.Forall₂.nil
  | cons head tail induction =>
      rw [List.all_cons, Bool.and_eq_true] at supported
      exact List.Forall₂.cons (head.spelling_eq_ok supported.1 surface) (induction supported.2)

theorem map_name_eq
    {parameters : List Field}
    {values : List PlannedValue}
    (settles : PlannedValue.SettlesAll parameters values) :
    values.map PlannedValue.name = parameters.map Field.name := by
  induction settles with
  | nil => rfl
  | cons head tail induction => rw [List.map_cons, List.map_cons, head.sameName, induction]

/-- A method can be called exactly when none of its positions is an aggregate. -/
theorem Settles.isSupported_eq
    {plan : MethodPlan}
    {names : Names}
    {method : Method}
    (settles : plan.Settles names method) :
    plan.isSupported = !method.hasAggregate := by
  rw [isSupported_eq_all, List.all_cons, settles.result.isSupported_eq,
    all_isSupported_eq settles.parameters, Method.hasAggregate, Method.types, List.any_cons,
    List.any_map, Bool.not_or]
  rfl

end MethodPlan

end UnoBindgen
