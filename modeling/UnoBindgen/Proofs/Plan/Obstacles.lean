import Mathlib
import UnoBindgen.Proofs.Emission.Outcome

/-!
# What stands in the way of a plan

A method is planned position by position: its result, and then its parameters in order.  A
parameter is compared with the names before it, then its type is looked up, and then it is refused
if it has no values.  `Method.StopsAt` says which obstacle is met first, from the positions before
it alone, and does not follow the loop that looks for it.

The main theorem states that a method is planned exactly when it meets no obstacle, that the plan is
then the one that its names and types settle, and that planning otherwise fails with the report of
the first obstacle.
-/

namespace UnoBindgen

/-! ## Obstacles -/

/-- What can rule out the plan of a method. -/
inductive Obstacle where
  | unknownResult (type : TypeName)
  | repeatedName (parameter : Field)
  | unknownType (parameter : Field)
  | voidType (parameter : Field)
  deriving DecidableEq, Repr

namespace Obstacle

/-- What callers can tell about an obstacle. -/
def condition : Obstacle → Condition
  | .unknownResult _ => .unknownType
  | .repeatedName _ => .invalidSchema
  | .unknownType _ => .unknownType
  | .voidType _ => .invalidSchema

/-- The fault that names an obstacle of the method with this qualified name. -/
def report (qualified : Text) : Obstacle → Fault
  | .unknownResult type => .within ("return type of " ++ qualified) type.unknownFault
  | .repeatedName parameter =>
    .invalidSchema (qualified ++ " has duplicate parameter " ++ parameter.name.quote)
  | .unknownType parameter =>
    .within ("parameter " ++ parameter.name ++ " of " ++ qualified) parameter.type.unknownFault
  | .voidType parameter =>
    .invalidSchema ("parameter " ++ parameter.name ++ " of " ++ qualified ++ " cannot be void")

theorem carriesOnly_report
    (qualified : Text)
    (obstacle : Obstacle) :
    (obstacle.report qualified).CarriesOnly obstacle.condition := by
  cases obstacle with
  | unknownResult type => exact type.carriesOnly_unknownFault.within _
  | repeatedName parameter => exact .invalidSchema _
  | unknownType parameter => exact parameter.type.carriesOnly_unknownFault.within _
  | voidType parameter => exact .invalidSchema _

end Obstacle

/-- A type that a parameter may have: it is known, and it has values. -/
def TypeName.IsPassable (type : TypeName) : Prop :=
  ∃ category, type.category = .ok category ∧ category ≠ .void

/-- The methods that can be planned. -/
structure Method.IsPlannable (method : Method) : Prop where
  result : ∃ category, method.returns.category = .ok category
  distinct : (method.parameters.map Field.name).Nodup
  passable : ∀ parameter ∈ method.parameters, parameter.type.IsPassable

/-- What is wrong with a parameter behind some taken names: its name is looked at before its type,
and an unknown type is not void. -/
inductive Field.Meets (parameter : Field) (taken : List Text) : Obstacle → Prop where
  | repeatedName
      (repeated : parameter.name ∈ taken) :
      Meets parameter taken (.repeatedName parameter)
  | unknownType
      (fresh : parameter.name ∉ taken)
      (unknown : parameter.type.isUnknown = true) :
      Meets parameter taken (.unknownType parameter)
  | voidType
      (fresh : parameter.name ∉ taken)
      (void : parameter.type.category = .ok .void) :
      Meets parameter taken (.voidType parameter)

/-- The first obstacle of a method: an unknown result, or what is wrong with a parameter when the
method could be planned with the parameters before it. -/
inductive Method.StopsAt (method : Method) : Obstacle → Prop where
  | result
      (unknown : method.returns.isUnknown = true) :
      StopsAt method (.unknownResult method.returns)
  | parameter
      {before after : List Field}
      {parameter : Field}
      {obstacle : Obstacle}
      (split : method.parameters = before ++ parameter :: after)
      (plannable : Method.IsPlannable { method with parameters := before })
      (met : parameter.Meets (before.map Field.name) obstacle) :
      StopsAt method obstacle

/-! ## One parameter -/

/-- A parameter meets an obstacle or can be planned. -/
theorem Field.meets_or_isPassable
    (parameter : Field)
    (taken : List Text) :
    (∃ obstacle, parameter.Meets taken obstacle) ∨
      (parameter.name ∉ taken ∧ parameter.type.IsPassable) := by
  by_cases repeated : parameter.name ∈ taken
  · exact .inl ⟨_, .repeatedName repeated⟩
  · cases unknown : parameter.type.isUnknown with
    | true => exact .inl ⟨_, .unknownType repeated unknown⟩
    | false =>
        obtain ⟨category, classified⟩ := TypeName.exists_category_of_not_isUnknown unknown
        by_cases void : category = .void
        · exact .inl ⟨_, .voidType repeated (void ▸ classified)⟩
        · exact .inr ⟨repeated, category, classified, void⟩

/-- A parameter that meets an obstacle cannot be planned. -/
theorem Field.Meets.not_isPassable
    {parameter : Field}
    {taken : List Text}
    {obstacle : Obstacle}
    (met : parameter.Meets taken obstacle)
    (fresh : parameter.name ∉ taken) :
    ¬ parameter.type.IsPassable := by
  rintro ⟨category, classified, notVoid⟩
  cases met with
  | repeatedName repeated => exact fresh repeated
  | unknownType _ unknown =>
      rw [TypeName.category_of_isUnknown unknown] at classified
      exact absurd classified (by simp)
  | voidType _ void => exact notVoid (Except.ok.inj (classified.symm.trans void))

/-- Only the set of the taken names matters. -/
theorem Field.Meets.congr
    {parameter : Field}
    {taken others : List Text}
    {obstacle : Obstacle}
    (met : parameter.Meets taken obstacle)
    (same : ∀ name, name ∈ taken ↔ name ∈ others) :
    parameter.Meets others obstacle := by
  cases met with
  | repeatedName repeated => exact .repeatedName ((same _).1 repeated)
  | unknownType fresh unknown => exact .unknownType (fresh ∘ (same _).2) unknown
  | voidType fresh void => exact .voidType (fresh ∘ (same _).2) void

namespace MethodPlan

/-- Planning stops at a parameter that meets an obstacle. -/
theorem planParameters_cons_of_meets
    (plan : MethodPlan)
    {earlier : List Text}
    {parameter : Field}
    {obstacle : Obstacle}
    (met : parameter.Meets earlier obstacle)
    (rest : List Field) :
    plan.planParameters earlier (parameter :: rest) =
      .error (obstacle.report plan.qualified) := by
  cases met with
  | repeatedName repeated => exact if_pos repeated
  | unknownType fresh unknown =>
      have known := TypeName.category_of_isUnknown unknown
      have continued : plan.planParameters earlier (parameter :: rest) = _ := if_neg fresh
      rw [continued, PlannedValue.plan_of_unknown parameter.name known]
      rfl
  | voidType fresh void =>
      obtain ⟨value, planned, category⟩ :=
        PlannedValue.exists_plan_of_category parameter.name void
      have continued : plan.planParameters earlier (parameter :: rest) = _ := if_neg fresh
      rw [continued, planned]
      simp only [category, if_true]
      rfl

/-- Planning goes on behind any other parameter. -/
theorem exists_planParameters_cons_eq
    (plan : MethodPlan)
    {earlier : List Text}
    {parameter : Field}
    (fresh : parameter.name ∉ earlier)
    (passable : parameter.type.IsPassable)
    (rest : List Field) :
    ∃ value,
      plan.planParameters earlier (parameter :: rest) =
        (plan.withParameter value).planParameters (parameter.name :: earlier) rest := by
  obtain ⟨category, classified, notVoid⟩ := passable
  obtain ⟨value, planned, same⟩ :=
    PlannedValue.exists_plan_of_category parameter.name classified
  have continued : plan.planParameters earlier (parameter :: rest) = _ := if_neg fresh
  refine ⟨value, ?_⟩
  rw [continued, planned]
  simp only [same, if_neg notVoid]

/-! ## All parameters -/

/-- Parameters that can be planned behind the `earlier` names. -/
structure CanFollow (earlier : List Text) (parameters : List Field) : Prop where
  distinct : (parameters.map Field.name).Nodup
  fresh : ∀ parameter ∈ parameters, parameter.name ∉ earlier
  passable : ∀ parameter ∈ parameters, parameter.type.IsPassable

theorem canFollow_nil (earlier : List Text) : CanFollow earlier [] :=
  ⟨List.nodup_nil, by simp, by simp⟩

theorem canFollow_cons_iff
    (earlier : List Text)
    (parameter : Field)
    (rest : List Field) :
    CanFollow earlier (parameter :: rest) ↔
      (parameter.name ∉ earlier ∧ parameter.type.IsPassable) ∧
        CanFollow (parameter.name :: earlier) rest := by
  constructor
  · rintro ⟨distinct, fresh, passable⟩
    rw [List.map_cons, List.nodup_cons] at distinct
    rw [List.forall_mem_cons] at fresh passable
    refine ⟨⟨fresh.1, passable.1⟩, distinct.2, fun other member => ?_, passable.2⟩
    rw [List.mem_cons, not_or]
    exact ⟨fun same => distinct.1 (List.mem_map.2 ⟨other, member, same⟩), fresh.2 other member⟩
  · rintro ⟨⟨fresh, passable⟩, others⟩
    refine ⟨?_, ?_, List.forall_mem_cons.2 ⟨passable, others.passable⟩⟩
    · rw [List.map_cons, List.nodup_cons]
      refine ⟨fun again => ?_, others.distinct⟩
      obtain ⟨other, member, same⟩ := List.mem_map.1 again
      exact others.fresh other member (same ▸ List.mem_cons_self)
    · rw [List.forall_mem_cons]
      exact ⟨fresh, fun other member earlierName =>
        others.fresh other member (List.mem_cons_of_mem _ earlierName)⟩

/-- Planning parameters fails with the report of the first obstacle, and in no other way. -/
theorem planParameters_eq_error_iff
    (plan : MethodPlan)
    (earlier : List Text)
    (parameters : List Field)
    (fault : Fault) :
    plan.planParameters earlier parameters = .error fault ↔
      ∃ before parameter after obstacle,
        parameters = before ++ parameter :: after ∧
          CanFollow earlier before ∧
          parameter.Meets (before.map Field.name ++ earlier) obstacle ∧
          fault = obstacle.report plan.qualified := by
  induction parameters generalizing plan earlier with
  | nil => simp [planParameters_nil]
  | cons first rest induction =>
      rcases first.meets_or_isPassable earlier with ⟨obstacle, met⟩ | ⟨fresh, passable⟩
      · rw [planParameters_cons_of_meets plan met]
        constructor
        · intro failed
          exact ⟨[], first, rest, obstacle, rfl, canFollow_nil earlier, met,
            (Except.error.inj failed).symm⟩
        · -- The first parameter is no part of the ones before the obstacle.
          rintro ⟨before, parameter, after, other, split, follows, otherMet, rfl⟩
          cases before with
          | nil =>
              obtain ⟨rfl, -⟩ := List.cons.inj split
              rw [← planParameters_cons_of_meets plan met rest]
              exact planParameters_cons_of_meets plan otherMet rest
          | cons head tail =>
              obtain ⟨rfl, -⟩ := List.cons.inj split
              have passes := ((canFollow_cons_iff _ _ _).1 follows).1
              exact (met.not_isPassable passes.1 passes.2).elim
      · obtain ⟨value, continued⟩ := plan.exists_planParameters_cons_eq fresh passable rest
        have sameQualified : (plan.withParameter value).qualified = plan.qualified := rfl
        rw [continued, induction, sameQualified]
        have sameNames (before : List Field) (name : Text) :
            name ∈ before.map Field.name ++ first.name :: earlier ↔
              name ∈ (first :: before).map Field.name ++ earlier := by
          simp [or_left_comm]
        constructor
        · rintro ⟨before, parameter, after, obstacle, rfl, follows, met, rfl⟩
          exact ⟨first :: before, parameter, after, obstacle, rfl,
            (canFollow_cons_iff _ _ _).2 ⟨⟨fresh, passable⟩, follows⟩,
            met.congr (sameNames before), rfl⟩
        · rintro ⟨before, parameter, after, obstacle, split, follows, met, rfl⟩
          cases before with
          | nil =>
              obtain ⟨rfl, -⟩ := List.cons.inj split
              exact (met.not_isPassable (by simpa using fresh) passable).elim
          | cons head tail =>
              obtain ⟨rfl, rfl⟩ := List.cons.inj split
              exact ⟨tail, parameter, after, obstacle, rfl,
                ((canFollow_cons_iff _ _ _).1 follows).2,
                met.congr fun name => (sameNames tail name).symm, rfl⟩

/-- Parameters can be planned exactly when they can follow the earlier names. -/
theorem exists_planParameters_iff
    (plan : MethodPlan)
    (earlier : List Text)
    (parameters : List Field) :
    (∃ after, plan.planParameters earlier parameters = .ok after) ↔
      CanFollow earlier parameters := by
  induction parameters generalizing plan earlier with
  | nil => exact iff_of_true ⟨plan, rfl⟩ (canFollow_nil earlier)
  | cons parameter rest induction =>
      rw [canFollow_cons_iff]
      constructor
      · rintro ⟨after, planned⟩
        obtain ⟨fresh, value, valuePlanned, notVoid, othersPlanned⟩ :=
          (planParameters_cons_eq_ok_iff _ _ _ _ _).1 planned
        have classified := (PlannedValue.settles_of_plan valuePlanned).classified
        exact ⟨⟨fresh, value.category, classified, notVoid⟩,
          (induction _ _).1 ⟨after, othersPlanned⟩⟩
      · rintro ⟨⟨fresh, passable⟩, others⟩
        obtain ⟨value, continued⟩ := plan.exists_planParameters_cons_eq fresh passable rest
        rw [continued]
        exact (induction _ _).2 others

theorem canFollow_nothing_iff
    {method : Method}
    (known : ∃ category, method.returns.category = .ok category)
    (parameters : List Field) :
    CanFollow [] parameters ↔
      Method.IsPlannable { method with parameters := parameters } := by
  constructor
  · intro follows
    exact ⟨known, follows.distinct, follows.passable⟩
  · intro plannable
    exact ⟨plannable.distinct, fun _ _ => List.not_mem_nil, plannable.passable⟩

/-! ## Methods -/

/-- A method is planned exactly when it can be. -/
theorem exists_ofMethod_iff
    (names : Names)
    (method : Method) :
    (∃ plan, ofMethod names method = .ok plan) ↔ method.IsPlannable := by
  cases classified : method.returns.category with
  | error fault =>
      have refused : ¬ method.IsPlannable := by
        rintro ⟨⟨category, known⟩, -, -⟩
        rw [classified] at known
        exact absurd known (by simp)
      simp [ofMethod, PlannedValue.plan_of_unknown [] classified, refused]
  | ok category =>
      obtain ⟨result, planned, -⟩ := PlannedValue.exists_plan_of_category [] classified
      rw [← canFollow_nothing_iff ⟨category, classified⟩ method.parameters]
      simp only [ofMethod, planned]
      exact exists_planParameters_iff _ [] method.parameters

/-- Planning a method fails with the report of its first obstacle, and in no other way. -/
theorem ofMethod_eq_error_iff
    (names : Names)
    (method : Method)
    (fault : Fault) :
    ofMethod names method = .error fault ↔
      ∃ obstacle,
        method.StopsAt obstacle ∧
          fault = obstacle.report (names.qualifiedMethod method.name) := by
  cases classified : method.returns.category with
  | error reason =>
      have unknown : method.returns.isUnknown = true := by
        by_contra known
        obtain ⟨category, found⟩ :=
          TypeName.exists_category_of_not_isUnknown (Bool.eq_false_iff.2 known)
        rw [classified] at found
        exact absurd found (by simp)
      simp only [ofMethod, PlannedValue.plan_of_unknown [] classified, Except.error.injEq]
      constructor
      · rintro rfl
        exact ⟨_, .result unknown, rfl⟩
      · rintro ⟨obstacle, stops, rfl⟩
        cases stops with
        | result _ => rfl
        | parameter split plannable met =>
            obtain ⟨category, known⟩ := plannable.result
            rw [classified] at known
            exact absurd known (by simp)
  | ok category =>
      obtain ⟨result, planned, -⟩ := PlannedValue.exists_plan_of_category [] classified
      have sameQualified :
          (start names method.name result).qualified = names.qualifiedMethod method.name := rfl
      simp only [ofMethod, planned]
      rw [planParameters_eq_error_iff, sameQualified]
      constructor
      · rintro ⟨before, parameter, after, obstacle, split, follows, met, rfl⟩
        rw [List.append_nil] at met
        exact ⟨obstacle,
          .parameter split ((canFollow_nothing_iff ⟨category, classified⟩ before).1 follows) met,
          rfl⟩
      · rintro ⟨obstacle, stops, rfl⟩
        cases stops with
        | result unknown =>
            rw [TypeName.category_of_isUnknown unknown] at classified
            exact absurd classified (by simp)
        | @parameter before after parameter _ split plannable met =>
            refine ⟨before, parameter, after, obstacle, split,
              (canFollow_nothing_iff ⟨category, classified⟩ before).2 plannable, ?_, rfl⟩
            rwa [List.append_nil]

end MethodPlan

/-! ## Plans are settled by their method -/

theorem Spellings.eq_of_on
    {left right : Spellings}
    (same : ∀ surface, left.on surface = right.on surface) :
    left = right := by
  cases left
  cases right
  simp only [Spellings.mk.injEq]
  exact ⟨same .declaration, same .marshal, same .foreign, same .wrapper⟩

/-- A name and a type leave no choice to a planned value. -/
theorem PlannedValue.Settles.unique
    {left right : PlannedValue}
    {name : Text}
    {type : TypeName}
    (leftSettles : left.Settles name type)
    (rightSettles : right.Settles name type) :
    left = right := by
  have sameCategory : left.category = right.category :=
    Except.ok.inj (leftSettles.classified.symm.trans rightSettles.classified)
  have sameSpellings : left.spellings = right.spellings := by
    by_cases aggregate : left.category = .aggregate
    · rw [leftSettles.unspelled aggregate, rightSettles.unspelled (sameCategory ▸ aggregate)]
    · apply Spellings.eq_of_on
      intro surface
      have spelled := leftSettles.spelled aggregate surface
      rw [rightSettles.spelled (sameCategory ▸ aggregate) surface] at spelled
      exact (Except.ok.inj spelled).symm
  cases left
  cases right
  simp only [PlannedValue.mk.injEq]
  exact ⟨leftSettles.sameName.trans rightSettles.sameName.symm,
    leftSettles.sameType.trans rightSettles.sameType.symm, sameCategory, sameSpellings⟩

theorem PlannedValue.SettlesAll.unique
    {parameters : List Field}
    {left right : List PlannedValue}
    (leftSettles : SettlesAll parameters left)
    (rightSettles : SettlesAll parameters right) :
    left = right := by
  induction leftSettles generalizing right with
  | nil => exact (List.forall₂_nil_left_iff.1 rightSettles).symm
  | cons head tail induction =>
      obtain ⟨other, others, otherSettles, othersSettle, rfl⟩ :=
        List.forall₂_cons_left_iff.1 rightSettles
      rw [head.unique otherSettles, induction othersSettle]

theorem MethodPlan.Settles.unique
    {left right : MethodPlan}
    {names : Names}
    {method : Method}
    (leftSettles : left.Settles names method)
    (rightSettles : right.Settles names method) :
    left = right := by
  have result := leftSettles.result.unique rightSettles.result
  have parameters := PlannedValue.SettlesAll.unique leftSettles.parameters rightSettles.parameters
  have unsupported : left.unsupported = right.unsupported := by
    rw [left.unsupported_eq, right.unsupported_eq, result, parameters]
  cases left
  cases right
  simp only [MethodPlan.mk.injEq]
  exact ⟨leftSettles.sameNames.trans rightSettles.sameNames.symm,
    leftSettles.sameMethod.trans rightSettles.sameMethod.symm,
    leftSettles.symbol.trans rightSettles.symbol.symm,
    leftSettles.importName.trans rightSettles.importName.symm,
    leftSettles.qualified.trans rightSettles.qualified.symm, result, parameters, unsupported⟩

/-- The aggregate types of a method, the result before the parameters. -/
def Method.aggregateTypes (method : Method) : List TypeName :=
  method.types.filter fun type => type.category.toOption == some .aggregate

theorem MethodPlan.Settles.unsupported_eq
    {plan : MethodPlan}
    {names : Names}
    {method : Method}
    (settles : plan.Settles names method) :
    plan.unsupported = method.aggregateTypes := by
  have sameTest :
      ∀ value ∈ plan.result :: plan.parameters,
        (!value.isSupported) =
          ((fun type : TypeName => type.category.toOption == some .aggregate) ∘
            PlannedValue.type) value := by
    intro value member
    obtain ⟨type, -, name, settled⟩ := exists_of_mem_right settles.positions member
    rw [settled.isSupported_eq, Bool.not_not, Function.comp_apply, settled.sameType]
  rw [plan.unsupported_eq, List.filter_congr sameTest, ← List.filter_map, settles.map_type_eq]
  rfl

/--
A method is planned exactly when its result is known, its parameters have different names and all
of their types are known and not void.  The plan is then the one and only that its names and types
settle, and it lists the aggregate types of the method in order.  Planning fails exactly with the
report of the first obstacle, which carries the condition of that obstacle and no other.
-/
theorem MethodPlan.ofMethod_exactly
    (names : Names)
    (method : Method) :
    ((∃ plan, ofMethod names method = .ok plan) ↔ method.IsPlannable) ∧
      (∀ plan,
        ofMethod names method = .ok plan ↔ method.IsPlannable ∧ plan.Settles names method) ∧
      (∀ plan,
        ofMethod names method = .ok plan →
          plan.parameters.map (fun value => (value.name, value.type)) =
              method.parameters.map (fun parameter => (parameter.name, parameter.type)) ∧
            plan.unsupported = method.aggregateTypes ∧
            (plan.isSupported = true ↔ method.aggregateTypes = [])) ∧
      (∀ fault,
        ofMethod names method = .error fault ↔
          ∃ obstacle,
            method.StopsAt obstacle ∧
              fault = obstacle.report (names.qualifiedMethod method.name)) ∧
      ∀ obstacle : Obstacle,
        (obstacle.report (names.qualifiedMethod method.name)).CarriesOnly
          obstacle.condition := by
  refine ⟨exists_ofMethod_iff names method, fun plan => ⟨fun planned => ?_, ?_⟩, ?_,
    ofMethod_eq_error_iff names method, Obstacle.carriesOnly_report _⟩
  · exact ⟨(exists_ofMethod_iff names method).1 ⟨plan, planned⟩, settles_of_ofMethod planned⟩
  · rintro ⟨plannable, settles⟩
    obtain ⟨other, planned⟩ := (exists_ofMethod_iff names method).2 plannable
    rw [planned, settles.unique (settles_of_ofMethod planned)]
  · intro plan planned
    have settles := settles_of_ofMethod planned
    refine ⟨?_, settles.unsupported_eq, ?_⟩
    · exact map_eq_map_of_forall₂ settles.parameters fun value _ parameter settled => by
        rw [settled.sameName, settled.sameType]
    · rw [isSupported, settles.unsupported_eq, List.isEmpty_iff]

end UnoBindgen
