import UnoBindgen.Proofs.Emission.Delivery
import UnoBindgen.Proofs.Emission.ForeignInterface
import UnoBindgen.Proofs.Naming.Scopes

/-!
# What the texts of an entity are rendered from

The three kinds of entities that can be bound are rendered from different parts: the plans of the
methods, the plans of the accessors, or the names of the base.  `Parts` covers them all, and
`exists_parts_of_compose` says once what a composition did.  Statements about the generated Haskell
module then speak of the parts that it was rendered from, one case for each kind.
-/

namespace UnoBindgen

/-! ## Plans of accessors -/

/-- Whether the type of a member is primitive. -/
def Field.isPrimitive (member : Field) : Bool :=
  member.type.category.toOption == some .primitive

theorem Field.isPrimitive_eq
    {member : Field}
    {category : Category}
    (classified : member.type.category = .ok category) :
    member.isPrimitive = decide (category = .primitive) := by
  rw [isPrimitive, classified]
  cases category <;> rfl

namespace GetterPlan

/-- A plan is that of the accessor of a primitive member, in the exception with these names. -/
structure Settles
    (plan : GetterPlan)
    (names : Names)
    (member : Field) : Prop where
  sameNames : plan.names = names
  function : plan.function = Names.getterFunction member.name
  importName : plan.importName = Names.importName (Names.getterFunction member.name)
  value : plan.value.Settles member.name member.type
  primitive : plan.value.category = .primitive

theorem settles_of_ofMember
    {names : Names}
    {member : Field}
    {plan : GetterPlan}
    (planned : ofMember names member = .ok plan) :
    plan.Settles names member := by
  simp only [ofMember] at planned
  split at planned
  · exact absurd planned (by simp)
  · rename_i value valuePlanned
    split at planned
    · rename_i primitive
      rw [← Except.ok.inj planned]
      exact
        { sameNames := rfl
          function := rfl
          importName := rfl
          value := PlannedValue.settles_of_plan valuePlanned
          primitive := primitive }
    · exact absurd planned (by simp)

end GetterPlan

namespace Emission

/-- Members are planned when all of their types are known; each primitive one has an accessor, in
order, and the others leave nothing. -/
theorem planGetters_eq_ok_iff
    (names : Names)
    (members : List Field)
    (plans : List GetterPlan) :
    planGetters names members = .ok plans ↔
      (∀ member ∈ members, ∃ category, member.type.category = .ok category) ∧
        List.Forall₂ (fun member plan => GetterPlan.ofMember names member = .ok plan)
          (members.filter Field.isPrimitive) plans := by
  induction members generalizing plans with
  | nil => simp [planGetters, eq_comm]
  | cons member rest induction =>
      rw [planGetters, List.forall_mem_cons]
      cases classified : member.type.category with
      | error fault => simp
      | ok category =>
          have isPrimitive := Field.isPrimitive_eq classified
          by_cases primitive : category = .primitive
          · subst primitive
            rw [List.filter_cons_of_pos isPrimitive, List.forall₂_cons_left_iff]
            simp only [bind_eq_ok_iff, induction]
            constructor
            · rintro ⟨plan, memberPlanned, others, ⟨known, othersPlanned⟩, done⟩
              exact ⟨⟨⟨.primitive, rfl⟩, known⟩, plan, others, memberPlanned, othersPlanned,
                (Except.ok.inj done).symm⟩
            · rintro ⟨⟨-, known⟩, plan, others, memberPlanned, othersPlanned, rfl⟩
              exact ⟨plan, memberPlanned, others, ⟨known, othersPlanned⟩, rfl⟩
          · rw [List.filter_cons_of_neg (by simp [isPrimitive, primitive])]
            simp [induction]

/-- There is one accessor for each primitive member, in order. -/
theorem settles_of_planGetters
    {names : Names}
    {members : List Field}
    {plans : List GetterPlan}
    (planned : planGetters names members = .ok plans) :
    List.Forall₂ (fun member plan => GetterPlan.Settles plan names member)
      (members.filter fun member => member.type.category.toOption == some .primitive) plans :=
  ((planGetters_eq_ok_iff names members plans).1 planned).2.imp fun _ _ =>
    GetterPlan.settles_of_ofMember

/-! ## Parts -/

/-- What the texts of an entity are rendered from, besides its own names. -/
inductive Parts where
  | methods (plans : List MethodPlan)
  | getters (plans : List GetterPlan)
  | base (names : Names)

/-- The texts that the parts are rendered to. -/
def Parts.texts (options : NamingOptions) (names : Names) : Parts → Texts
  | .methods plans => interfaceTexts names plans
  | .getters plans => exceptionTexts names plans
  | .base ofBase => singletonTexts names ofBase options.nativeContext

/-- The types and classes that a Haskell module declares. -/
def Parts.types (names : Names) : Parts → List Text
  | .methods _ => [names.foreignType]
  | .getters _ => [names.foreignType, Binding.objectType names]
  | .base _ => [names.foreignType]

/-- The names of an entity that is only known by its dotted name. -/
def dottedNames (options : NamingOptions) (dotted : Text) : Names :=
  Names.derive options (ModulePath.parent ⟨dotted.splitAt '.'⟩)
    (ModulePath.lastName ⟨dotted.splitAt '.'⟩)

/-- The parts of an entity. -/
inductive Parts.IsPlanned (context : Context) (entity : Entity) : Parts → Prop where
  | methods
      {plans : List MethodPlan}
      (interface : entity.tag = .known .interface)
      (planned :
        (entity.methods?.getD []).mapM
          (MethodPlan.ofMethod (Names.ofEntity context.options entity)) = .ok plans) :
      IsPlanned context entity (.methods plans)
  | getters
      {plans : List GetterPlan}
      (exception : entity.tag = .known .exception)
      (planned :
        planGetters (Names.ofEntity context.options entity) (entity.members?.getD []) =
          .ok plans) :
      IsPlanned context entity (.getters plans)
  | base
      {base : Text}
      (singleton : entity.tag = .known .interfaceSingleton)
      (named : entity.base? = some base)
      (qualified : isQualifiedIdentifier base = true) :
      IsPlanned context entity (.base (dottedNames context.options base))

theorem exists_parts_of_composeRaw
    {context : Context}
    {entity : Entity}
    (checked : entity.check = .ok ())
    {raw : Texts}
    (composed : composeRaw context entity = .ok raw) :
    ∃ parts : Parts,
      parts.IsPlanned context entity ∧
        raw = parts.texts context.options (Names.ofEntity context.options entity) := by
  obtain ⟨-, kind, tag, -⟩ :=
    (Entity.fault?_eq_none_iff entity).1 ((Entity.check_eq_ok_iff entity).1 checked)
  simp only [composeRaw, tag] at composed
  cases kind with
  | interface =>
      simp only [mapError_eq_ok_iff, composeInterface_eq_ok_iff] at composed
      obtain ⟨plans, planned, rendered⟩ := composed
      exact ⟨.methods plans, .methods tag planned, rendered⟩
  | exception =>
      simp only [mapError_eq_ok_iff, composeException_eq_ok_iff] at composed
      obtain ⟨plans, planned, rendered⟩ := composed
      exact ⟨.getters plans, .getters tag planned, rendered⟩
  | interfaceSingleton =>
      obtain ⟨base, named, qualified⟩ := Entity.exists_base checked tag
      simp only [mapError_eq_ok_iff, composeSingleton_eq_ok_iff context named qualified]
        at composed
      exact ⟨.base (dottedNames context.options base), .base tag named qualified, composed.2⟩
  | serviceSingleton => exact absurd composed (by simp)

/-- Composing an entity checks it, plans its parts and tidies each of the rendered texts. -/
theorem exists_parts_get_of_compose
    {context : Context}
    {entity : Entity}
    {texts : Texts}
    (composed : compose context entity = .ok texts) :
    entity.check = .ok () ∧
      ∃ parts : Parts,
        parts.IsPlanned context entity ∧
          ∀ artifact,
            texts.get artifact =
              tidyEnd
                ((parts.texts context.options (Names.ofEntity context.options entity)).get
                  artifact) := by
  rw [compose] at composed
  obtain ⟨⟨⟩, checked, composed⟩ := (bind_eq_ok_iff _ _ _).1 composed
  obtain ⟨raw, rawComposed, done⟩ := (bind_eq_ok_iff _ _ _).1 composed
  obtain ⟨parts, planned, rfl⟩ := exists_parts_of_composeRaw checked rawComposed
  rw [← Except.ok.inj done]
  exact ⟨checked, parts, planned, fun artifact => by cases artifact <;> rfl⟩

theorem exists_parts_of_compose
    {context : Context}
    {entity : Entity}
    {texts : Texts}
    (composed : compose context entity = .ok texts) :
    entity.check = .ok () ∧
      ∃ parts : Parts,
        parts.IsPlanned context entity ∧
          texts.binding =
            tidyEnd
              (parts.texts context.options (Names.ofEntity context.options entity)).binding := by
  obtain ⟨checked, parts, planned, tidied⟩ := exists_parts_get_of_compose composed
  exact ⟨checked, parts, planned, tidied .binding⟩

end Emission

end UnoBindgen
