import Mathlib
import UnoBindgen.OutputTree
import UnoBindgen.Proofs.Emission.Delivery
import UnoBindgen.Proofs.Generation.Separation

/-!
# The outcome of an emission

An entity is either composed or refused, and which of the two happens is decided by its
description and the registry alone.  An interface is refused at its first flawed position, where
the positions are the results and parameters of its methods in order.  An exception is refused
when some member has an unknown type, and a singleton when its base is registered as something
else than an interface.

The main theorem states this for every context and entity, together with what cannot happen: a
composed entity always has something to place, the accessor of a primitive member can always be
planned, and no refusal reports a broken promise of the program.
-/

namespace UnoBindgen

/-! ## Types -/

namespace TypeName

/-- Whether a type name names no type. -/
def isUnknown (type : TypeName) : Bool :=
  (classify type.text).isNone

/-- The fault of a type name that names no type. -/
def unknownFault (type : TypeName) : Fault :=
  .within type.text.quote (.ofCondition .unknownType)

theorem carriesOnly_unknownFault (type : TypeName) :
    type.unknownFault.CarriesOnly .unknownType :=
  (Fault.CarriesOnly.ofCondition .unknownType).within _

theorem eq_unknownFault_of_category
    {type : TypeName}
    {fault : Fault}
    (unknown : type.category = .error fault) :
    fault = type.unknownFault := by
  rw [category] at unknown
  split at unknown
  · exact absurd unknown (by simp)
  · exact (Except.error.inj unknown).symm

theorem category_of_isUnknown
    {type : TypeName}
    (unknown : type.isUnknown = true) :
    type.category = .error type.unknownFault := by
  rw [isUnknown, Option.isNone_iff_eq_none] at unknown
  rw [category, unknown]
  rfl

theorem exists_category_of_not_isUnknown
    {type : TypeName}
    (known : type.isUnknown = false) :
    ∃ category, type.category = .ok category := by
  rw [isUnknown, Option.isNone_eq_false_iff, Option.isSome_iff_exists] at known
  obtain ⟨category, classified⟩ := known
  exact ⟨category, by rw [TypeName.category, classified]⟩

/-- A type is spelled unless it is unknown or an aggregate. -/
theorem carriesOnly_of_spelling
    {type : TypeName}
    {surface : Surface}
    {fault : Fault}
    (failed : type.spelling (some surface) = .error fault) :
    fault.CarriesOnly .unknownType ∨ fault.CarriesOnly .unsupportedType := by
  rw [spelling_some_eq] at failed
  split at failed
  · rename_i unknown
    rw [← Except.error.inj failed, eq_unknownFault_of_category unknown]
    exact .inl type.carriesOnly_unknownFault
  · exact absurd failed (by simp)
  · exact absurd failed (by simp)
  · exact absurd failed (by simp)
  · rw [← Except.error.inj failed]
    exact .inr (.unsupportedType type.text)

end TypeName

/-- A position cannot be planned when its type is unknown. -/
theorem PlannedValue.plan_of_unknown
    (name : Text)
    {type : TypeName}
    {fault : Fault}
    (unknown : type.category = .error fault) :
    plan name type = .error type.unknownFault := by
  rw [plan, unknown, TypeName.eq_unknownFault_of_category unknown]
  rfl

/-! ## The positions of an interface -/

/-- A typed position of an interface: the result of a method, or one of its parameters. -/
inductive Position where
  | result (method : Method)
  | parameter (method : Method) (field : Field)
  deriving DecidableEq, Repr

namespace Position

/-- The positions of a method, the result before the parameters. -/
def ofMethod (method : Method) : List Position :=
  .result method :: method.parameters.map (.parameter method)

/-- The positions of an entity, method by method. -/
def ofEntity (entity : Entity) : List Position :=
  (entity.methods?.getD []).flatMap ofMethod

/-- What is wrong with a position: its type is unknown, or it is a parameter without values. -/
def flaw? : Position → Option Condition
  | .result method =>
    match method.returns.category with
    | .error _ => some .unknownType
    | .ok _ => none
  | .parameter _ field =>
    match field.type.category with
    | .error _ => some .unknownType
    | .ok .void => some .invalidSchema
    | .ok _ => none

/-- The first flawed position in a list. -/
def firstFlawed? (positions : List Position) : Option Position :=
  positions.find? fun position => position.flaw?.isSome

/-- The fault that names a flawed position. -/
def report (names : Names) : Position → Fault
  | .result method =>
    .within ("return type of " ++ names.qualifiedMethod method.name) method.returns.unknownFault
  | .parameter method field =>
    let described := "parameter " ++ field.name ++ " of " ++ names.qualifiedMethod method.name
    match field.type.category with
    | .error _ => .within described field.type.unknownFault
    | .ok _ => .invalidSchema (described ++ " cannot be void")

theorem flaw?_cases
    {position : Position}
    {condition : Condition}
    (flawed : position.flaw? = some condition) :
    condition = .unknownType ∨ condition = .invalidSchema := by
  cases position with
  | result method =>
      rw [flaw?] at flawed
      split at flawed
      · exact .inl (Option.some.inj flawed).symm
      · exact absurd flawed (by simp)
  | parameter method field =>
      rw [flaw?] at flawed
      split at flawed
      · exact .inl (Option.some.inj flawed).symm
      · exact .inr (Option.some.inj flawed).symm
      · exact absurd flawed (by simp)

theorem carriesOnly_report
    (names : Names)
    {position : Position}
    {condition : Condition}
    (flawed : position.flaw? = some condition) :
    (position.report names).CarriesOnly condition := by
  cases position with
  | result method =>
      rw [flaw?] at flawed
      split at flawed
      · rw [← Option.some.inj flawed]
        exact method.returns.carriesOnly_unknownFault.within _
      · exact absurd flawed (by simp)
  | parameter method field =>
      rw [flaw?] at flawed
      split at flawed
      · rename_i unknown
        simp only [report, unknown]
        rw [← Option.some.inj flawed]
        exact field.type.carriesOnly_unknownFault.within _
      · rename_i void
        simp only [report, void]
        rw [← Option.some.inj flawed]
        exact .invalidSchema _
      · exact absurd flawed (by simp)

end Position

/-! ## Attempts that stop at the first flawed position -/

/-- An attempt that goes through positions in order succeeds when none of them is flawed, and
otherwise reports the first that is. -/
structure SettlesInOrder
    {Value : Type}
    (names : Names)
    (positions : List Position)
    (attempt : Except Fault Value) : Prop where
  succeeds :
    Position.firstFlawed? positions = none → ∃ value, attempt = .ok value
  stops :
    ∀ position,
      Position.firstFlawed? positions = some position → attempt = .error (position.report names)

namespace SettlesInOrder

variable
  {Value Next : Type}
  {names : Names}

theorem nothing (value : Value) : SettlesInOrder names [] (.ok value) where
  succeeds _ := ⟨value, rfl⟩
  stops _ found := absurd found (by simp [Position.firstFlawed?])

/-- An attempt that fails at its first position. -/
theorem flawed
    {position : Position}
    (isFlawed : position.flaw?.isSome = true)
    (rest : List Position)
    {attempt : Except Fault Value}
    (failed : attempt = .error (position.report names)) :
    SettlesInOrder names (position :: rest) attempt := by
  have first : Position.firstFlawed? (position :: rest) = some position :=
    List.find?_cons_of_pos isFlawed
  constructor
  · intro noneFlawed
    rw [first] at noneFlawed
    exact absurd noneFlawed (by simp)
  · intro other found
    rw [first] at found
    rw [failed, Option.some.inj found]

/-- An attempt that gets past its first position. -/
theorem sound
    {position : Position}
    (isSound : position.flaw? = none)
    {rest : List Position}
    {attempt : Except Fault Value}
    (others : SettlesInOrder names rest attempt) :
    SettlesInOrder names (position :: rest) attempt := by
  have later :
      Position.firstFlawed? (position :: rest) = Position.firstFlawed? rest :=
    List.find?_cons_of_neg (by simp [isSound])
  exact ⟨fun noneFlawed => others.succeeds (later ▸ noneFlawed),
    fun found stopped => others.stops found (later ▸ stopped)⟩

/-- Attempts one after the other go through the positions of both. -/
theorem andThen
    {earlier later : List Position}
    {attempt : Except Fault Value}
    (first : SettlesInOrder names earlier attempt)
    {next : Value → Except Fault Next}
    (second : ∀ value, SettlesInOrder names later (next value)) :
    SettlesInOrder names (earlier ++ later) (attempt >>= next) := by
  have appended :
      Position.firstFlawed? (earlier ++ later) =
        (Position.firstFlawed? earlier).or (Position.firstFlawed? later) :=
    List.find?_append
  -- Whether the second attempt is made depends on the positions of the first alone.
  cases stopped : Position.firstFlawed? earlier with
  | none =>
      obtain ⟨value, succeeded⟩ := first.succeeds stopped
      rw [stopped, Option.none_or] at appended
      rw [succeeded]
      exact ⟨fun noneFlawed => (second value).succeeds (appended ▸ noneFlawed),
        fun position found => (second value).stops position (appended ▸ found)⟩
  | some position =>
      rw [stopped, Option.some_or] at appended
      rw [first.stops position stopped]
      constructor
      · intro noneFlawed
        rw [appended] at noneFlawed
        exact absurd noneFlawed (by simp)
      · intro other found
        rw [appended] at found
        rw [Option.some.inj found]
        rfl

/-- What is made of the result does not matter. -/
theorem map
    {positions : List Position}
    {attempt : Except Fault Value}
    (settles : SettlesInOrder names positions attempt)
    (make : Value → Next) :
    SettlesInOrder names positions (attempt >>= fun value => .ok (make value)) := by
  have both := settles.andThen fun value => nothing (make value)
  rwa [List.append_nil] at both

end SettlesInOrder

/-! ## Planning stops at the first flawed position -/

namespace MethodPlan

theorem settlesInOrder_planParameters
    (plan : MethodPlan)
    {names : Names}
    {method : Method}
    (qualified : plan.qualified = names.qualifiedMethod method.name)
    {earlier : List Text}
    {parameters : List Field}
    (fresh : ∀ parameter ∈ parameters, parameter.name ∉ earlier)
    (distinct : (parameters.map Field.name).Nodup) :
    SettlesInOrder names (parameters.map (.parameter method))
      (plan.planParameters earlier parameters) := by
  induction parameters generalizing plan earlier with
  | nil => exact .nothing plan
  | cons parameter rest induction =>
      rw [List.map_cons, List.nodup_cons] at distinct
      have continued : plan.planParameters earlier (parameter :: rest) = _ :=
        if_neg (fresh parameter List.mem_cons_self)
      rw [List.map_cons, continued]
      cases classified : parameter.type.category with
      | error fault =>
          rw [PlannedValue.plan_of_unknown parameter.name classified]
          refine .flawed ?_ _ ?_
          · simp [Position.flaw?, classified]
          · simp [Position.report, classified, qualified]
      | ok category =>
          obtain ⟨value, planned, valueCategory⟩ :=
            PlannedValue.exists_plan_of_category parameter.name classified
          simp only [planned, valueCategory]
          -- A void type is planned like any other, and refused only as a parameter.
          by_cases void : category = .void
          · subst void
            refine .flawed ?_ _ ?_
            · simp [Position.flaw?, classified]
            · simp [Position.report, classified, qualified]
          · have isSound : (Position.parameter method parameter).flaw? = none := by
              cases category with
              | void => exact (void rfl).elim
              | string => simp [Position.flaw?, classified]
              | primitive => simp [Position.flaw?, classified]
              | aggregate => simp [Position.flaw?, classified]
            have stillFresh :
                ∀ other ∈ rest, other.name ∉ parameter.name :: earlier := by
              intro other member
              rw [List.mem_cons, not_or]
              refine ⟨?_, fresh other (List.mem_cons_of_mem parameter member)⟩
              intro same
              exact distinct.1 (List.mem_map.2 ⟨other, member, same⟩)
            rw [if_neg void]
            exact .sound isSound
              (induction (plan.withParameter value) qualified stillFresh distinct.2)

theorem settlesInOrder_ofMethod
    (names : Names)
    {method : Method}
    (distinct : (method.parameters.map Field.name).Nodup) :
    SettlesInOrder names (Position.ofMethod method) (ofMethod names method) := by
  rw [Position.ofMethod]
  cases classified : method.returns.category with
  | error fault =>
      refine .flawed ?_ _ ?_
      · simp [Position.flaw?, classified]
      · simp [ofMethod, PlannedValue.plan_of_unknown [] classified, Position.report]
  | ok category =>
      obtain ⟨result, planned, -⟩ := PlannedValue.exists_plan_of_category [] classified
      refine .sound (by simp [Position.flaw?, classified]) ?_
      simp only [ofMethod, planned]
      exact settlesInOrder_planParameters (start names method.name result) rfl
        (fun _ _ => List.not_mem_nil) distinct

/-- The methods of an interface are planned one after the other. -/
theorem settlesInOrder_mapM
    (names : Names)
    {methods : List Method}
    (distinct : ∀ method ∈ methods, (method.parameters.map Field.name).Nodup) :
    SettlesInOrder names (methods.flatMap Position.ofMethod) (methods.mapM (ofMethod names)) := by
  induction methods with
  | nil => exact .nothing []
  | cons method rest induction =>
      rw [List.flatMap_cons, List.mapM_cons]
      apply (settlesInOrder_ofMethod names (distinct method List.mem_cons_self)).andThen
      intro plan
      have others := induction fun other member => distinct other (List.mem_cons_of_mem _ member)
      exact others.map (plan :: ·)

end MethodPlan

/-- The accessor of a primitive member can be planned. -/
theorem GetterPlan.exists_ofMember
    (names : Names)
    {member : Field}
    (primitive : member.type.category = .ok .primitive) :
    ∃ getter, ofMember names member = .ok getter := by
  obtain ⟨value, planned, category⟩ :=
    PlannedValue.exists_plan_of_category member.name primitive
  simp only [ofMember, planned, category]
  exact ⟨_, rfl⟩

namespace Emission

/-! ## The outcome for each kind -/

/-- The entity is refused, with one condition. -/
def Refused (context : Context) (entity : Entity) (condition : Condition) : Prop :=
  ∃ fault, compose context entity = .error fault ∧ fault.CarriesOnly condition

/-- The entity is composed. -/
def Composed (context : Context) (entity : Entity) : Prop :=
  ∃ texts, compose context entity = .ok texts

theorem Refused.not_composed
    {context : Context}
    {entity : Entity}
    {condition : Condition}
    (refused : Refused context entity condition) :
    ¬ Composed context entity := by
  rintro ⟨texts, composed⟩
  obtain ⟨fault, failed, -⟩ := refused
  rw [failed] at composed
  exact absurd composed (by simp)

section Kinds

variable
  {context : Context}
  {entity : Entity}
  (checked : entity.check = .ok ())
  {attempt : Except Fault Texts}
  (dispatched :
    composeRaw context entity = attempt.mapError (.within ("entity " ++ entity.fullName)))

include checked dispatched

theorem composed_of_attempt
    {raw : Texts}
    (made : attempt = .ok raw) :
    Composed context entity := by
  rw [Composed, compose, checked, dispatched, made]
  exact ⟨_, rfl⟩

theorem compose_of_failed_attempt
    {fault : Fault}
    (failed : attempt = .error fault) :
    compose context entity = .error (.within ("entity " ++ entity.fullName) fault) := by
  rw [compose, checked, dispatched, failed]
  rfl

end Kinds

/-- An interface is refused at its first flawed position, and composed when it has none. -/
theorem compose_of_interface
    (context : Context)
    {entity : Entity}
    (checked : entity.check = .ok ())
    (interface : entity.tag = .known .interface) :
    (Position.firstFlawed? (Position.ofEntity entity) = none → Composed context entity) ∧
      ∀ position,
        Position.firstFlawed? (Position.ofEntity entity) = some position →
          compose context entity =
            .error (.within ("entity " ++ entity.fullName)
              (position.report (Names.ofEntity context.options entity))) := by
  have settles :
      SettlesInOrder (Names.ofEntity context.options entity) (Position.ofEntity entity)
        (composeInterface context entity) :=
    (MethodPlan.settlesInOrder_mapM (Names.ofEntity context.options entity) fun _ member =>
      Entity.nodup_parameters_of_check checked interface member).map _
  have dispatched :
      composeRaw context entity =
        (composeInterface context entity).mapError (.within ("entity " ++ entity.fullName)) := by
    simp only [composeRaw, interface]
  constructor
  · intro noneFlawed
    obtain ⟨raw, made⟩ := settles.succeeds noneFlawed
    exact composed_of_attempt checked dispatched made
  · intro position found
    exact compose_of_failed_attempt checked dispatched (settles.stops position found)

/-- The accessors are planned up to the first member whose type is unknown. -/
theorem planGetters_outcome
    (names : Names)
    (members : List Field) :
    ((members.find? fun member => member.type.isUnknown) = none →
        ∃ getters, planGetters names members = .ok getters) ∧
      ∀ member,
        (members.find? fun member => member.type.isUnknown) = some member →
          planGetters names members = .error member.type.unknownFault := by
  induction members with
  | nil => exact ⟨fun _ => ⟨[], rfl⟩, fun _ found => absurd found (by simp)⟩
  | cons member rest induction =>
      rw [planGetters]
      cases unknown : member.type.isUnknown with
      | true =>
          rw [List.find?_cons, unknown, TypeName.category_of_isUnknown unknown]
          refine ⟨fun noneUnknown => absurd noneUnknown (by simp), fun first found => ?_⟩
          rw [← Option.some.inj found]
      | false =>
          obtain ⟨category, classified⟩ := TypeName.exists_category_of_not_isUnknown unknown
          rw [List.find?_cons, unknown, classified]
          cases category with
          | primitive =>
              obtain ⟨getter, planned⟩ := GetterPlan.exists_ofMember names classified
              simp only [planned]
              constructor
              · intro noneUnknown
                obtain ⟨getters, others⟩ := induction.1 noneUnknown
                rw [others]
                exact ⟨getter :: getters, rfl⟩
              · intro first found
                rw [induction.2 first found]
                rfl
          | void => exact induction
          | string => exact induction
          | aggregate => exact induction

/-- An exception is refused for its first member with an unknown type, and composed when it has
none. -/
theorem compose_of_exception
    (context : Context)
    {entity : Entity}
    (checked : entity.check = .ok ())
    (exception : entity.tag = .known .exception) :
    (((entity.members?.getD []).find? fun member => member.type.isUnknown) = none →
        Composed context entity) ∧
      ∀ member,
        ((entity.members?.getD []).find? fun member => member.type.isUnknown) = some member →
          compose context entity =
            .error (.within ("entity " ++ entity.fullName) member.type.unknownFault) := by
  obtain ⟨succeeds, stops⟩ :=
    planGetters_outcome (Names.ofEntity context.options entity) (entity.members?.getD [])
  have dispatched :
      composeRaw context entity =
        (composeException context entity).mapError (.within ("entity " ++ entity.fullName)) := by
    simp only [composeRaw, exception]
  constructor
  · intro noneUnknown
    obtain ⟨getters, planned⟩ := succeeds noneUnknown
    apply composed_of_attempt checked dispatched
    rw [composeException, planned]
    rfl
  · intro member found
    apply compose_of_failed_attempt checked dispatched
    rw [composeException, stops member found]
    rfl

/-- A singleton whose base is registered as something else than an interface. -/
def HasUnsuitableBase (context : Context) (entity : Entity) : Prop :=
  ∃ base registered,
    entity.base? = some base ∧
      context.registry.find? base = some registered ∧
        registered.tag ≠ .known .interface

/-- A singleton is refused for an unsuitable base, and for nothing else. -/
theorem compose_of_singleton
    (context : Context)
    {entity : Entity}
    (checked : entity.check = .ok ())
    (singleton : entity.tag = .known .interfaceSingleton) :
    (HasUnsuitableBase context entity → Refused context entity .invalidSchema) ∧
      (¬ HasUnsuitableBase context entity → Composed context entity) := by
  obtain ⟨base, named, qualified⟩ := Entity.exists_base checked singleton
  have attempted := composeSingleton_of_base context named qualified
  have dispatched :
      composeRaw context entity =
        (composeSingleton context entity).mapError (.within ("entity " ++ entity.fullName)) := by
    simp only [composeRaw, singleton]
  constructor
  · rintro ⟨other, registered, otherNamed, found, unsuitable⟩
    obtain rfl : base = other := Option.some.inj (named.symm.trans otherNamed)
    simp only [found, Option.map_some, if_neg unsuitable] at attempted
    exact ⟨_, compose_of_failed_attempt checked dispatched attempted,
      (Fault.CarriesOnly.invalidSchema _).within _⟩
  · intro suitable
    cases found : context.registry.find? base with
    | none =>
        simp only [found, Option.map_none] at attempted
        exact composed_of_attempt checked dispatched attempted
    | some registered =>
        have interface : registered.tag = .known .interface := by
          by_contra unsuitable
          exact suitable ⟨base, registered, named, found, unsuitable⟩
        simp only [found, Option.map_some, if_pos interface] at attempted
        exact composed_of_attempt checked dispatched attempted

/-- A service singleton is refused because its kind is not implemented. -/
theorem refused_of_service
    (context : Context)
    {entity : Entity}
    (checked : entity.check = .ok ())
    (service : entity.tag = .known .serviceSingleton) :
    Refused context entity .notImplemented := by
  refine ⟨.hinted "only interface-based singletons can be bound"
    (.within ("service-based singleton " ++ entity.fullName) (.ofCondition .notImplemented)), ?_,
    ((Fault.CarriesOnly.ofCondition .notImplemented).within _).hinted _⟩
  simp only [compose, checked, composeRaw, service]
  rfl

/-- When all sinks accept, they hold exactly what was composed. -/
theorem emitInto_accepting
    (context : Context)
    (entity : Entity) :
    emitInto context entity (fun _ => .accepting) =
      match compose context entity with
      | .error fault => (.none, some fault)
      | .ok texts => (texts, none) := by
  rw [emitInto]
  cases compose context entity with
  | error fault => rfl
  | ok texts => rfl

end Emission

/-! ## Placing what was composed -/

namespace OutputTree.State

/-- A file that cannot be brought to its content is reported with its path. -/
theorem writeFile_ne_assertion
    (state : State)
    (relative content reason : Text) :
    (state.writeFile relative content).2 ≠ some (.assertion reason) := by
  intro failed
  rcases exists_reason_of_writeFile (Prod.ext rfl failed) with ⟨-, _, -, same⟩ | ⟨-, _, -, same⟩
  · exact absurd same (by simp)
  · exact absurd same (by simp)

theorem writeArtifacts_ne_assertion
    (names : Names)
    (texts : Texts)
    (artifacts : List Artifact)
    (state : State)
    (reason : Text) :
    (writeArtifacts names texts artifacts state).2 ≠ some (.assertion reason) := by
  induction artifacts generalizing state with
  | nil => simp [writeArtifacts]
  | cons artifact rest induction =>
      have here := writeFile_ne_assertion state (names.artifactPath artifact) (texts.get artifact)
        reason
      rw [writeArtifacts]
      split
      · rename_i failed
        rwa [failed] at here
      · exact induction _

/-- Texts that are not all empty are never taken for a broken promise. -/
theorem prepare_ne_assertion
    (state : State)
    (names : Names)
    {texts : Texts}
    (nonempty : texts.isEmpty = false)
    (reason : Text) :
    (state.prepare names texts).2 ≠ some (.assertion reason) := by
  simp only [prepare, nonempty, Bool.false_eq_true, if_false]
  split <;> simp

theorem write_ne_assertion
    (state : State)
    (names : Names)
    {texts : Texts}
    (nonempty : texts.isEmpty = false)
    (reason : Text) :
    (state.write names texts).result ≠ .error (.assertion reason) := by
  have first := prepare_ne_assertion state names nonempty reason
  rw [write]
  split
  · rename_i failed
    rw [failed] at first
    exact fun same => first (congrArg some (Except.error.inj same))
  · rename_i prepared _
    have artifacts := writeArtifacts_ne_assertion names texts Artifact.all prepared reason
    split
    · rename_i written
      rw [written] at artifacts
      exact fun same => artifacts (congrArg some (Except.error.inj same))
    · simp

end OutputTree.State

/-! ## The outcome as a whole -/

namespace Emission

/-- What becomes of an entity in a context, and what cannot happen on the way. -/
structure ExactOutcome (context : Context) (entity : Entity) : Prop where
  /-- An inconsistent description is refused as an invalid schema. -/
  inconsistent :
    ∀ fault, entity.check = .error fault →
      compose context entity = .error fault ∧ fault.CarriesOnly .invalidSchema
  /-- A consistent description has one of the kinds. -/
  kinds : entity.check = .ok () → ∃ kind, entity.tag = .known kind
  /-- A consistent service singleton is refused as not implemented. -/
  service :
    entity.check = .ok () → entity.tag = .known .serviceSingleton →
      Refused context entity .notImplemented
  /-- A consistent interface without a flawed position is composed. -/
  interfaceSound :
    entity.check = .ok () → entity.tag = .known .interface →
      Position.firstFlawed? (Position.ofEntity entity) = none → Composed context entity
  /-- Any other is refused at its first flawed position, with the flaw of that position. -/
  interfaceFlawed :
    entity.check = .ok () → entity.tag = .known .interface →
      ∀ position, Position.firstFlawed? (Position.ofEntity entity) = some position →
        ∃ condition,
          position.flaw? = some condition ∧
            compose context entity =
              .error (.within ("entity " ++ entity.fullName)
                (position.report (Names.ofEntity context.options entity))) ∧
            Refused context entity condition
  /-- A consistent exception is refused exactly when some member has an unknown type. -/
  exception :
    entity.check = .ok () → entity.tag = .known .exception →
      (Refused context entity .unknownType ↔
          ∃ member ∈ entity.members?.getD [], member.type.isUnknown = true) ∧
        (Composed context entity ↔
          ¬ ∃ member ∈ entity.members?.getD [], member.type.isUnknown = true)
  /-- A consistent singleton is refused exactly when its base is registered as another kind. -/
  singleton :
    entity.check = .ok () → entity.tag = .known .interfaceSingleton →
      (Refused context entity .invalidSchema ↔ HasUnsuitableBase context entity) ∧
        (Composed context entity ↔ ¬ HasUnsuitableBase context entity)
  /-- Every refusal has one of three conditions, and none is a broken promise. -/
  refusals :
    ∀ fault, compose context entity = .error fault →
      fault.CarriesOnly .invalidSchema ∨ fault.CarriesOnly .notImplemented ∨
        fault.CarriesOnly .unknownType
  /-- Emitting into sinks that accept gives what was composed. -/
  emitted :
    emitInto context entity (fun _ => .accepting) =
      match compose context entity with
      | .error fault => (.none, some fault)
      | .ok texts => (texts, none)
  /-- A type is spelled on a surface unless it is unknown or an aggregate. -/
  spelled :
    ∀ (type : TypeName) (surface : Surface) (fault : Fault),
      type.spelling (some surface) = .error fault →
        fault.CarriesOnly .unknownType ∨ fault.CarriesOnly .unsupportedType
  /-- The accessor of a primitive member is planned. -/
  accessible :
    ∀ member : Field, member.type.category = .ok .primitive →
      ∃ getter, GetterPlan.ofMember (Names.ofEntity context.options entity) member = .ok getter
  /-- What was composed is never too little to be placed. -/
  placed :
    ∀ texts, compose context entity = .ok texts →
      texts.isEmpty = false ∧
        ∀ (state : OutputTree.State) (reason : Text),
          (state.write (Names.ofEntity context.options entity) texts).result ≠
            .error (.assertion reason)

theorem compose_of_inconsistent
    (context : Context)
    {entity : Entity}
    {fault : Fault}
    (refused : entity.check = .error fault) :
    compose context entity = .error fault := by
  rw [compose, refused]
  rfl

/-- A refusal with a condition is the only outcome. -/
theorem Refused.carriesOnly
    {context : Context}
    {entity : Entity}
    {condition : Condition}
    (refused : Refused context entity condition)
    {fault : Fault}
    (failed : compose context entity = .error fault) :
    fault.CarriesOnly condition := by
  obtain ⟨same, alsoFailed, only⟩ := refused
  rw [failed] at alsoFailed
  rwa [Except.error.inj alsoFailed]

theorem refused_of_flawed
    (context : Context)
    {entity : Entity}
    (checked : entity.check = .ok ())
    (interface : entity.tag = .known .interface)
    {position : Position}
    (found : Position.firstFlawed? (Position.ofEntity entity) = some position) :
    ∃ condition, position.flaw? = some condition ∧ Refused context entity condition := by
  have isFlawed := List.find?_some found
  obtain ⟨condition, flawed⟩ := Option.isSome_iff_exists.1 isFlawed
  exact ⟨condition, flawed, _, (compose_of_interface context checked interface).2 position found,
    (Position.carriesOnly_report _ flawed).within _⟩

/-- An exception is refused exactly when a member has an unknown type. -/
theorem exception_outcome
    (context : Context)
    {entity : Entity}
    (checked : entity.check = .ok ())
    (exception : entity.tag = .known .exception) :
    ((∃ member ∈ entity.members?.getD [], member.type.isUnknown = true) →
        Refused context entity .unknownType) ∧
      ((¬ ∃ member ∈ entity.members?.getD [], member.type.isUnknown = true) →
        Composed context entity) := by
  obtain ⟨succeeds, stops⟩ := compose_of_exception context checked exception
  cases found : (entity.members?.getD []).find? fun member => member.type.isUnknown with
  | none =>
      refine ⟨?_, fun _ => succeeds found⟩
      rintro ⟨member, declared, unknown⟩
      exact (List.find?_eq_none.1 found member declared unknown).elim
  | some member =>
      have unknown := List.find?_some found
      refine ⟨fun _ => ⟨_, stops member found, member.type.carriesOnly_unknownFault.within _⟩, ?_⟩
      intro noneUnknown
      exact (noneUnknown ⟨member, List.mem_of_find?_eq_some found, unknown⟩).elim

/-- Two outcomes that exclude each other, and the condition that decides between them. -/
theorem iff_of_decided
    {context : Context}
    {entity : Entity}
    {condition : Condition}
    {hindered : Prop}
    (refuses : hindered → Refused context entity condition)
    (composes : ¬ hindered → Composed context entity) :
    (Refused context entity condition ↔ hindered) ∧ (Composed context entity ↔ ¬ hindered) := by
  constructor
  · refine ⟨fun refused => ?_, refuses⟩
    by_contra free
    exact refused.not_composed (composes free)
  · exact ⟨fun composed hinders => (refuses hinders).not_composed composed, composes⟩

/-- Every refusal has one of three conditions. -/
theorem carriesOnly_of_compose
    {context : Context}
    {entity : Entity}
    {fault : Fault}
    (failed : compose context entity = .error fault) :
    fault.CarriesOnly .invalidSchema ∨ fault.CarriesOnly .notImplemented ∨
      fault.CarriesOnly .unknownType := by
  cases checked : entity.check with
  | error inconsistency =>
      rw [compose_of_inconsistent context checked] at failed
      exact .inl (Except.error.inj failed ▸ Entity.carriesOnly_of_check checked)
  | ok done =>
      have notComposed : ¬ Composed context entity := by
        rintro ⟨texts, composed⟩
        rw [failed] at composed
        exact absurd composed (by simp)
      obtain ⟨-, kind, tag, -⟩ :=
        (Entity.fault?_eq_none_iff entity).1 ((Entity.check_eq_ok_iff entity).1 checked)
      cases kind with
      | interface =>
          cases found : Position.firstFlawed? (Position.ofEntity entity) with
          | none =>
              exact (notComposed ((compose_of_interface context checked tag).1 found)).elim
          | some position =>
              obtain ⟨condition, flawed, refused⟩ := refused_of_flawed context checked tag found
              have only := refused.carriesOnly failed
              rcases Position.flaw?_cases flawed with rfl | rfl
              · exact .inr (.inr only)
              · exact .inl only
      | exception =>
          obtain ⟨refuses, composes⟩ := exception_outcome context checked tag
          by_cases unknown : ∃ member ∈ entity.members?.getD [], member.type.isUnknown = true
          · exact .inr (.inr ((refuses unknown).carriesOnly failed))
          · exact (notComposed (composes unknown)).elim
      | interfaceSingleton =>
          obtain ⟨refuses, composes⟩ := compose_of_singleton context checked tag
          by_cases unsuitable : HasUnsuitableBase context entity
          · exact .inl ((refuses unsuitable).carriesOnly failed)
          · exact (notComposed (composes unsuitable)).elim
      | serviceSingleton =>
          exact .inr (.inl ((refused_of_service context checked tag).carriesOnly failed))

/-- The outcome of every emission is settled by the description and the registry. -/
theorem exactOutcome
    (context : Context)
    (entity : Entity) :
    ExactOutcome context entity where
  inconsistent _ refused :=
    ⟨compose_of_inconsistent context refused, Entity.carriesOnly_of_check refused⟩
  kinds checked := by
    obtain ⟨-, kind, tag, -⟩ :=
      (Entity.fault?_eq_none_iff entity).1 ((Entity.check_eq_ok_iff entity).1 checked)
    exact ⟨kind, tag⟩
  service := refused_of_service context
  interfaceSound checked interface := (compose_of_interface context checked interface).1
  interfaceFlawed checked interface position found := by
    obtain ⟨condition, flawed, refused⟩ := refused_of_flawed context checked interface found
    exact ⟨condition, flawed, (compose_of_interface context checked interface).2 position found,
      refused⟩
  exception checked exception := by
    obtain ⟨refuses, composes⟩ := exception_outcome context checked exception
    exact iff_of_decided refuses composes
  singleton checked singleton := by
    obtain ⟨refuses, composes⟩ := compose_of_singleton context checked singleton
    exact iff_of_decided refuses composes
  refusals _ := carriesOnly_of_compose
  emitted := emitInto_accepting context entity
  spelled _ _ _ := TypeName.carriesOnly_of_spelling
  accessible _ := GetterPlan.exists_ofMember _
  placed texts composed := by
    have nonempty := Generation.isEmpty_of_compose composed
    exact ⟨nonempty, fun state => state.write_ne_assertion _ nonempty⟩

end Emission

end UnoBindgen
