import Mathlib
import UnoBindgen.Emission
import UnoBindgen.Proofs.Entity.Consistency
import UnoBindgen.Proofs.ModulePath
import UnoBindgen.Proofs.Plan
import UnoBindgen.Proofs.Text.Lines

/-!
# Delivery is all or nothing

An entity is composed as a whole before the first sink receives anything.  `Hindered` lists what
can keep an entity from being composed, and `exists_compose_iff` says that nothing else can.  The
main theorem then says what every combination of sinks holds in the end: nothing at all when the
entity is hindered or a sink is missing, and otherwise the complete texts up to the first sink that
fails.
-/

namespace UnoBindgen

/-! ## Traversals that can fail -/

theorem exists_mapM_eq_ok_iff
    {Source Target Failure : Type}
    (step : Source → Except Failure Target)
    (sources : List Source) :
    (∃ targets, sources.mapM step = .ok targets) ↔
      ∀ source ∈ sources, ∃ target, step source = .ok target := by
  simp only [mapM_eq_ok_iff]
  constructor
  · rintro ⟨targets, related⟩ source member
    obtain ⟨target, -, stepped⟩ := exists_of_mem_right related.flip member
    exact ⟨target, stepped⟩
  · intro steps
    induction sources with
    | nil => exact ⟨[], List.Forall₂.nil⟩
    | cons source rest induction =>
        obtain ⟨target, stepped⟩ := steps source List.mem_cons_self
        obtain ⟨targets, related⟩ :=
          induction fun other member => steps other (List.mem_cons_of_mem source member)
        exact ⟨target :: targets, List.Forall₂.cons stepped related⟩

theorem mapError_eq_ok_iff
    {Value Failure Other : Type}
    (change : Failure → Other)
    (result : Except Failure Value)
    (value : Value) :
    result.mapError change = .ok value ↔ result = .ok value := by
  cases result with
  | error failure => simp [Except.mapError]
  | ok same => simp [Except.mapError]

/-- A checked singleton has a base that is a dotted name. -/
theorem Entity.exists_base
    {entity : Entity}
    (checked : entity.check = .ok ())
    (singleton : entity.tag = .known .interfaceSingleton) :
    ∃ base, entity.base? = some base ∧ isQualifiedIdentifier base = true := by
  obtain ⟨-, kind, tag, clean⟩ :=
    (fault?_eq_none_iff entity).1 ((check_eq_ok_iff entity).1 checked)
  obtain rfl : Kind.interfaceSingleton = kind := KindTag.known.inj (singleton.symm.trans tag)
  rw [partFault?, baseFault?] at clean
  cases named : entity.base? with
  | none => simp [named] at clean
  | some base =>
      refine ⟨base, rfl, ?_⟩
      by_contra unqualified
      rw [named, Option.getD_some] at clean
      split at clean
      · exact absurd clean (by simp)
      · simp [unqualified] at clean

namespace Emission

/-! ## What hinders a composition -/

/-- What keeps an entity from being composed. -/
inductive Hindered (context : Context) (entity : Entity) : Prop where
  /-- Its description is not consistent. -/
  | inconsistent
      {fault : Fault}
      (refused : entity.check = .error fault)
  /-- Its kind cannot be bound. -/
  | unsupported
      (service : entity.tag = .known .serviceSingleton)
  /-- A method cannot be planned. -/
  | unplannedMethod
      {method : Method}
      {fault : Fault}
      (interface : entity.tag = .known .interface)
      (declared : method ∈ entity.methods?.getD [])
      (refused :
        MethodPlan.ofMethod (Names.ofEntity context.options entity) method = .error fault)
  /-- A member has an unknown type. -/
  | unknownMember
      {member : Field}
      {fault : Fault}
      (exception : entity.tag = .known .exception)
      (declared : member ∈ entity.members?.getD [])
      (refused : member.type.category = .error fault)
  /-- The accessor of a primitive member cannot be planned. -/
  | unplannedMember
      {member : Field}
      {fault : Fault}
      (exception : entity.tag = .known .exception)
      (declared : member ∈ entity.members?.getD [])
      (primitive : member.type.category = .ok .primitive)
      (refused :
        GetterPlan.ofMember (Names.ofEntity context.options entity) member = .error fault)
  /-- The base of a singleton is registered, but it is no interface. -/
  | unsuitableBase
      {base : Text}
      {registered : Entity}
      (singleton : entity.tag = .known .interfaceSingleton)
      (named : entity.base? = some base)
      (found : context.registry.find? base = some registered)
      (other : registered.tag ≠ .known .interface)

theorem exists_planGetters_iff
    (names : Names)
    (members : List Field) :
    (∃ getters, planGetters names members = .ok getters) ↔
      ∀ member ∈ members,
        (∃ category, member.type.category = .ok category) ∧
          (member.type.category = .ok .primitive →
            ∃ getter, GetterPlan.ofMember names member = .ok getter) := by
  induction members with
  | nil => simp [planGetters]
  | cons member rest induction =>
      rw [List.forall_mem_cons, ← induction, planGetters]
      split
      · rename_i fault unknown
        simp [unknown]
      · rename_i primitive
        simp only [bind_eq_ok_iff, primitive, Except.ok.injEq, exists_eq', true_and,
          forall_const]
        constructor
        · rintro ⟨getters, getter, planned, others, othersPlanned, -⟩
          exact ⟨⟨getter, planned⟩, others, othersPlanned⟩
        · rintro ⟨⟨getter, planned⟩, others, othersPlanned⟩
          exact ⟨getter :: others, getter, planned, others, othersPlanned, rfl⟩
      · rename_i category notPrimitive known
        simp only [known, Except.ok.injEq, exists_eq', true_and]
        constructor
        · intro planned
          exact ⟨fun primitive => (notPrimitive primitive).elim, planned⟩
        · rintro ⟨-, planned⟩
          exact planned

/-- The texts of a singleton over a base with this dotted name. -/
def textsOverBase (context : Context) (entity : Entity) (base : Text) : Texts :=
  singletonTexts (Names.ofEntity context.options entity)
    (Names.derive context.options (ModulePath.parent ⟨base.splitAt '.'⟩)
      (ModulePath.lastName ⟨base.splitAt '.'⟩))
    context.options.nativeContext

theorem fullName_of_find?
    {registry : Registry}
    {name : Text}
    {registered : Entity}
    (found : registry.find? name = some registered) :
    registered.fullName = name := by
  simpa using List.find?_some found

/-- A singleton asks the registry for nothing but the kind of its base. -/
theorem composeSingleton_of_base
    (context : Context)
    {entity : Entity}
    {base : Text}
    (named : entity.base? = some base)
    (qualified : isQualifiedIdentifier base = true) :
    composeSingleton context entity =
      match (context.registry.find? base).map Entity.tag with
      | none => .ok (textsOverBase context entity base)
      | some tag =>
        if tag = .known .interface then
          .ok (textsOverBase context entity base)
        else
          .error (.invalidSchema
            ("base " ++ base ++ " of singleton " ++
              (Names.ofEntity context.options entity).fullName ++ " is a " ++
              tag.name ++ ", not an interface")) := by
  simp only [composeSingleton, named, Option.getD_some,
    ModulePath.parse_of_isQualifiedIdentifier qualified, bind, Except.bind,
    ModulePath.name_splitAt]
  cases found : context.registry.find? base with
  | none => rfl
  | some registered =>
      simp only [fullName_of_find? found, Option.map_some]
      rfl

/-! ## Composing each kind -/

theorem composeInterface_eq_ok_iff
    (context : Context)
    (entity : Entity)
    (raw : Texts) :
    composeInterface context entity = .ok raw ↔
      ∃ plans,
        (entity.methods?.getD []).mapM
            (MethodPlan.ofMethod (Names.ofEntity context.options entity)) = .ok plans ∧
          raw = interfaceTexts (Names.ofEntity context.options entity) plans := by
  simp only [composeInterface, bind_eq_ok_iff, pure, Except.pure, Except.ok.injEq,
    eq_comm (a := raw)]

theorem composeException_eq_ok_iff
    (context : Context)
    (entity : Entity)
    (raw : Texts) :
    composeException context entity = .ok raw ↔
      ∃ getters,
        planGetters (Names.ofEntity context.options entity) (entity.members?.getD []) =
            .ok getters ∧
          raw = exceptionTexts (Names.ofEntity context.options entity) getters := by
  simp only [composeException, bind_eq_ok_iff, pure, Except.pure, Except.ok.injEq,
    eq_comm (a := raw)]

theorem composeSingleton_eq_ok_iff
    (context : Context)
    {entity : Entity}
    {base : Text}
    (named : entity.base? = some base)
    (qualified : isQualifiedIdentifier base = true)
    (raw : Texts) :
    composeSingleton context entity = .ok raw ↔
      (∀ registered, context.registry.find? base = some registered →
        registered.tag = .known .interface) ∧
        raw = textsOverBase context entity base := by
  rw [composeSingleton_of_base context named qualified]
  cases context.registry.find? base with
  | none => simp [eq_comm (a := raw)]
  | some registered =>
      by_cases interface : registered.tag = .known .interface
      · simp [interface, eq_comm (a := raw)]
      · simp [interface]

theorem exists_composeInterface_iff
    (context : Context)
    (entity : Entity) :
    (∃ raw, composeInterface context entity = .ok raw) ↔
      ∀ method ∈ entity.methods?.getD [],
        ∃ plan, MethodPlan.ofMethod (Names.ofEntity context.options entity) method = .ok plan := by
  simp only [composeInterface_eq_ok_iff, ← exists_mapM_eq_ok_iff]
  exact ⟨fun ⟨_, plans, planned, _⟩ => ⟨plans, planned⟩,
    fun ⟨plans, planned⟩ => ⟨_, plans, planned, rfl⟩⟩

theorem exists_composeException_iff
    (context : Context)
    (entity : Entity) :
    (∃ raw, composeException context entity = .ok raw) ↔
      ∀ member ∈ entity.members?.getD [],
        (∃ category, member.type.category = .ok category) ∧
          (member.type.category = .ok .primitive →
            ∃ getter,
              GetterPlan.ofMember (Names.ofEntity context.options entity) member =
                .ok getter) := by
  simp only [composeException_eq_ok_iff, ← exists_planGetters_iff]
  exact ⟨fun ⟨_, getters, planned, _⟩ => ⟨getters, planned⟩,
    fun ⟨getters, planned⟩ => ⟨_, getters, planned, rfl⟩⟩

theorem not_hindered_of_composeRaw
    {context : Context}
    {entity : Entity}
    (checked : entity.check = .ok ())
    {raw : Texts}
    (composed : composeRaw context entity = .ok raw) :
    ¬ Hindered context entity := by
  intro hindered
  simp only [composeRaw] at composed
  cases hindered with
  | inconsistent refused =>
      rw [checked] at refused
      exact absurd refused (by simp)
  | unsupported service =>
      simp [service] at composed
  | unplannedMethod interface declared refused =>
      simp only [interface, mapError_eq_ok_iff] at composed
      obtain ⟨plan, planned⟩ :=
        (exists_composeInterface_iff context entity).1 ⟨raw, composed⟩ _ declared
      rw [refused] at planned
      exact absurd planned (by simp)
  | unknownMember exception declared refused =>
      simp only [exception, mapError_eq_ok_iff] at composed
      obtain ⟨⟨category, known⟩, -⟩ :=
        (exists_composeException_iff context entity).1 ⟨raw, composed⟩ _ declared
      rw [refused] at known
      exact absurd known (by simp)
  | unplannedMember exception declared primitive refused =>
      simp only [exception, mapError_eq_ok_iff] at composed
      obtain ⟨-, accessible⟩ :=
        (exists_composeException_iff context entity).1 ⟨raw, composed⟩ _ declared
      obtain ⟨getter, planned⟩ := accessible primitive
      rw [refused] at planned
      exact absurd planned (by simp)
  | unsuitableBase singleton named found other =>
      obtain ⟨base, alsoNamed, qualified⟩ := Entity.exists_base checked singleton
      obtain rfl := Option.some.inj (named.symm.trans alsoNamed)
      simp only [singleton, mapError_eq_ok_iff,
        composeSingleton_eq_ok_iff context named qualified] at composed
      exact other (composed.1 _ found)

theorem exists_composeRaw_of_not_hindered
    {context : Context}
    {entity : Entity}
    (checked : entity.check = .ok ())
    (free : ¬ Hindered context entity) :
    ∃ raw, composeRaw context entity = .ok raw := by
  obtain ⟨-, kind, tag, -⟩ :=
    (Entity.fault?_eq_none_iff entity).1 ((Entity.check_eq_ok_iff entity).1 checked)
  simp only [composeRaw, tag]
  cases kind with
  | interface =>
      simp only [mapError_eq_ok_iff]
      refine (exists_composeInterface_iff context entity).2 fun method declared => ?_
      cases planned : MethodPlan.ofMethod (Names.ofEntity context.options entity) method with
      | error fault => exact (free (.unplannedMethod tag declared planned)).elim
      | ok plan => exact ⟨plan, rfl⟩
  | exception =>
      simp only [mapError_eq_ok_iff]
      refine (exists_composeException_iff context entity).2 fun member declared => ⟨?_, ?_⟩
      · cases known : member.type.category with
        | error fault => exact (free (.unknownMember tag declared known)).elim
        | ok category => exact ⟨category, rfl⟩
      · intro primitive
        cases planned : GetterPlan.ofMember (Names.ofEntity context.options entity) member with
        | error fault => exact (free (.unplannedMember tag declared primitive planned)).elim
        | ok getter => exact ⟨getter, rfl⟩
  | interfaceSingleton =>
      obtain ⟨base, named, qualified⟩ := Entity.exists_base checked tag
      simp only [mapError_eq_ok_iff, composeSingleton_eq_ok_iff context named qualified]
      refine ⟨_, fun registered found => ?_, rfl⟩
      by_contra other
      exact free (.unsuitableBase tag named found other)
  | serviceSingleton => exact (free (.unsupported tag)).elim

/-- A consistent entity of a kind that can be bound is composed unless one of its parts is
hindered. -/
theorem exists_composeRaw_iff
    (context : Context)
    {entity : Entity}
    (checked : entity.check = .ok ()) :
    (∃ raw, composeRaw context entity = .ok raw) ↔ ¬ Hindered context entity :=
  ⟨fun ⟨_, composed⟩ => not_hindered_of_composeRaw checked composed,
    exists_composeRaw_of_not_hindered checked⟩

/-- An entity is composed exactly when nothing hinders it. -/
theorem exists_compose_iff
    (context : Context)
    (entity : Entity) :
    (∃ texts, compose context entity = .ok texts) ↔ ¬ Hindered context entity := by
  cases checked : entity.check with
  | error fault =>
      have hindered : Hindered context entity := .inconsistent checked
      simp [compose, checked, bind, Except.bind, hindered]
  | ok done =>
      rw [← exists_composeRaw_iff context checked]
      simp only [compose, checked, bind_eq_ok_iff]
      constructor
      · rintro ⟨texts, -, -, raw, composed, -⟩
        exact ⟨raw, composed⟩
      · rintro ⟨raw, composed⟩
        exact ⟨_, done, trivial, raw, composed, rfl⟩

/-! ## The ends of composed texts -/

/-- The texts with exactly one line feed at their end, and something before it. -/
def IsTidy (text : Text) : Prop :=
  ∃ body : Text, body ≠ [] ∧ body.getLast? ≠ some '\n' ∧ text = body ++ ['\n']

theorem isTidy_tidyEnd
    {text : Text}
    {first : Char}
    (starts : text.head? = some first)
    (visible : first ≠ '\n') :
    IsTidy (tidyEnd text) := by
  refine ⟨text.dropFinalLineFeeds, ?_, ?_, rfl⟩
  · intro nothingLeft
    obtain ⟨count, split⟩ := Text.exists_dropFinalLineFeeds text
    rw [nothingLeft, List.nil_append] at split
    rw [split, List.head?_replicate] at starts
    split at starts
    · exact absurd starts (by simp)
    · exact visible (Option.some.inj starts).symm
  · intro endsInLineFeed
    rw [Text.dropFinalLineFeeds, List.getLast?_reverse] at endsInLineFeed
    have stops := List.head?_dropWhile_not (· == '\n') text.reverse
    rw [endsInLineFeed] at stops
    exact absurd stops (by simp)

/-- Every text starts with a visible character, whatever the kind of its entity. -/
theorem exists_head_of_composeRaw
    {context : Context}
    {entity : Entity}
    (checked : entity.check = .ok ())
    {raw : Texts}
    (composed : composeRaw context entity = .ok raw)
    (artifact : Artifact) :
    ∃ first, (raw.get artifact).head? = some first ∧ first ≠ '\n' := by
  obtain ⟨-, kind, tag, -⟩ :=
    (Entity.fault?_eq_none_iff entity).1 ((Entity.check_eq_ok_iff entity).1 checked)
  simp only [composeRaw, tag] at composed
  cases kind with
  | interface =>
      simp only [mapError_eq_ok_iff, composeInterface_eq_ok_iff] at composed
      obtain ⟨plans, -, rfl⟩ := composed
      cases artifact
      · exact ⟨'#', rfl, by decide⟩
      · exact ⟨'#', rfl, by decide⟩
      · exact ⟨'m', rfl, by decide⟩
  | exception =>
      simp only [mapError_eq_ok_iff, composeException_eq_ok_iff] at composed
      obtain ⟨getters, -, rfl⟩ := composed
      cases artifact
      · exact ⟨'#', rfl, by decide⟩
      · exact ⟨'#', rfl, by decide⟩
      · exact ⟨'m', rfl, by decide⟩
  | interfaceSingleton =>
      obtain ⟨base, named, qualified⟩ := Entity.exists_base checked tag
      simp only [mapError_eq_ok_iff, composeSingleton_eq_ok_iff context named qualified]
        at composed
      obtain ⟨-, rfl⟩ := composed
      cases artifact
      · exact ⟨'#', rfl, by decide⟩
      · exact ⟨'#', rfl, by decide⟩
      · exact ⟨'m', rfl, by decide⟩
  | serviceSingleton => exact absurd composed (by simp)

/-- Every composed text is tidy. -/
theorem isTidy_of_compose
    {context : Context}
    {entity : Entity}
    {texts : Texts}
    (composed : compose context entity = .ok texts)
    (artifact : Artifact) :
    IsTidy (texts.get artifact) := by
  simp only [compose, bind_eq_ok_iff] at composed
  obtain ⟨⟨⟩, checked, raw, rawComposed, tidied⟩ := composed
  obtain ⟨first, starts, visible⟩ := exists_head_of_composeRaw checked rawComposed artifact
  have tidy := isTidy_tidyEnd starts visible
  rw [← Except.ok.inj tidied]
  cases artifact <;> exact tidy

/-! ## Handing texts to sinks -/

/-- The artifacts whose sinks are reached: those that accept, up to the first that does not. -/
def reached (sinks : Artifact → Sink) : List Artifact :=
  Artifact.all.takeWhile fun artifact => sinks artifact = .accepting

theorem get_set_self
    (texts : Texts)
    (text : Text)
    (artifact : Artifact) :
    (texts.set text artifact).get artifact = text := by
  cases artifact <;> rfl

theorem get_set_of_ne
    (texts : Texts)
    (text : Text)
    {artifact other : Artifact}
    (differs : other ≠ artifact) :
    (texts.set text artifact).get other = texts.get other := by
  cases artifact <;> cases other <;> first | rfl | exact (differs rfl).elim

/-- Delivery goes through the artifacts in order.  What was delivered before stays, and the sinks
that accept receive their texts until one fails. -/
theorem deliver_spec
    (texts : Texts)
    {sinks : Artifact → Sink}
    (present : ∀ artifact, sinks artifact ≠ .missing)
    {artifacts : List Artifact}
    (distinct : artifacts.Nodup)
    (delivered : Texts) :
    (∀ artifact,
      (deliver texts sinks artifacts delivered).1.get artifact =
        if artifact ∈ artifacts.takeWhile fun other => sinks other = .accepting then
          texts.get artifact
        else
          delivered.get artifact) ∧
      ((deliver texts sinks artifacts delivered).2.isSome ↔
        ∃ artifact ∈ artifacts, ∃ reason, sinks artifact = .failing reason) := by
  induction artifacts generalizing delivered with
  | nil => simp [deliver]
  | cons first rest induction =>
      rw [List.nodup_cons] at distinct
      cases sink : sinks first with
      | missing => exact (present first sink).elim
      | failing reason => simp [deliver, sink]
      | accepting =>
          have step :
              deliver texts sinks (first :: rest) delivered =
                deliver texts sinks rest (delivered.set (texts.get first) first) := by
            simp [deliver, sink]
          obtain ⟨held, failed⟩ :=
            induction distinct.2 (delivered.set (texts.get first) first)
          rw [step]
          constructor
          · intro artifact
            rw [held, List.takeWhile_cons_of_pos (by simpa using sink)]
            by_cases same : artifact = first
            · subst same
              have notLater :
                  artifact ∉ rest.takeWhile fun other => sinks other = .accepting := by
                intro later
                exact distinct.1 ((List.takeWhile_prefix _).subset later)
              rw [if_neg notLater, if_pos List.mem_cons_self, get_set_self]
            · simp only [List.mem_cons, same, false_or, get_set_of_ne _ _ same]
          · rw [failed]
            simp [sink]

/--
Emission is all or nothing.  A hindered entity and a missing sink give a fault, and no sink receives
anything.  Otherwise the sinks before the first that fails hold their complete and tidy texts, the
others hold nothing, and there is a fault exactly when some sink fails.
-/
theorem emitInto_allOrNothing
    (context : Context)
    (entity : Entity)
    (sinks : Artifact → Sink) :
    ((Hindered context entity ∨ ∃ artifact, sinks artifact = .missing) →
      ∃ fault, emitInto context entity sinks = (Texts.none, some fault)) ∧
    (¬ (Hindered context entity ∨ ∃ artifact, sinks artifact = .missing) →
      ∃ texts, compose context entity = .ok texts ∧
        (∀ artifact, IsTidy (texts.get artifact)) ∧
        (∀ artifact,
          (emitInto context entity sinks).1.get artifact =
            if artifact ∈ reached sinks then texts.get artifact else []) ∧
        ((emitInto context entity sinks).2.isSome ↔
          ∃ artifact reason, sinks artifact = .failing reason)) := by
  have listed (artifact : Artifact) : artifact ∈ Artifact.all := by
    cases artifact <;> decide
  constructor
  · intro obstructed
    cases composed : compose context entity with
    | error fault => exact ⟨fault, by simp [emitInto, composed]⟩
    | ok texts =>
        have free := (exists_compose_iff context entity).1 ⟨texts, composed⟩
        rcases obstructed with hindered | ⟨artifact, missing⟩
        · exact (free hindered).elim
        · obtain ⟨first, found⟩ :
              ∃ first,
                Artifact.all.find? (fun artifact => sinks artifact = .missing) = some first := by
            rw [← Option.isSome_iff_exists, List.find?_isSome]
            exact ⟨artifact, listed artifact, by simpa using missing⟩
          refine
            ⟨.within ("entity " ++ entity.fullName)
              (.assertion ("no sink for " ++ first.name ++ " artifact")), ?_⟩
          simp only [emitInto, composed, found]
  · intro unobstructed
    rw [not_or, not_exists] at unobstructed
    obtain ⟨free, present⟩ := unobstructed
    obtain ⟨texts, composed⟩ := (exists_compose_iff context entity).2 free
    have nothingMissing :
        Artifact.all.find? (fun artifact => sinks artifact = .missing) = none := by
      rw [List.find?_eq_none]
      intro artifact _
      simpa using present artifact
    have emitted :
        emitInto context entity sinks =
          ((deliver texts sinks Artifact.all .none).1,
            (deliver texts sinks Artifact.all .none).2.map
              (.within ("entity " ++ entity.fullName))) := by
      simp only [emitInto, composed, nothingMissing]
    obtain ⟨held, failed⟩ :=
      deliver_spec texts present (show Artifact.all.Nodup by decide) Texts.none
    refine ⟨texts, composed, isTidy_of_compose composed, ?_, ?_⟩
    · intro artifact
      rw [emitted, held artifact, reached]
      cases artifact <;> rfl
    · rw [emitted, Option.isSome_map, failed]
      simp [listed]

end Emission

end UnoBindgen
