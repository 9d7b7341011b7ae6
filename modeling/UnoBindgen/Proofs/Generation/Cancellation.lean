import Mathlib
import UnoBindgen.Generation.Course
import UnoBindgen.Proofs.Generation.Interleaving

/-!
# Runs that are called off

Whatever the sink answers, and whenever the run is called off, an entity that is done with and has
no fault was accepted by the sink: that is `Course.Sound`, which holds at the start and is kept by
every event.  The entries of entities that are not done with are blank, and a blank entry has no
fault either.  So the entities that a report counts as generated are those the sink has accepted
exactly when every entity is done with, and a run that is called off early reports too many.

The runs of `Schedule`, where the sink is a tree of files and its steps may be interleaved, have
such a course, and so has `Generation.run`.
-/

namespace UnoBindgen.Generation

open OutputTree

/-! ## What a sink has accepted -/

/-- The sink has accepted the texts of an entity, and an entry of the report says so. -/
def WasAccepted
    (context : Emission.Context)
    (accepted : List Acceptance)
    (position : Nat)
    (entity : Entity)
    (entry : EntityReport) : Prop :=
  ∃ acceptance ∈ accepted,
    acceptance.position = position ∧
      acceptance.names = Names.ofEntity context.options entity ∧
      Emission.compose context entity = .ok acceptance.texts ∧
      entry = ⟨entity.fullName, entity.tag, acceptance.files, none⟩

theorem WasAccepted.mono
    {context : Emission.Context}
    {accepted later : List Acceptance}
    (more : accepted ⊆ later)
    {position : Nat}
    {entity : Entity}
    {entry : EntityReport}
    (was : WasAccepted context accepted position entity entry) :
    WasAccepted context later position entity entry := by
  obtain ⟨acceptance, member, facts⟩ := was
  exact ⟨acceptance, more member, facts⟩

/-- Every entity that a report counts as generated was accepted by the sink, and is the one at its
position. -/
def AcceptedOnly
    (context : Emission.Context)
    (entities : List Entity)
    (accepted : List Acceptance)
    (report : Report) : Prop :=
  ∀ position entry,
    report.entries[position]? = some entry → entry ∈ report.succeeded →
      ∃ entity, entities[position]? = some entity ∧
        WasAccepted context accepted position entity entry

/-! ## Sound courses -/

/-- What holds of an entity that has come so far. -/
def Phase.IsGrounded
    (context : Emission.Context)
    (accepted : List Acceptance)
    (position : Nat)
    (entity : Entity) :
    Phase → Prop
  | .waiting => True
  | .handed texts => Emission.compose context entity = .ok texts
  | .done report =>
    report.fault? = none → WasAccepted context accepted position entity report

theorem Phase.IsGrounded.mono
    {context : Emission.Context}
    {accepted later : List Acceptance}
    (more : accepted ⊆ later)
    {position : Nat}
    {entity : Entity}
    {phase : Phase}
    (grounded : phase.IsGrounded context accepted position entity) :
    phase.IsGrounded context later position entity := by
  cases phase with
  | waiting => trivial
  | handed texts => exact grounded
  | done report => exact fun flawless => (grounded flawless).mono more

namespace Course

variable
  {context : Emission.Context}
  {entities : List Entity}
  {course : Course}

/-- A point of a run at which no entity claims more than the sink has accepted. -/
structure Sound
    (context : Emission.Context)
    (entities : List Entity)
    (course : Course) : Prop where
  length : course.phases.length = entities.length
  grounded :
    ∀ position entity phase,
      entities[position]? = some entity → course.phases[position]? = some phase →
        Phase.IsGrounded context course.accepted position entity phase

theorem sound_start
    (context : Emission.Context)
    (entities : List Entity) :
    (start entities).Sound context entities where
  length := List.length_map _
  grounded position entity phase _ phaseAt := by
    obtain ⟨_, _, isWaiting⟩ := List.mem_map.1 (List.mem_of_getElem? phaseAt)
    subst isWaiting
    trivial

/-- One entity comes further, and the sink has accepted what it had accepted before. -/
theorem Sound.set
    (sound : course.Sound context entities)
    {position : Nat}
    {entity : Entity}
    (entityAt : entities[position]? = some entity)
    {accepted : List Acceptance}
    (more : course.accepted ⊆ accepted)
    {phase : Phase}
    (grounded : phase.IsGrounded context accepted position entity) :
    Sound context entities
      { course with phases := course.phases.set position phase, accepted := accepted } where
  length := (List.length_set ..).trans sound.length
  grounded other otherEntity otherPhase otherAt phaseAt := by
    by_cases same : position = other
    · subst same
      have inside := (List.getElem?_eq_some_iff.1 phaseAt).1
      rw [List.length_set] at inside
      rw [List.getElem?_set_self inside, Option.some.injEq] at phaseAt
      rw [entityAt, Option.some.injEq] at otherAt
      rw [← phaseAt, ← otherAt]
      exact grounded
    · rw [List.getElem?_set_ne same] at phaseAt
      exact (sound.grounded other otherEntity otherPhase otherAt phaseAt).mono more

theorem Sound.startAt
    (sound : course.Sound context entities)
    (position : Nat) :
    (course.startAt context entities position).Sound context entities := by
  unfold Course.startAt
  split
  · rename_i entity entityAt _
    split
    · exact sound
    · refine sound.set entityAt (List.Subset.refl _) ?_
      cases composed : Emission.compose context entity with
      | error fault => simp [Phase.IsGrounded]
      | ok texts => exact composed
  · exact sound

theorem Sound.answerAt
    (sound : course.Sound context entities)
    (position : Nat)
    (files : List Text)
    (fault? : Option Fault) :
    (course.answerAt context entities position files fault?).Sound context entities := by
  unfold Course.answerAt
  split
  · rename_i entity texts entityAt handedAt
    have composed := sound.grounded position entity _ entityAt handedAt
    cases fault? with
    | none =>
        refine sound.set entityAt (List.subset_cons_self _ _) fun _ => ?_
        exact ⟨_, List.mem_cons_self, rfl, rfl, composed, rfl⟩
    | some fault =>
        refine sound.set entityAt (List.Subset.refl _) fun flawless => ?_
        exact absurd flawless (Option.some_ne_none fault)
  · exact sound

/-- Every event keeps a course sound. -/
theorem Sound.occur
    (sound : course.Sound context entities)
    (event : Event) :
    (course.occur context entities event).Sound context entities := by
  cases event with
  | start position => exact sound.startAt position
  | answer position files fault? => exact sound.answerAt position files fault?
  | callOff => exact ⟨sound.length, sound.grounded⟩

/-- Every course of events is sound. -/
theorem sound_follow
    (context : Emission.Context)
    (entities : List Entity)
    (events : List Event) :
    (follow context entities events).Sound context entities := by
  rw [follow]
  generalize courseIs : Course.start entities = course
  have sound : course.Sound context entities := courseIs ▸ sound_start context entities
  clear courseIs
  induction events generalizing course with
  | nil => exact sound
  | cons event rest induction => exact induction _ (sound.occur event)

/-! ## What a report counts as generated -/

theorem Sound.acceptedOnly
    (sound : course.Sound context entities)
    (complete : course.isComplete = true)
    (runId : Text) :
    AcceptedOnly context entities course.accepted (course.report runId) := by
  intro position entry entryAt succeeded
  rw [report, List.getElem?_map, Option.map_eq_some_iff] at entryAt
  obtain ⟨phase, phaseAt, rfl⟩ := entryAt
  have inside : position < entities.length :=
    sound.length ▸ (List.getElem?_eq_some_iff.1 phaseAt).1
  have entityAt := List.getElem?_eq_getElem inside
  have done := List.all_eq_true.1 complete phase (List.mem_of_getElem? phaseAt)
  have grounded := sound.grounded position _ phase entityAt phaseAt
  have flawless : phase.entry.fault? = none :=
    Option.isNone_iff_eq_none.1 (List.mem_filter.1 succeeded).2
  cases phase with
  | waiting => exact absurd done (by simp [Phase.isDone])
  | handed texts => exact absurd done (by simp [Phase.isDone])
  | done entry => exact ⟨_, entityAt, grounded flawless⟩

/-- No sink accepts an entity whose entry is blank, because an entity of an unknown kind has no
texts. -/
theorem not_wasAccepted_blank
    (context : Emission.Context)
    (accepted : List Acceptance)
    (position : Nat)
    (entity : Entity) :
    ¬ WasAccepted context accepted position entity .blank := by
  rintro ⟨acceptance, -, -, -, composed, blank⟩
  have tag : entity.tag = .other 0 := (congrArg EntityReport.tag blank).symm
  simp only [Emission.compose, Emission.composeRaw, tag, bind_eq_ok_iff] at composed
  obtain ⟨-, -, texts, raw, -⟩ := composed
  cases raw

theorem isComplete_of_acceptedOnly
    (context : Emission.Context)
    (entities : List Entity)
    {course : Course}
    {runId : Text}
    (only : AcceptedOnly context entities course.accepted (course.report runId)) :
    course.isComplete = true := by
  refine List.all_eq_true.2 fun phase member => ?_
  by_contra unfinished
  have blank : phase.entry = .blank := by
    cases phase with
    | waiting => rfl
    | handed texts => rfl
    | done report => exact absurd rfl unfinished
  obtain ⟨position, phaseAt⟩ := List.getElem?_of_mem member
  have entryAt : (course.report runId).entries[position]? = some .blank := by
    rw [report, List.getElem?_map, phaseAt, Option.map_some, blank]
  have counted : .blank ∈ (course.report runId).succeeded :=
    List.mem_filter.2 ⟨List.mem_of_getElem? entryAt, rfl⟩
  obtain ⟨entity, -, was⟩ := only position .blank entryAt counted
  exact not_wasAccepted_blank context course.accepted position entity was

/-- A run that is over and was not called off is done with every entity. -/
theorem isComplete_of_hasEnded
    (ended : course.hasEnded = true)
    (uncancelled : course.isCalledOff = false) :
    course.isComplete = true := by
  rw [hasEnded, uncancelled, Bool.false_or, Bool.and_eq_true] at ended
  exact ended.2

end Course

/-! ## Schedules have a course -/

/-- A stage seen from outside of the sink: the steps of placing the files are the sink's own. -/
def Stage.phase : Stage → Phase
  | .waiting => .waiting
  | .composed texts => .handed texts
  | .placing texts _ => .handed texts
  | .done report => .done report

namespace Course

variable
  {entities : List Entity}
  {course : Course}

theorem phases_startAt
    (context : Emission.Context)
    {position : Nat}
    {entity : Entity}
    (entityAt : entities[position]? = some entity)
    (waitingAt : course.phases[position]? = some .waiting)
    (running : course.isCalledOff = false) :
    (course.startAt context entities position).phases =
        course.phases.set position
          (match Emission.compose context entity with
          | .error fault => .done ⟨entity.fullName, entity.tag, [], some fault⟩
          | .ok texts => .handed texts) ∧
      (course.startAt context entities position).isCalledOff = false := by
  cases composed : Emission.compose context entity with
  | error fault =>
      simp only [startAt, entityAt, waitingAt, running, composed, Bool.false_eq_true, if_false,
        and_self]
  | ok texts =>
      simp only [startAt, entityAt, waitingAt, running, composed, Bool.false_eq_true, if_false,
        and_self]

theorem phases_answerAt
    (context : Emission.Context)
    {position : Nat}
    {entity : Entity}
    (entityAt : entities[position]? = some entity)
    {texts : Texts}
    (handedAt : course.phases[position]? = some (.handed texts))
    (files : List Text)
    (fault? : Option Fault) :
    (course.answerAt context entities position files fault?).phases =
        course.phases.set position (.done ⟨entity.fullName, entity.tag, files, fault?⟩) ∧
      (course.answerAt context entities position files fault?).isCalledOff =
        course.isCalledOff := by
  simp only [answerAt, entityAt, handedAt, and_self]

/-- A step of an entity is an event of the course, or does not show outside of the sink. -/
theorem exists_occur_of_step
    (context : Emission.Context)
    {position : Nat}
    {entity : Entity}
    (entityAt : entities[position]? = some entity)
    {stage : Stage}
    (phaseAt : course.phases[position]? = some stage.phase)
    (running : course.isCalledOff = false)
    (state : State) :
    ∃ events : List Event, (events.foldl (occur context entities) course).phases =
        course.phases.set position (stage.step context entity state).2.phase ∧
      (events.foldl (occur context entities) course).isCalledOff = false := by
  have idle {phase : Phase} (same : course.phases[position]? = some phase) :
      course.phases = course.phases.set position phase := by
    obtain ⟨inside, found⟩ := List.getElem?_eq_some_iff.1 same
    rw [← found, List.set_getElem_self]
  have answered {texts : Texts} (handedAt : course.phases[position]? = some (.handed texts))
      (files : List Text) (fault? : Option Fault) :
      (course.occur context entities (.answer position files fault?)).phases =
          course.phases.set position (.done ⟨entity.fullName, entity.tag, files, fault?⟩) ∧
        (course.occur context entities (.answer position files fault?)).isCalledOff = false := by
    obtain ⟨phases, still⟩ := phases_answerAt context entityAt handedAt files fault?
    exact ⟨phases, still.trans running⟩
  cases stage with
  | waiting =>
      refine ⟨[.start position], ?_⟩
      have started := phases_startAt context entityAt phaseAt running
      cases composed : Emission.compose context entity with
      | error fault =>
          simp only [composed] at started
          simp only [Stage.step, composed]
          exact started
      | ok texts =>
          simp only [composed] at started
          simp only [Stage.step, composed]
          exact started
  | composed texts =>
      cases prepared : state.prepare (Names.ofEntity context.options entity) texts with
      | mk next fault? =>
          simp only [Stage.step, prepared]
          cases fault? with
          | some fault =>
              exact ⟨[.answer position [] (some fault)], answered phaseAt [] (some fault)⟩
          | none => exact ⟨[], idle phaseAt, running⟩
  | placing texts rest =>
      cases rest with
      | nil => exact ⟨[.answer position _ none], answered phaseAt _ none⟩
      | cons artifact rest =>
          cases written :
              state.writeFile ((Names.ofEntity context.options entity).artifactPath artifact)
                (texts.get artifact) with
          | mk next fault? =>
              simp only [Stage.step, written]
              cases fault? with
              | some fault =>
                  exact ⟨[.answer position [] (some fault)], answered phaseAt [] (some fault)⟩
              | none => exact ⟨[], idle phaseAt, running⟩
  | done report => exact ⟨[], idle phaseAt, running⟩

end Course

/-- Whoever's turn it is, a schedule shows outside of the sink as a course of events. -/
theorem Schedule.exists_course
    (generation : Generation)
    (base : State)
    (schedule : Schedule) :
    ∃ events,
      (Course.follow generation.context generation.registry.entities events).phases =
          (schedule.follow generation base).stages.map Stage.phase ∧
        (Course.follow generation.context generation.registry.entities events).isCalledOff =
          false := by
  induction schedule using List.reverseRecOn with
  | nil => exact ⟨[], by simp [Schedule.follow, Snapshot.start, Course.follow, Course.start,
      Stage.phase], rfl⟩
  | append_singleton schedule position induction =>
      obtain ⟨events, phases, running⟩ := induction
      have last :
          Schedule.follow (schedule ++ [position]) generation base =
            (Schedule.follow schedule generation base).advance generation position := by
        rw [Schedule.follow, Schedule.follow, List.foldl_append]
        rfl
      rw [last]
      generalize Schedule.follow schedule generation base = snapshot at phases
      cases entityAt : generation.registry.entities[position]? with
      | none =>
          rw [Snapshot.advance_of_none snapshot entityAt]
          exact ⟨events, phases, running⟩
      | some entity =>
          cases stageAt : snapshot.stages[position]? with
          | none =>
              refine ⟨events, ?_, running⟩
              rw [phases, Snapshot.advance, entityAt, stageAt]
          | some stage =>
              have phaseAt :
                  (Course.follow generation.context generation.registry.entities
                    events).phases[position]? = some stage.phase := by
                rw [phases, List.getElem?_map, stageAt, Option.map_some]
              obtain ⟨next, further, still⟩ :=
                Course.exists_occur_of_step generation.context entityAt phaseAt
                  running snapshot.state
              refine ⟨events ++ next, ?_, ?_⟩
              · rw [Course.follow, List.foldl_append, ← Course.follow, further, phases,
                  Snapshot.advance_of_getElem? entityAt stageAt Prod.mk.eta.symm, List.map_set]
              · rw [Course.follow, List.foldl_append, ← Course.follow, still]

theorem started_eq_take (generation : Generation) :
    generation.started = generation.registry.entities.take generation.started.length := by
  rw [started]
  split
  · rw [List.length_take, List.take_eq_take_iff]
    omega
  · rw [List.take_length]

theorem length_started_le (generation : Generation) :
    generation.started.length ≤ generation.registry.entities.length := by
  rw [started_eq_take, List.length_take]
  exact Nat.min_le_right _ _

/-- The stages at the end of a run: those of the started entities are done, and the others still
wait. -/
theorem stages_follow_started
    (generation : Generation)
    (base : State) :
    ((Schedule.oneByOne generation.started.length).follow generation base).stages =
      (generateAll generation.context generation.started base).2.map .done ++
        List.replicate (generation.registry.size - generation.started.length) .waiting := by
  rw [Schedule.follow_oneByOne generation base (length_started_le generation),
    ← started_eq_take, List.map_const', List.length_drop, Registry.size]

/-- Every run that brings its results to a tree of files has a course, at the end of which it is
over. -/
theorem exists_course_of_run
    (generation : Generation)
    (base : State) :
    ∃ events,
      (Course.follow generation.context generation.registry.entities events).report
          generation.runId = (generation.run base).report ∧
        (Course.follow generation.context generation.registry.entities events).isCalledOff =
          generation.cancelAfter.isSome ∧
        (Course.follow generation.context generation.registry.entities events).hasEnded =
          true := by
  obtain ⟨events, phases, running⟩ :=
    Schedule.exists_course generation base (Schedule.oneByOne generation.started.length)
  rw [stages_follow_started, List.map_append, List.map_map, List.map_replicate] at phases
  have reported :
      (Course.follow generation.context generation.registry.entities events).report
        generation.runId = (generation.run base).report := by
    rw [Course.report, phases, List.map_append, List.map_map, List.map_replicate]
    exact congrArg (fun entries => Report.mk _ (entries ++ _)) (List.map_id _)
  have settled :
      (Course.follow generation.context generation.registry.entities events).phases.all
        (fun phase => !phase.isHanded) = true := by
    simp [phases, Stage.phase, Phase.isHanded]
  cases cancelled : generation.cancelAfter with
  | none =>
      refine ⟨events, reported, running, ?_⟩
      have everything : generation.registry.size - generation.started.length = 0 := by
        rw [started, cancelled, Registry.size, Nat.sub_self]
      rw [Course.hasEnded, settled, Course.isComplete, phases, everything]
      simp [Stage.phase, Phase.isDone]
  | some count =>
      refine ⟨events ++ [.callOff], ?_⟩
      rw [Course.follow, List.foldl_append, ← Course.follow]
      refine ⟨reported, rfl, ?_⟩
      rw [Course.hasEnded]
      exact Bool.and_eq_true_iff.2 ⟨settled, rfl⟩

/-- The entities that a run counts as generated were all accepted, if it was not called off. -/
theorem exists_acceptedOnly_of_run
    {generation : Generation}
    (uncancelled : generation.cancelAfter = none)
    (base : State) :
    ∃ events,
      (Course.follow generation.context generation.registry.entities events).hasEnded = true ∧
        AcceptedOnly generation.context generation.registry.entities
          (Course.follow generation.context generation.registry.entities events).accepted
          (generation.run base).report := by
  obtain ⟨events, reported, calledOff, ended⟩ := exists_course_of_run generation base
  rw [uncancelled, Option.isSome_none] at calledOff
  refine ⟨events, ended, ?_⟩
  rw [← reported]
  exact (Course.sound_follow generation.context generation.registry.entities events).acceptedOnly
    (Course.isComplete_of_hasEnded ended calledOff) generation.runId

/-! ## The main statement -/

/--
For every list of entities, every sink and every course of a run, called off or not: the entities
that the report counts as generated were all accepted by the sink exactly when the run is done
with every entity.
-/
theorem acceptedOnly_iff_isComplete
    (context : Emission.Context)
    (entities : List Entity)
    (events : List Event)
    (runId : Text) :
    AcceptedOnly context entities (Course.follow context entities events).accepted
        ((Course.follow context entities events).report runId) ↔
      (Course.follow context entities events).isComplete = true := by
  constructor
  · exact Course.isComplete_of_acceptedOnly context entities
  · intro complete
    exact (Course.sound_follow context entities events).acceptedOnly complete runId

/-- A run that is called off before its first entity is over at once.  The sink has accepted
nothing, and the report counts every entity as generated. -/
theorem not_acceptedOnly_of_callOff :
    (Course.follow widgetGeneration.context widgetEntities [.callOff]).hasEnded = true ∧
      (Course.follow widgetGeneration.context widgetEntities [.callOff]).accepted = [] ∧
      (Course.follow widgetGeneration.context widgetEntities [.callOff]).report [] =
        ({ widgetGeneration with cancelAfter := some 0 }.run outdatedWidget).report ∧
      ({ widgetGeneration with cancelAfter := some 0 }.run outdatedWidget).report.succeeded =
        [.blank, .blank, .blank] ∧
      ¬ AcceptedOnly widgetGeneration.context widgetEntities
          (Course.follow widgetGeneration.context widgetEntities [.callOff]).accepted
          ((Course.follow widgetGeneration.context widgetEntities [.callOff]).report []) := by
  refine ⟨rfl, rfl, rfl, rfl, fun only => ?_⟩
  obtain ⟨entity, -, acceptance, accepted, -⟩ := only 0 .blank rfl (by decide)
  exact absurd accepted List.not_mem_nil

end UnoBindgen.Generation
