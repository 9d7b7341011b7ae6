import Mathlib
import UnoBindgen.Proofs.Generation.Progress
import UnoBindgen.Proofs.Text.Sort

/-!
# The order of the work does not matter

Entities may be worked on in turns, in any order.  Every schedule that gives each entity its six
steps completes the run, and every complete run leaves the files, the report and the sorted lists
that come out when each entity is done with before the next one is started.
-/

namespace UnoBindgen.Generation

open OutputTree
open OutputTree.State

/-! ## Every schedule with enough turns completes the run -/

namespace Snapshot

variable
  {generation : Generation}
  {snapshot : Snapshot}

theorem advance_of_lt
    (lengths : snapshot.stages.length = generation.registry.entities.length)
    {position : Nat}
    (inside : position < generation.registry.entities.length) :
    ∃ entity stage, generation.registry.entities[position]? = some entity ∧
      snapshot.stages[position]? = some stage ∧
      (snapshot.advance generation position).stages =
        snapshot.stages.set position (stage.step generation.context entity snapshot.state).2 := by
  have entityAt := List.getElem?_eq_getElem inside
  have stageAt := List.getElem?_eq_getElem (lengths ▸ inside)
  exact ⟨_, _, entityAt, stageAt,
    congrArg Snapshot.stages (advance_of_getElem? entityAt stageAt Prod.mk.eta.symm)⟩

theorem length_stages_advance
    (generation : Generation)
    (snapshot : Snapshot)
    (position : Nat) :
    (snapshot.advance generation position).stages.length = snapshot.stages.length := by
  rw [advance]
  split
  · rw [List.length_set]
  · rfl

/-- A turn brings its entity one step nearer to its end, and leaves the others where they are. -/
theorem remaining_advance
    (lengths : snapshot.stages.length = generation.registry.entities.length)
    (turn position : Nat)
    {stage : Stage}
    (stageAt : (snapshot.advance generation turn).stages[position]? = some stage) :
    ∃ earlier, snapshot.stages[position]? = some earlier ∧
      stage.remaining ≤ earlier.remaining - [turn].count position := by
  have inside : position < generation.registry.entities.length := by
    rw [← lengths, ← length_stages_advance generation snapshot turn]
    exact (List.getElem?_eq_some_iff.1 stageAt).1
  by_cases same : turn = position
  · subst same
    obtain ⟨entity, earlier, -, earlierAt, stages⟩ := advance_of_lt lengths inside
    rw [stages, List.getElem?_set_self (lengths ▸ inside), Option.some.injEq] at stageAt
    refine ⟨earlier, earlierAt, ?_⟩
    rw [List.count_singleton_self, ← stageAt]
    exact Stage.remaining_step_le generation.context entity snapshot.state earlier
  · have untouched :
        (snapshot.advance generation turn).stages[position]? = snapshot.stages[position]? := by
      rw [advance]
      split
      · exact List.getElem?_set_ne same
      · rfl
    rw [untouched] at stageAt
    refine ⟨stage, stageAt, ?_⟩
    simp [same]

theorem remaining_foldl_advance
    (lengths : snapshot.stages.length = generation.registry.entities.length)
    (schedule : Schedule)
    (position : Nat)
    {stage : Stage}
    (stageAt : (schedule.foldl (advance generation) snapshot).stages[position]? = some stage) :
    ∃ earlier, snapshot.stages[position]? = some earlier ∧
      stage.remaining ≤ earlier.remaining - schedule.count position := by
  induction schedule generalizing snapshot with
  | nil => exact ⟨stage, stageAt, Nat.le_refl _⟩
  | cons turn rest induction =>
      have nextLengths := (length_stages_advance generation snapshot turn).trans lengths
      obtain ⟨middle, middleAt, later⟩ := induction nextLengths stageAt
      obtain ⟨earlier, earlierAt, sooner⟩ := remaining_advance lengths turn position middleAt
      refine ⟨earlier, earlierAt, ?_⟩
      rw [← List.singleton_append, List.count_append]
      omega

end Snapshot

theorem Schedule.isComplete_follow
    (generation : Generation)
    (base : State)
    (schedule : Schedule)
    (enough :
      ∀ position < generation.registry.entities.length,
        Artifact.all.length + 3 ≤ schedule.count position) :
    (schedule.follow generation base).isComplete = true := by
  have lengths :
      (Snapshot.start generation base).stages.length = generation.registry.entities.length :=
    List.length_map _
  refine List.all_eq_true.2 fun stage member => ?_
  obtain ⟨position, stageAt⟩ := List.getElem?_of_mem member
  obtain ⟨earlier, earlierAt, bound⟩ :=
    Snapshot.remaining_foldl_advance lengths schedule position stageAt
  have inside : position < generation.registry.entities.length :=
    lengths ▸ (List.getElem?_eq_some_iff.1 earlierAt).1
  have waiting : earlier = .waiting := by
    obtain ⟨_, _, isWaiting⟩ := List.mem_map.1 (List.mem_of_getElem? earlierAt)
    exact isWaiting.symm
  rw [Stage.isDone_iff_remaining_eq_zero]
  rw [waiting, Stage.remaining] at bound
  have turns := enough position inside
  omega

/-! ## One entity after the other -/

namespace Stage

/-- What an entity comes to when it takes all of its remaining steps in a row. -/
def finish (context : Emission.Context) (entity : Entity) (state : State) :
    Stage → State × EntityReport
  | .waiting => generateEntity context entity state
  | .composed texts =>
    let outcome := state.write (Names.ofEntity context.options entity) texts
    match outcome.result with
    | .error fault => (outcome.state, ⟨entity.fullName, entity.tag, [], some fault⟩)
    | .ok files => (outcome.state, ⟨entity.fullName, entity.tag, files, none⟩)
  | .placing texts rest =>
    let names := Names.ofEntity context.options entity
    match State.writeArtifacts names texts rest state with
    | (next, some fault) => (next, ⟨entity.fullName, entity.tag, [], some fault⟩)
    | (next, none) =>
      (next, ⟨entity.fullName, entity.tag, Artifact.all.map names.artifactPath, none⟩)
  | .done report => (state, report)

/-- A step does not change what an entity comes to. -/
theorem finish_step
    (context : Emission.Context)
    (entity : Entity)
    (state : State)
    (stage : Stage) :
    finish context entity (stage.step context entity state).1
        (stage.step context entity state).2 =
      finish context entity state stage := by
  cases stage with
  | waiting =>
      cases composed : Emission.compose context entity with
      | error fault => simp only [step, finish, generateEntity, composed]
      | ok texts =>
          cases written :
              (state.write (Names.ofEntity context.options entity) texts).result with
          | error fault => simp only [step, finish, generateEntity, composed, written]
          | ok files => simp only [step, finish, generateEntity, composed, written]
  | composed texts =>
      cases prepared : state.prepare (Names.ofEntity context.options entity) texts with
      | mk next fault? =>
          cases fault? with
          | some fault => simp only [step, finish, State.write, prepared]
          | none =>
              simp only [step, finish, State.write, prepared]
              cases State.writeArtifacts (Names.ofEntity context.options entity) texts
                Artifact.all next with
              | mk last fault? => cases fault? <;> rfl
  | placing texts rest =>
      cases rest with
      | nil => rfl
      | cons artifact rest =>
          cases written :
              state.writeFile ((Names.ofEntity context.options entity).artifactPath artifact)
                (texts.get artifact) with
          | mk next fault? =>
              cases fault? with
              | some fault => simp only [step, finish, State.writeArtifacts, written]
              | none => simp only [step, finish, State.writeArtifacts, written]
  | done report => rfl

theorem eq_done_of_isDone
    {stage : Stage}
    (done : stage.isDone = true) :
    stage = .done stage.entry := by
  cases stage with
  | done report => rfl
  | waiting => exact absurd done (by simp [isDone])
  | composed texts => exact absurd done (by simp [isDone])
  | placing texts rest => exact absurd done (by simp [isDone])

end Stage

namespace Snapshot

/-- Enough turns in a row finish an entity. -/
theorem foldl_advance_replicate
    {generation : Generation}
    {position : Nat}
    {entity : Entity}
    (entityAt : generation.registry.entities[position]? = some entity)
    {snapshot : Snapshot}
    {stage : Stage}
    (stageAt : snapshot.stages[position]? = some stage)
    {turns : Nat}
    (enough : stage.remaining ≤ turns) :
    (List.replicate turns position).foldl (advance generation) snapshot =
      { state := (stage.finish generation.context entity snapshot.state).1
        stages :=
          snapshot.stages.set position
            (.done (stage.finish generation.context entity snapshot.state).2)
        announced :=
          if stage.isDone then snapshot.announced
          else
            (stage.finish generation.context entity snapshot.state).2 :: snapshot.announced } := by
  induction turns generalizing snapshot stage with
  | zero =>
      have done := (Stage.isDone_iff_remaining_eq_zero stage).2 (Nat.le_zero.1 enough)
      obtain ⟨inside, found⟩ := List.getElem?_eq_some_iff.1 stageAt
      rw [Stage.eq_done_of_isDone done] at found ⊢
      have same : snapshot.stages.set position (.done stage.entry) = snapshot.stages := by
        rw [← found, List.set_getElem_self]
      simp only [List.replicate_zero, List.foldl_nil, Stage.finish, same, Stage.isDone, if_true]
  | succ turns induction =>
      have inside := (List.getElem?_eq_some_iff.1 stageAt).1
      have fewer :=
        Stage.remaining_step_le generation.context entity snapshot.state stage
      have finished := Stage.finish_step generation.context entity snapshot.state stage
      generalize stepped : stage.step generation.context entity snapshot.state = step
        at fewer finished
      obtain ⟨state, next⟩ := step
      simp only at fewer finished
      have nextAt : (snapshot.stages.set position next)[position]? = some next :=
        List.getElem?_set_self inside
      rw [List.replicate_succ, List.foldl_cons, advance_of_getElem? entityAt stageAt stepped,
        induction nextAt (by omega), List.set_set, finished]
      congr 1
      cases isDone : stage.isDone with
      | true =>
          have stays : next = stage := by
            rw [Stage.eq_done_of_isDone isDone] at stepped ⊢
            exact (Prod.mk.inj stepped).2.symm
          simp [stays, isDone]
      | false =>
          cases nextDone : next.isDone with
          | false => simp
          | true =>
              have reported :
                  (stage.finish generation.context entity snapshot.state).2 = next.entry := by
                rw [← finished, Stage.eq_done_of_isDone nextDone]
                rfl
              simp [reported]

end Snapshot

theorem generateAll_concat
    (context : Emission.Context)
    (entities : List Entity)
    (entity : Entity)
    (state : State) :
    generateAll context (entities ++ [entity]) state =
      ((generateEntity context entity (generateAll context entities state).1).1,
        (generateAll context entities state).2 ++
          [(generateEntity context entity (generateAll context entities state).1).2]) := by
  induction entities generalizing state with
  | nil => rfl
  | cons first rest induction =>
      simp only [List.cons_append, generateAll, induction]

theorem length_generateAll
    (context : Emission.Context)
    (entities : List Entity)
    (state : State) :
    (generateAll context entities state).2.length = entities.length := by
  induction entities generalizing state with
  | nil => rfl
  | cons first rest induction => simp only [generateAll, List.length_cons, induction]

/-- The schedule that takes the entities one by one generates them one by one. -/
theorem Schedule.follow_oneByOne
    (generation : Generation)
    (base : State)
    {count : Nat}
    (within : count ≤ generation.registry.entities.length) :
    (oneByOne count).follow generation base =
      { state := (generateAll generation.context (generation.registry.entities.take count) base).1
        stages :=
          (generateAll generation.context (generation.registry.entities.take count) base).2.map
              .done ++
            (generation.registry.entities.drop count).map fun _ => .waiting
        announced :=
          (generateAll generation.context
            (generation.registry.entities.take count) base).2.reverse } := by
  induction count with
  | zero => rfl
  | succ count induction =>
      have split : oneByOne (count + 1) = oneByOne count ++ stepsOfEntity count := by
        simp [oneByOne, List.range_succ]
      have earlier := induction (by omega)
      rw [follow] at earlier ⊢
      rw [split, List.foldl_append, earlier]
      have inside : count < generation.registry.entities.length := within
      have entityAt := List.getElem?_eq_getElem inside
      generalize generated :
        generateAll generation.context (generation.registry.entities.take count) base = before
      have length : (before.2.map Stage.done).length = count := by
        rw [← generated, List.length_map, length_generateAll, List.length_take]
        omega
      have rest :
          ((generation.registry.entities.drop count).map fun _ => Stage.waiting) =
            .waiting :: (generation.registry.entities.drop (count + 1)).map fun _ => .waiting := by
        rw [List.drop_eq_getElem_cons inside, List.map_cons]
      have stageAt :
          (before.2.map Stage.done ++
            (generation.registry.entities.drop count).map fun _ => Stage.waiting)[count]? =
            some .waiting := by
        rw [List.getElem?_append_right (by omega), length, Nat.sub_self, rest]
        rfl
      have enough : Stage.waiting.remaining ≤ Artifact.all.length + 3 := Nat.le_refl _
      rw [stepsOfEntity, Snapshot.foldl_advance_replicate entityAt stageAt enough,
        List.take_succ_eq_append_getElem inside, generateAll_concat, generated]
      simp only [Stage.finish, Stage.isDone, Bool.false_eq_true, if_false, List.map_append,
        List.map_cons, List.map_nil, List.reverse_append, List.reverse_cons, List.reverse_nil,
        List.nil_append, List.append_assoc, List.singleton_append]
      rw [List.set_append_right _ _ (by omega), length, Nat.sub_self, rest, List.set_cons_zero]

/-- A run that is not called off follows the schedule that takes the entities one by one. -/
theorem run_eq_follow
    {generation : Generation}
    (uncancelled : generation.cancelAfter = none)
    (base : State) :
    (generation.run base).state =
        ((Schedule.oneByOne generation.registry.size).follow generation base).state ∧
      (generation.run base).report.entries =
        ((Schedule.oneByOne generation.registry.size).follow generation base).entries := by
  have started : generation.started = generation.registry.entities := by
    rw [Generation.started, uncancelled]
  rw [Registry.size, Schedule.follow_oneByOne generation base (Nat.le_refl _)]
  simp only [run, started, Registry.size, List.take_length, List.drop_length, List.map_nil,
    List.append_nil, Nat.sub_self, List.replicate_zero, Snapshot.entries, List.map_map, true_and]
  exact (List.map_id _).symm

/-! ## Runs compared -/

/-- A run has come to an outcome: the same files, the same report, and the same lists of written
and unchanged files.  The end of each entity was announced once. -/
structure Snapshot.CameTo (snapshot : Snapshot) (outcome : Outcome) : Prop where
  store : snapshot.state.store.Agrees outcome.state.store
  entries : snapshot.entries = outcome.report.entries
  written : snapshot.state.tree.sortedWritten = outcome.state.tree.sortedWritten
  unchanged : snapshot.state.tree.sortedUnchanged = outcome.state.tree.sortedUnchanged
  announced : snapshot.announced.Perm outcome.report.entries

theorem Ready.of_accepted
    {settings : Settings}
    {entities : List Entity}
    {generation : Generation}
    {base : State}
    (validSettings : settings.check = .ok ())
    (validEntities : ∀ entity ∈ entities, entity.check = .ok ())
    (accepted : Registry.ofEntities entities = .ok generation.registry)
    (options : generation.options = settings.naming)
    (situated : base.store.IsSituated)
    (canWrite : generation.CanWrite base) :
    generation.Ready base := by
  obtain ⟨apart, registered⟩ :=
    (Registry.ofEntities_eq_ok_iff entities generation.registry).1 accepted
  have registryEntities : generation.registry.entities = entities := by rw [registered]
  refine
    { wellFormed := ?_
      checked := ?_
      apart := ?_
      situated := situated
      canWrite := canWrite }
  · rw [context, options]
    exact ((Settings.check_eq_ok_iff settings).1 validSettings).2.1
  · rwa [registryEntities]
  · rwa [registryEntities]

theorem Ready.oneByOne_isOutcome
    {generation : Generation}
    {base : State}
    (ready : generation.Ready base) :
    ((Schedule.oneByOne generation.registry.size).follow generation base).IsOutcome
      generation base := by
  apply (Schedule.sound_follow ready _).isOutcome
  rw [Registry.size, Schedule.follow_oneByOne generation base (Nat.le_refl _)]
  simp [Snapshot.isComplete, Stage.isDone]

theorem Ready.cameTo_run
    {generation : Generation}
    {base : State}
    (ready : generation.Ready base)
    (uncancelled : generation.cancelAfter = none)
    {schedule : Schedule}
    (complete : (schedule.follow generation base).isComplete = true) :
    (schedule.follow generation base).CameTo (generation.run base) := by
  have outcome := (Schedule.sound_follow ready schedule).isOutcome complete
  have inOrder := ready.oneByOne_isOutcome
  obtain ⟨sameState, sameEntries⟩ := run_eq_follow uncancelled base
  have entries :
      (schedule.follow generation base).entries = (generation.run base).report.entries := by
    rw [sameEntries, outcome.entries, inOrder.entries]
  refine
    { store := ?_
      entries := entries
      written := ?_
      unchanged := ?_
      announced := entries ▸ outcome.announced }
  · rw [sameState]
    exact outcome.shows.agrees inOrder.shows
  · rw [sameState]
    exact Text.sort_eq_of_perm (outcome.shows.written.trans inOrder.shows.written.symm)
  · rw [sameState]
    exact Text.sort_eq_of_perm (outcome.shows.unchanged.trans inOrder.shows.unchanged.symm)

/-- The full names of accepted entities are announced once each. -/
theorem Ready.count_announced
    {generation : Generation}
    {base : State}
    (ready : generation.Ready base)
    {schedule : Schedule}
    (complete : (schedule.follow generation base).isComplete = true)
    {entity : Entity}
    (member : entity ∈ generation.registry.entities) :
    ((schedule.follow generation base).announced.map EntityReport.entity).count
      entity.fullName = 1 := by
  have outcome := (Schedule.sound_follow ready schedule).isOutcome complete
  have names :
      (schedule.follow generation base).entries.map EntityReport.entity =
        generation.registry.entities.map Entity.fullName := by
    rw [outcome.entries, List.map_map]
    exact List.map_congr_left fun other _ => entity_expectedReport generation.context other
  have distinct : (generation.registry.entities.map Entity.fullName).Nodup := by
    rw [List.Nodup, List.pairwise_map]
    exact ready.apart.imp fun separate => separate.fullNames
  rw [(outcome.announced.map EntityReport.entity).count_eq, names]
  exact List.count_eq_one_of_mem distinct (List.mem_map_of_mem member)

/--
Whatever the order of the work, and however many entities are worked on at a time: a schedule that
gives every entity its steps completes the run, and every complete run comes to the outcome of
taking the entities one by one.  The end of every entity is announced exactly once.
-/
theorem everySchedule_cameTo_run
    (settings : Settings)
    (entities : List Entity)
    (generation : Generation)
    (base : State)
    (validSettings : settings.check = .ok ())
    (validEntities : ∀ entity ∈ entities, entity.check = .ok ())
    (accepted : Registry.ofEntities entities = .ok generation.registry)
    (options : generation.options = settings.naming)
    (uncancelled : generation.cancelAfter = none)
    (situated : base.store.IsSituated)
    (canWrite : generation.CanWrite base) :
    (∀ schedule : Schedule,
      (∀ position < entities.length, Artifact.all.length + 3 ≤ schedule.count position) →
        (schedule.follow generation base).isComplete = true) ∧
    ∀ schedule : Schedule,
      (schedule.follow generation base).isComplete = true →
        (schedule.follow generation base).CameTo (generation.run base) ∧
          ∀ entity ∈ entities,
            ((schedule.follow generation base).announced.map EntityReport.entity).count
              entity.fullName = 1 := by
  have ready : generation.Ready base :=
    Ready.of_accepted validSettings validEntities accepted options situated canWrite
  obtain ⟨-, registered⟩ :=
    (Registry.ofEntities_eq_ok_iff entities generation.registry).1 accepted
  have registryEntities : generation.registry.entities = entities := by rw [registered]
  rw [← registryEntities]
  constructor
  · intro schedule enough
    exact Schedule.isComplete_follow generation base schedule enough
  · intro schedule complete
    exact ⟨ready.cameTo_run uncancelled complete,
      fun entity member => ready.count_announced complete member⟩

/-! ## A run in turns -/

/-- A singleton, the interface it is over, and a service that cannot be bound. -/
def widgetEntities : List Entity :=
  [ ⟨"theWidget", ⟨["a"]⟩, .known .interfaceSingleton, none, none, some "a.Widget"⟩,
    ⟨"Widget", ⟨["a"]⟩, .known .interface, some [], none, none⟩,
    ⟨"Service", ⟨[]⟩, .known .serviceSingleton, none, none, some "a.Widget"⟩ ]

/-- The generation of all widgets under the default settings. -/
def widgetGeneration : Generation :=
  ⟨Settings.default.naming, ⟨widgetEntities⟩, 3, [], none⟩

/-- A store in memory with an outdated header, and a tree below `/out`. -/
def outdatedWidget : State :=
  ⟨⟨.memory, [], [(["out".toList, "A".toList, "Widget.hpp".toList], .file "old")], fun _ _ => none,
    fun _ => none⟩,
    .start "/out"⟩

theorem check_of_mem_widgetEntities :
    ∀ entity ∈ widgetEntities, entity.check = .ok () := by
  intro entity member
  simp only [widgetEntities, List.mem_cons, List.not_mem_nil, or_false] at member
  rcases member with rfl | rfl | rfl <;> rfl

theorem canWrite_widgetGeneration :
    widgetGeneration.CanWrite outdatedWidget :=
  canWrite_of_memory ((Settings.check_eq_ok_iff Settings.default).1 rfl).2.1
    check_of_mem_widgetEntities rfl fun _ _ => rfl

/-- Taking turns comes to the same as going one by one. -/
theorem widgets_in_turns :
    (Schedule.follow (List.replicate 6 [0, 1, 2]).flatten widgetGeneration
        outdatedWidget).CameTo (widgetGeneration.run outdatedWidget) := by
  obtain ⟨completes, comesTo⟩ :=
    everySchedule_cameTo_run Settings.default widgetEntities widgetGeneration outdatedWidget rfl
      check_of_mem_widgetEntities rfl rfl rfl (fun onDisk => Manner.noConfusion onDisk)
      canWrite_widgetGeneration
  exact (comesTo _ (completes _ (by decide))).1

end UnoBindgen.Generation
