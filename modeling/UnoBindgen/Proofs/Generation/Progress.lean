import Mathlib
import UnoBindgen.Generation.Schedule
import UnoBindgen.Proofs.Generation.Separation

/-!
# The progress of a run

At every point of a run each entity has made some of its changes, in their order.  The state shows
the changes that all entities have made so far, whoever's turn it was: that is `Sound`, which holds
at the start and is kept by every step.  When every entity is done, the state shows all changes, and
the entries of the report say what each entity gives on its own.

A run needs six steps for each entity, at most.
-/

namespace UnoBindgen.Generation

open OutputTree
open OutputTree.State

/-! ## Lists that go along with each other -/

section Lists

variable
  {Left Right Value : Type}

theorem exists_getElem?_of_forall₂
    {related : Left → Right → Prop}
    {lefts : List Left}
    {rights : List Right}
    (pairs : List.Forall₂ related lefts rights)
    {position : Nat}
    {left : Left}
    (leftAt : lefts[position]? = some left) :
    ∃ right, rights[position]? = some right ∧ related left right := by
  induction pairs generalizing position with
  | nil => simp at leftAt
  | @cons first second lefts rights pair _ induction =>
      cases position with
      | zero =>
          rw [List.getElem?_cons_zero, Option.some.injEq] at leftAt
          exact ⟨second, rfl, leftAt ▸ pair⟩
      | succ position => exact induction leftAt

theorem forall₂_set
    {related : Left → Right → Prop}
    {lefts : List Left}
    {rights : List Right}
    (pairs : List.Forall₂ related lefts rights)
    {position : Nat}
    {left : Left}
    (leftAt : lefts[position]? = some left)
    {next : Right}
    (pair : related left next) :
    List.Forall₂ related lefts (rights.set position next) := by
  induction pairs generalizing position with
  | nil => simp at leftAt
  | cons first rest induction =>
      cases position with
      | zero =>
          rw [List.getElem?_cons_zero, Option.some.injEq] at leftAt
          exact List.Forall₂.cons (leftAt ▸ pair) rest
      | succ position => exact List.Forall₂.cons first (induction leftAt)

/-- When one member of a row gains values, the row gains them. -/
theorem flatten_zipWith_set_perm
    (view : Left → Right → List Value)
    {lefts : List Left}
    {rights : List Right}
    {position : Nat}
    {left : Left}
    {right next : Right}
    (leftAt : lefts[position]? = some left)
    (rightAt : rights[position]? = some right)
    {gained : List Value}
    (gain : (view left next).Perm (gained ++ view left right)) :
    (List.zipWith view lefts (rights.set position next)).flatten.Perm
      (gained ++ (List.zipWith view lefts rights).flatten) := by
  induction lefts generalizing rights position with
  | nil => simp at leftAt
  | cons first lefts induction =>
      cases rights with
      | nil => simp at rightAt
      | cons second rights =>
          cases position with
          | zero =>
              rw [List.getElem?_cons_zero, Option.some.injEq] at leftAt rightAt
              subst leftAt rightAt
              rw [List.set_cons_zero, List.zipWith_cons_cons, List.zipWith_cons_cons,
                List.flatten_cons, List.flatten_cons, ← List.append_assoc]
              exact gain.append_right _
          | succ position =>
              rw [List.set_cons_succ, List.zipWith_cons_cons, List.zipWith_cons_cons,
                List.flatten_cons, List.flatten_cons]
              exact ((induction leftAt rightAt).append_left _).trans
                (List.perm_append_comm_assoc _ _ _)

theorem flatten_zipWith_sublist
    {view : Left → Right → List Value}
    {whole : Left → List Value}
    (part : ∀ left right, (view left right).Sublist (whole left))
    (lefts : List Left)
    (rights : List Right) :
    (List.zipWith view lefts rights).flatten.Sublist (lefts.flatMap whole) := by
  induction lefts generalizing rights with
  | nil => simp
  | cons left lefts induction =>
      cases rights with
      | nil => simp
      | cons right rights =>
          rw [List.zipWith_cons_cons, List.flatten_cons, List.flatMap_cons]
          exact (part left right).append (induction rights)

end Lists

/-! ## Stages of an entity -/

/-- The report of an entity whose changes all succeed. -/
def expectedReport (context : Emission.Context) (entity : Entity) : EntityReport :=
  match Emission.compose context entity with
  | .error fault => ⟨entity.fullName, entity.tag, [], some fault⟩
  | .ok _ =>
    ⟨entity.fullName, entity.tag,
      Artifact.all.map (Names.ofEntity context.options entity).artifactPath, none⟩

theorem entity_expectedReport
    (context : Emission.Context)
    (entity : Entity) :
    (expectedReport context entity).entity = entity.fullName := by
  rw [expectedReport]
  split <;> rfl

namespace Stage

/-- How many of its changes an entity has made. -/
def progress : Stage → Nat
  | .waiting => 0
  | .composed _ => 0
  | .placing _ rest => 1 + (Artifact.all.length - rest.length)
  | .done _ => 1 + Artifact.all.length

/-- The changes that an entity has made. -/
def applied (context : Emission.Context) (entity : Entity) (stage : Stage) : List Change :=
  (changes context entity).take stage.progress

/-- The report of an entity that is done with. -/
def ended : Stage → List EntityReport
  | .done report => [report]
  | _ => []

/-- The stages that an entity goes through while its changes succeed. -/
inductive Fits (context : Emission.Context) (entity : Entity) : Stage → Prop where
  | waiting : Fits context entity .waiting
  | composed
      {texts : Texts}
      (composed : Emission.compose context entity = .ok texts) :
      Fits context entity (.composed texts)
  | placing
      {texts : Texts}
      {rest : List Artifact}
      (composed : Emission.compose context entity = .ok texts)
      (left : rest <:+ Artifact.all) :
      Fits context entity (.placing texts rest)
  | done : Fits context entity (.done (expectedReport context entity))

theorem length_changes_le
    (context : Emission.Context)
    (entity : Entity) :
    (changes context entity).length ≤ 1 + Artifact.all.length := by
  rw [changes]
  split
  · exact Nat.zero_le _
  · exact Nat.le_of_eq (by simp [placements, Nat.add_comm])

theorem applied_done
    (context : Emission.Context)
    (entity : Entity)
    (report : EntityReport) :
    applied context entity (.done report) = changes context entity :=
  List.take_of_length_le (length_changes_le context entity)

/-- A step of a fitting stage either changes no file, or it is the next change of the entity. -/
theorem step_cases
    {context : Emission.Context}
    {entity : Entity}
    {stage : Stage}
    (fits : stage.Fits context entity)
    (state : State) :
    (∃ next, stage.step context entity state = (state, next) ∧ next.Fits context entity ∧
      next.applied context entity = stage.applied context entity) ∨
    (∃ change next, (changes context entity)[stage.progress]? = some change ∧
      next.Fits context entity ∧ next.progress = stage.progress + 1 ∧
      ∀ after, state.apply change = .ok after →
        stage.step context entity state = (after, next)) := by
  cases fits with
  | waiting =>
      left
      cases composed : Emission.compose context entity with
      | error fault =>
          have report : expectedReport context entity =
              ⟨entity.fullName, entity.tag, [], some fault⟩ := by
            rw [expectedReport, composed]
          refine ⟨.done (expectedReport context entity), ?_, .done, ?_⟩
          · simp only [step, composed, report]
          · simp [applied, changes_of_error composed]
      | ok texts =>
          exact ⟨.composed texts, by simp only [step, composed], .composed composed, rfl⟩
  | @composed texts composed =>
      right
      refine ⟨.directory (Names.ofEntity context.options entity).directory,
        .placing texts Artifact.all, ?_, .placing composed List.suffix_rfl, ?_, ?_⟩
      · rw [changes_of_ok composed]
        rfl
      · simp [progress]
      · intro after made
        rw [apply, settled_eq_ok_iff] at made
        simp only [step, prepare_eq_attempt _ _ (isEmpty_of_compose composed), made]
  | @placing texts rest composed remaining =>
      obtain ⟨before, split⟩ := remaining
      cases rest with
      | nil =>
          left
          refine ⟨.done (expectedReport context entity), ?_, .done, rfl⟩
          simp only [step, expectedReport, composed]
      | cons artifact rest =>
          right
          have length : Artifact.all.length = before.length + (rest.length + 1) := by
            rw [← split, List.length_append, List.length_cons]
          refine ⟨placement (Names.ofEntity context.options entity) texts artifact,
            .placing texts rest, ?_, .placing composed ⟨before ++ [artifact], by simp [← split]⟩,
            ?_, ?_⟩
          · have position : progress (.placing texts (artifact :: rest)) = before.length + 1 := by
              simp only [progress, List.length_cons]
              omega
            rw [changes_of_ok composed, position, placements, List.getElem?_cons_succ, ← split]
            simp
          · simp only [progress, List.length_cons]
            omega
          · intro after written
            have stepped :
                state.writeFile ((Names.ofEntity context.options entity).artifactPath artifact)
                  (texts.get artifact) = (after, none) := (settled_eq_ok_iff _ _).1 written
            simp only [step, stepped]
  | done => exact Or.inl ⟨_, rfl, .done, rfl⟩

/-- The end of an entity is announced when it is done with, and only then. -/
theorem ended_step
    (context : Emission.Context)
    (entity : Entity)
    (state : State)
    (stage : Stage) :
    (stage.step context entity state).2.ended =
      (if (stage.step context entity state).2.isDone && !stage.isDone then
        [(stage.step context entity state).2.entry]
      else
        []) ++ stage.ended := by
  cases stage with
  | done report => rfl
  | waiting => cases (step context entity state .waiting).2 <;> rfl
  | composed texts => cases (step context entity state (.composed texts)).2 <;> rfl
  | placing texts rest => cases (step context entity state (.placing texts rest)).2 <;> rfl

/-- How many steps an entity may still take. -/
def remaining : Stage → Nat
  | .waiting => Artifact.all.length + 3
  | .composed _ => Artifact.all.length + 2
  | .placing _ rest => rest.length + 1
  | .done _ => 0

theorem remaining_step_le
    (context : Emission.Context)
    (entity : Entity)
    (state : State)
    (stage : Stage) :
    (stage.step context entity state).2.remaining ≤ stage.remaining - 1 := by
  cases stage with
  | waiting =>
      simp only [step]
      split <;> simp [remaining]
  | composed texts =>
      simp only [step]
      split <;> simp [remaining]
  | placing texts rest =>
      cases rest with
      | nil => simp [step, remaining]
      | cons artifact rest =>
          simp only [step]
          split <;> simp [remaining]
  | done report => simp [step, remaining]

theorem isDone_iff_remaining_eq_zero (stage : Stage) :
    stage.isDone = true ↔ stage.remaining = 0 := by
  cases stage <;> simp [isDone, remaining]

end Stage

/-! ## Snapshots of a run -/

/-- A generation of consistent entities that are accepted together, under well-formed naming. -/
structure IsCoherent (generation : Generation) : Prop where
  wellFormed : generation.context.options.WellFormed
  checked : ∀ entity ∈ generation.registry.entities, entity.check = .ok ()
  apart : generation.registry.entities.Pairwise Entity.Apart

/-- All changes that a generation makes. -/
def allChanges (generation : Generation) : List Change :=
  generation.registry.entities.flatMap (changes generation.context)

theorem placement_mem_allChanges
    {generation : Generation}
    {entity : Entity}
    (member : entity ∈ generation.registry.entities)
    {texts : Texts}
    (composed : Emission.compose generation.context entity = .ok texts)
    (artifact : Artifact) :
    placement (Names.ofEntity generation.context.options entity) texts artifact ∈
      generation.allChanges := by
  have listed : artifact ∈ Artifact.all := by cases artifact <;> decide
  refine List.mem_flatMap.2 ⟨entity, member, ?_⟩
  rw [changes_of_ok composed]
  exact List.mem_cons_of_mem _ (List.mem_map_of_mem listed)

theorem IsCoherent.pairwise_allChanges
    {generation : Generation}
    (coherent : generation.IsCoherent)
    (base : State) :
    generation.allChanges.Pairwise base.Apart :=
  pairwise_changes coherent.wellFormed base coherent.checked coherent.apart

theorem IsCoherent.placeOf_ne_nil
    {generation : Generation}
    (coherent : generation.IsCoherent)
    (base : State)
    {change : Change}
    (member : change ∈ generation.allChanges)
    (isFile : change.IsFile) :
    base.placeOf change.relative ≠ [] := by
  obtain ⟨entity, entityMember, ofEntity⟩ := List.mem_flatMap.1 member
  exact placeOf_ne_nil_of_mem_changes coherent.wellFormed base
    (coherent.checked entity entityMember) ofEntity isFile

/-- Every entity that can be composed can be placed on its own. -/
def CanWrite (generation : Generation) (base : State) : Prop :=
  ∀ entity ∈ generation.registry.entities, ∀ texts,
    Emission.compose generation.context entity = .ok texts →
      ∃ files, (base.write (Names.ofEntity generation.options entity) texts).result = .ok files

theorem canPlace_iff
    {context : Emission.Context}
    (base : State)
    {entity : Entity}
    {texts : Texts}
    (composed : Emission.compose context entity = .ok texts) :
    (∃ files,
      (base.write (Names.ofEntity context.options entity) texts).result = .ok files) ↔
      ∃ last, base.applyAll (changes context entity) = .ok last := by
  have outcome :=
    write_of_applyAll base (Names.ofEntity context.options entity) (isEmpty_of_compose composed)
  rw [changes_of_ok composed]
  cases applied : base.applyAll (placements (Names.ofEntity context.options entity) texts) with
  | ok last =>
      rw [applied] at outcome
      simp [outcome]
  | error fault =>
      rw [applied] at outcome
      simp [outcome]

/-- A store in memory that refuses nothing can be written. -/
theorem canWrite_of_memory
    {generation : Generation}
    {base : State}
    (wellFormed : generation.context.options.WellFormed)
    (checked : ∀ entity ∈ generation.registry.entities, entity.check = .ok ())
    (memory : base.store.manner = .memory)
    (free : ∀ action place, base.store.refusal action place = none) :
    generation.CanWrite base := by
  intro entity member texts composed
  obtain ⟨last, applied⟩ := exists_applyAll_of_memory memory free
    (fun change changed =>
      placeOf_ne_nil_of_mem_changes wellFormed base (checked entity member) changed)
  exact (canPlace_iff base composed).2 ⟨last, applied⟩

/-- A generation of accepted entities, before a state in which each of them can be placed. -/
structure Ready (generation : Generation) (base : State) : Prop extends generation.IsCoherent where
  situated : base.store.IsSituated
  canWrite : generation.CanWrite base

theorem Ready.exists_applyAll
    {generation : Generation}
    {base : State}
    (ready : generation.Ready base)
    {entity : Entity}
    (member : entity ∈ generation.registry.entities) :
    ∃ last, base.applyAll (changes generation.context entity) = .ok last := by
  cases composed : Emission.compose generation.context entity with
  | error fault =>
      rw [changes_of_error composed]
      exact ⟨base, rfl⟩
  | ok texts =>
      exact (canPlace_iff base composed).1 (ready.canWrite entity member texts composed)

namespace Snapshot

/-- What the entities have to show, in their order. -/
def gather
    {Value : Type}
    (generation : Generation)
    (view : Entity → Stage → List Value)
    (snapshot : Snapshot) :
    List Value :=
  (List.zipWith view generation.registry.entities snapshot.stages).flatten

theorem gather_of_map
    {Value : Type}
    {generation : Generation}
    (view : Entity → Stage → List Value)
    {snapshot : Snapshot}
    {stageOf : Entity → Stage}
    (stages : snapshot.stages = generation.registry.entities.map stageOf) :
    snapshot.gather generation view =
      generation.registry.entities.flatMap fun entity => view entity (stageOf entity) := by
  rw [gather, stages, List.zipWith_map_right, List.zipWith_self, List.flatMap]

/-- A point of a run at which all is well: the state shows the changes that the entities have made,
and the end of an entity was announced if it is done with. -/
structure Sound (generation : Generation) (base : State) (snapshot : Snapshot) : Prop where
  fits :
    List.Forall₂ (Stage.Fits generation.context) generation.registry.entities snapshot.stages
  shows :
    base.Shows (snapshot.gather generation (Stage.applied generation.context)) snapshot.state
  announced :
    snapshot.announced.Perm (snapshot.gather generation fun _ stage => stage.ended)

theorem sound_start
    (generation : Generation)
    (base : State) :
    (start generation base).Sound generation base := by
  have waiting {Value : Type} (view : Entity → Stage → List Value)
      (nothing : ∀ entity, view entity .waiting = []) :
      (start generation base).gather generation view = [] := by
    rw [gather_of_map view rfl, List.flatMap_eq_nil_iff]
    exact fun entity _ => nothing entity
  refine ⟨?_, ?_, ?_⟩
  · exact List.forall₂_map_right_iff.2 (List.forall₂_same.2 fun _ _ => .waiting)
  · rw [waiting _ fun _ => List.take_zero]
    exact Shows.refl base
  · rw [waiting _ fun _ => rfl]
    exact List.Perm.refl []

theorem advance_of_getElem?
    {generation : Generation}
    {snapshot : Snapshot}
    {position : Nat}
    {entity : Entity}
    {stage next : Stage}
    {state : State}
    (entityAt : generation.registry.entities[position]? = some entity)
    (stageAt : snapshot.stages[position]? = some stage)
    (stepped : stage.step generation.context entity snapshot.state = (state, next)) :
    snapshot.advance generation position =
      { state := state
        stages := snapshot.stages.set position next
        announced :=
          if next.isDone && !stage.isDone then next.entry :: snapshot.announced
          else snapshot.announced } := by
  simp only [advance, entityAt, stageAt, stepped]

theorem advance_of_none
    {generation : Generation}
    (snapshot : Snapshot)
    {position : Nat}
    (outside : generation.registry.entities[position]? = none) :
    snapshot.advance generation position = snapshot := by
  simp only [advance, outside]

variable
  {generation : Generation}
  {base : State}
  {snapshot : Snapshot}

/-- The changes that the entities have made are among all changes, and so they are apart. -/
theorem pairwise_applied
    (ready : generation.Ready base)
    (snapshot : Snapshot) :
    (snapshot.gather generation (Stage.applied generation.context)).Pairwise base.Apart := by
  have among :
      (snapshot.gather generation (Stage.applied generation.context)).Sublist
        generation.allChanges := by
    apply flatten_zipWith_sublist
    intro entity stage
    exact List.take_sublist stage.progress _
  exact (ready.pairwise_allChanges base).sublist among

/-- The next change of an entity succeeds at any point of a run, because it succeeds when the entity
is placed on its own. -/
theorem Sound.exists_apply
    (ready : generation.Ready base)
    (sound : snapshot.Sound generation base)
    {position : Nat}
    {entity : Entity}
    {stage : Stage}
    (entityAt : generation.registry.entities[position]? = some entity)
    (stageAt : snapshot.stages[position]? = some stage)
    {change : Change}
    (upcoming : (changes generation.context entity)[stage.progress]? = some change)
    (apart :
      ∀ other ∈ snapshot.gather generation (Stage.applied generation.context),
        base.Apart change other) :
    ∃ after, snapshot.state.apply change = .ok after := by
  have member : entity ∈ generation.registry.entities := List.mem_of_getElem? entityAt
  have split :
      changes generation.context entity =
        stage.applied generation.context entity ++
          (change :: (changes generation.context entity).drop (stage.progress + 1)) := by
    obtain ⟨inside, found⟩ := List.getElem?_eq_some_iff.1 upcoming
    rw [Stage.applied, ← found, ← List.drop_eq_getElem_cons inside, List.take_append_drop]
  obtain ⟨last, placed⟩ := ready.exists_applyAll member
  rw [split, applyAll_append] at placed
  obtain ⟨earlier, appliedBefore, rest⟩ := placed
  have ownApart := pairwise_changes_of_entity ready.wellFormed base (ready.checked entity member)
  have before : base.Shows (stage.applied generation.context entity) earlier := by
    have shown := (Shows.refl base).applyAll
      (fun other otherMember =>
        placeOf_ne_nil_of_mem_changes ready.wellFormed base (ready.checked entity member)
          (List.mem_of_mem_take otherMember))
      (by rw [List.append_nil]; exact ownApart.sublist (List.take_sublist _ _))
      appliedBefore
    rwa [List.append_nil] at shown
  have subset :
      stage.applied generation.context entity ⊆
        snapshot.gather generation (Stage.applied generation.context) := by
    intro other otherMember
    have zipped :
        (List.zipWith (Stage.applied generation.context) generation.registry.entities
          snapshot.stages)[position]? = some (stage.applied generation.context entity) := by
      rw [List.getElem?_zipWith, entityAt, stageAt]
    exact List.mem_flatten.2 ⟨_, List.mem_of_getElem? zipped, otherMember⟩
  cases applied : earlier.apply change with
  | error fault => simp [applyAll, applied] at rest
  | ok next => exact before.apply_later sound.shows subset ready.situated apart applied

/-- What is announced after a step does not depend on what the step does to the files. -/
theorem Sound.announced_advance
    (sound : snapshot.Sound generation base)
    {position : Nat}
    {entity : Entity}
    (entityAt : generation.registry.entities[position]? = some entity)
    {stage : Stage}
    (stageAt : snapshot.stages[position]? = some stage)
    {state : State}
    {next : Stage}
    (stepped : stage.step generation.context entity snapshot.state = (state, next)) :
    (snapshot.advance generation position).announced.Perm
      ((snapshot.advance generation position).gather generation fun _ stage => stage.ended) := by
  have ends := Stage.ended_step generation.context entity snapshot.state stage
  rw [stepped] at ends
  have gathered := flatten_zipWith_set_perm (fun (_ : Entity) (stage : Stage) => stage.ended)
    entityAt stageAt (List.Perm.of_eq ends)
  rw [advance_of_getElem? entityAt stageAt stepped]
  refine List.Perm.trans ?_ gathered.symm
  split
  · exact sound.announced.cons _
  · exact sound.announced

/-- Every step keeps a run sound. -/
theorem Sound.advance
    (ready : generation.Ready base)
    (sound : snapshot.Sound generation base)
    (position : Nat) :
    (snapshot.advance generation position).Sound generation base := by
  cases entityAt : generation.registry.entities[position]? with
  | none =>
      rw [advance_of_none snapshot entityAt]
      exact sound
  | some entity =>
      obtain ⟨stage, stageAt, fits⟩ := exists_getElem?_of_forall₂ sound.fits entityAt
      have checked := ready.checked entity (List.mem_of_getElem? entityAt)
      rcases Stage.step_cases fits snapshot.state with
        ⟨next, stepped, nextFits, same⟩ | ⟨change, next, upcoming, nextFits, further, stepped⟩
      · have gain :
            (next.applied generation.context entity).Perm
              ([] ++ stage.applied generation.context entity) :=
          List.Perm.of_eq same
        have gathered := flatten_zipWith_set_perm (Stage.applied generation.context)
          entityAt stageAt gain
        refine ⟨?_, ?_, sound.announced_advance entityAt stageAt stepped⟩
        · rw [advance_of_getElem? entityAt stageAt stepped]
          exact forall₂_set sound.fits entityAt nextFits
        · rw [advance_of_getElem? entityAt stageAt stepped]
          exact sound.shows.perm gathered.symm
      · have gain :
            (next.applied generation.context entity).Perm
              ([change] ++ stage.applied generation.context entity) := by
          rw [Stage.applied, further, List.take_add_one, upcoming]
          exact List.perm_append_comm
        have gathered := flatten_zipWith_set_perm (Stage.applied generation.context)
          entityAt stageAt gain
        -- The changes made after the step are apart, and so the next one is apart from the others.
        have apart :
            ∀ other ∈ snapshot.gather generation (Stage.applied generation.context),
              base.Apart change other := by
          have pairwise := pairwise_applied ready
            { snapshot with stages := snapshot.stages.set position next }
          rw [gather, gathered.pairwise_iff Apart.symm] at pairwise
          exact (List.pairwise_cons.1 pairwise).1
        obtain ⟨after, applied⟩ := sound.exists_apply ready entityAt stageAt upcoming apart
        have follows : snapshot.state.Follows change after := by
          apply follows_of_apply _ applied
          rw [sound.shows.placeOf]
          exact placeOf_ne_nil_of_mem_changes ready.wellFormed base checked
            (List.mem_of_getElem? upcoming)
        refine ⟨?_, ?_, sound.announced_advance entityAt stageAt (stepped after applied)⟩
        · rw [advance_of_getElem? entityAt stageAt (stepped after applied)]
          exact forall₂_set sound.fits entityAt nextFits
        · rw [advance_of_getElem? entityAt stageAt (stepped after applied)]
          exact (sound.shows.cons apart follows).perm gathered.symm

/-- In a complete run every entity has its own report. -/
theorem Sound.stages_eq
    (sound : snapshot.Sound generation base)
    (complete : snapshot.isComplete = true) :
    snapshot.stages =
      generation.registry.entities.map fun entity =>
        .done (expectedReport generation.context entity) := by
  have done := List.all_eq_true.1 complete
  have fits := sound.fits
  generalize snapshot.stages = stages at done fits ⊢
  generalize generation.registry.entities = entities at fits ⊢
  induction fits with
  | nil => rfl
  | cons first _ induction =>
      rw [List.map_cons, ← induction fun other member => done other (List.mem_cons_of_mem _ member)]
      cases first with
      | done => rfl
      | waiting => exact absurd (done _ List.mem_cons_self) (by simp [Stage.isDone])
      | composed => exact absurd (done _ List.mem_cons_self) (by simp [Stage.isDone])
      | placing => exact absurd (done _ List.mem_cons_self) (by simp [Stage.isDone])

/-- The outcome of a complete run. -/
structure IsOutcome (generation : Generation) (base : State) (snapshot : Snapshot) : Prop where
  shows : base.Shows generation.allChanges snapshot.state
  entries :
    snapshot.entries = generation.registry.entities.map (expectedReport generation.context)
  announced : snapshot.announced.Perm snapshot.entries

theorem Sound.isOutcome
    (sound : snapshot.Sound generation base)
    (complete : snapshot.isComplete = true) :
    snapshot.IsOutcome generation base := by
  have stages := sound.stages_eq complete
  have entries :
      snapshot.entries = generation.registry.entities.map (expectedReport generation.context) := by
    rw [Snapshot.entries, stages, List.map_map]
    rfl
  refine ⟨?_, entries, ?_⟩
  · have shows := sound.shows
    rw [gather_of_map _ stages] at shows
    simp only [Stage.applied_done] at shows
    exact shows
  · have announced := sound.announced
    rw [gather_of_map _ stages] at announced
    rw [entries]
    exact announced.trans (List.Perm.of_eq List.map_eq_flatMap.symm)

end Snapshot

namespace Schedule

/-- Every schedule keeps a run sound. -/
theorem sound_follow
    {generation : Generation}
    {base : State}
    (ready : generation.Ready base)
    (schedule : Schedule) :
    (schedule.follow generation base).Sound generation base := by
  rw [follow]
  generalize snapshotIs : Snapshot.start generation base = snapshot
  have sound : snapshot.Sound generation base := snapshotIs ▸ Snapshot.sound_start generation base
  clear snapshotIs
  induction schedule generalizing snapshot with
  | nil => exact sound
  | cons position rest induction => exact induction _ (sound.advance ready position)

end Schedule

end UnoBindgen.Generation
