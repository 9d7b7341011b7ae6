import UnoBindgen.Generation

/-!
# Schedules of a generation

Several entities may be worked on at a time.  The work on an entity is a row of steps: compose its
texts, make its directory, then bring one file after the other to its content.  A schedule says
whose step is next, and following it gives a snapshot of the run.  A run ends when every entity
that was started is done with; if it was not called off, that is every entity.

`Generation.run` is the run in which each entity is done with before the next one is started.
-/

namespace UnoBindgen.Generation

/-- How far the work on an entity has come. -/
inductive Stage where
  /-- It was not started. -/
  | waiting
  /-- Its texts are known, and its directory is still to be made. -/
  | composed (texts : Texts)
  /-- Its directory is there, and these artifacts are still to be placed. -/
  | placing (texts : Texts) (rest : List Artifact)
  /-- It is done with. -/
  | done (report : EntityReport)
  deriving DecidableEq, Repr

namespace Stage

/-- The entry of the report, which is blank until the entity is done with. -/
def entry : Stage → EntityReport
  | .done report => report
  | _ => .blank

/-- Whether the work is finished. -/
def isDone : Stage → Bool
  | .done _ => true
  | _ => false

/-- One step of the work on an entity: the state it leaves, and how far the work has come. -/
def step (context : Emission.Context) (entity : Entity) (state : OutputTree.State) :
    Stage → OutputTree.State × Stage
  | .waiting =>
    match Emission.compose context entity with
    | .error fault => (state, .done ⟨entity.fullName, entity.tag, [], some fault⟩)
    | .ok texts => (state, .composed texts)
  | .composed texts =>
    match state.prepare (Names.ofEntity context.options entity) texts with
    | (left, some fault) => (left, .done ⟨entity.fullName, entity.tag, [], some fault⟩)
    | (prepared, none) => (prepared, .placing texts Artifact.all)
  | .placing _ [] =>
    let files := Artifact.all.map (Names.ofEntity context.options entity).artifactPath
    (state, .done ⟨entity.fullName, entity.tag, files, none⟩)
  | .placing texts (artifact :: rest) =>
    let path := (Names.ofEntity context.options entity).artifactPath artifact
    match state.writeFile path (texts.get artifact) with
    | (left, some fault) => (left, .done ⟨entity.fullName, entity.tag, [], some fault⟩)
    | (next, none) => (next, .placing texts rest)
  | .done report => (state, .done report)

end Stage

/-- A run at some point: the files, how far each entity has come, and the entities whose end was
announced, the latest first. -/
structure Snapshot where
  state : OutputTree.State
  stages : List Stage
  announced : List EntityReport

namespace Snapshot

/-- A run before its first step. -/
def start (generation : Generation) (state : OutputTree.State) : Snapshot :=
  ⟨state, generation.registry.entities.map fun _ => .waiting, []⟩

/-- Let the entity at a position take its next step.  An entity that is done with stays as it is,
and its end is announced once. -/
def advance (generation : Generation) (snapshot : Snapshot) (position : Nat) : Snapshot :=
  match generation.registry.entities[position]?, snapshot.stages[position]? with
  | some entity, some stage =>
    let (state, next) := stage.step generation.context entity snapshot.state
    { state := state
      stages := snapshot.stages.set position next
      announced :=
        if next.isDone && !stage.isDone then next.entry :: snapshot.announced
        else snapshot.announced }
  | _, _ => snapshot

/-- The entries of the report so far. -/
def entries (snapshot : Snapshot) : List EntityReport :=
  snapshot.stages.map Stage.entry

/-- Whether every entity is done with. -/
def isComplete (snapshot : Snapshot) : Bool :=
  snapshot.stages.all Stage.isDone

end Snapshot

/-- Whose step is next, as positions in the list of entities. -/
abbrev Schedule : Type := List Nat

namespace Schedule

/-- The run after the steps of a schedule. -/
def follow (schedule : Schedule) (generation : Generation) (state : OutputTree.State) : Snapshot :=
  schedule.foldl (Snapshot.advance generation) (Snapshot.start generation state)

/-- The steps of the work on one entity, of which some are idle if it fails. -/
def stepsOfEntity (position : Nat) : Schedule :=
  List.replicate (Artifact.all.length + 3) position

/-- The schedule that is done with each entity before it starts the next. -/
def oneByOne (count : Nat) : Schedule :=
  (List.range count).flatMap stepsOfEntity

end Schedule

end UnoBindgen.Generation
