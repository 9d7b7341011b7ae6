import UnoBindgen.Generation

/-!
# The course of a generation

A run seen from outside of what takes its results.  An entity is started, which composes its texts
and hands them to the sink, and at some time the sink answers.  Nothing is known about the sink:
what it answers, and when, is part of the course of the run.  At any time the run may be called
off; from then on no entity is started, and those that were started are still waited for.
-/

namespace UnoBindgen.Generation

/-- How far the work on an entity has come. -/
inductive Phase where
  /-- It was not started. -/
  | waiting
  /-- Its texts were handed to the sink, which has not answered. -/
  | handed (texts : Texts)
  /-- It is done with. -/
  | done (report : EntityReport)
  deriving DecidableEq, Repr

namespace Phase

/-- The entry of the report, which is blank until the entity is done with. -/
def entry : Phase → EntityReport
  | .done report => report
  | _ => .blank

/-- Whether the sink has still to answer. -/
def isHanded : Phase → Bool
  | .handed _ => true
  | _ => false

/-- Whether the work is finished. -/
def isDone : Phase → Bool
  | .done _ => true
  | _ => false

end Phase

/-- What can happen in a run. -/
inductive Event where
  /-- The entity at a position is started. -/
  | start (position : Nat)
  /-- The sink answers for the entity at a position: with paths, and with a fault if it did not
  accept the texts. -/
  | answer (position : Nat) (files : List Text) (fault? : Option Fault)
  /-- The run is called off. -/
  | callOff
  deriving DecidableEq, Repr

/-- What a sink has accepted, and the paths it gave for it. -/
structure Acceptance where
  position : Nat
  names : Names
  texts : Texts
  files : List Text
  deriving DecidableEq, Repr

/-- A run at some point: how far each entity has come, what the sink has accepted, the latest
first, and whether the run was called off. -/
structure Course where
  phases : List Phase
  accepted : List Acceptance
  isCalledOff : Bool
  deriving DecidableEq, Repr

namespace Course

/-- A run before anything has happened. -/
def start (entities : List Entity) : Course :=
  ⟨entities.map fun _ => .waiting, [], false⟩

/-- Start the entity at a position, unless the run was called off. -/
def startAt (context : Emission.Context) (entities : List Entity) (course : Course)
    (position : Nat) : Course :=
  match entities[position]?, course.phases[position]? with
  | some entity, some .waiting =>
    if course.isCalledOff then
      course
    else
      let phase :=
        match Emission.compose context entity with
        | .error fault => .done ⟨entity.fullName, entity.tag, [], some fault⟩
        | .ok texts => .handed texts
      { course with phases := course.phases.set position phase }
  | _, _ => course

/-- Take the answer of the sink for the entity at a position. -/
def answerAt (context : Emission.Context) (entities : List Entity) (course : Course)
    (position : Nat) (files : List Text) (fault? : Option Fault) : Course :=
  match entities[position]?, course.phases[position]? with
  | some entity, some (.handed texts) =>
    { course with
      phases :=
        course.phases.set position (.done ⟨entity.fullName, entity.tag, files, fault?⟩)
      accepted :=
        if fault?.isNone then
          ⟨position, Names.ofEntity context.options entity, texts, files⟩ :: course.accepted
        else
          course.accepted }
  | _, _ => course

/-- Let something happen.  What cannot happen changes nothing. -/
def occur (context : Emission.Context) (entities : List Entity) (course : Course) :
    Event → Course
  | .start position => course.startAt context entities position
  | .answer position files fault? => course.answerAt context entities position files fault?
  | .callOff => { course with isCalledOff := true }

/-- The run after some events. -/
def follow (context : Emission.Context) (entities : List Entity) (events : List Event) :
    Course :=
  events.foldl (occur context entities) (start entities)

/-- The report so far. -/
def report (course : Course) (runId : Text) : Report :=
  ⟨runId, course.phases.map Phase.entry⟩

/-- Whether every entity is done with. -/
def isComplete (course : Course) : Bool :=
  course.phases.all Phase.isDone

/-- Whether the run is over: nothing that was started is left unfinished, and everything was
started unless the run was called off. -/
def hasEnded (course : Course) : Bool :=
  course.phases.all (fun phase => !phase.isHanded) && (course.isCalledOff || course.isComplete)

end Course

end UnoBindgen.Generation
