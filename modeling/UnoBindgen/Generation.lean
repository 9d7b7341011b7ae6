import UnoBindgen.Emission
import UnoBindgen.OutputTree
import UnoBindgen.Schema

/-!
# Generation

A run emits every entity and places its artifacts.  An entity that fails is noted in the report
and does not keep the others from being generated.  A run may be called off between entities; the
entries of those that were not started then stay blank.
-/

namespace UnoBindgen

/-- What became of an entity. -/
structure EntityReport where
  entity : Text
  tag : KindTag
  /-- The placed files, relative to the root. -/
  files : List Text
  fault? : Option Fault
  deriving DecidableEq, Repr

namespace EntityReport

/-- The entry of an entity that was not started. -/
def blank : EntityReport := ⟨[], .other 0, [], none⟩

/-- Whether the entity was generated. -/
def hasSucceeded (report : EntityReport) : Bool :=
  report.fault?.isNone

/-- Whether the kind of the entity is not supported. -/
def isSkipped (report : EntityReport) : Bool :=
  match report.fault? with
  | some fault => fault.carries .notImplemented
  | none => false

/-- Whether the entity failed for any other reason. -/
def hasFailed (report : EntityReport) : Bool :=
  report.fault?.isSome && !report.isSkipped

end EntityReport

/-- What became of all entities, in their given order. -/
structure Report where
  runId : Text
  entries : List EntityReport
  deriving DecidableEq, Repr

namespace Report

/-- The entities that were generated. -/
def succeeded (report : Report) : List EntityReport :=
  report.entries.filter EntityReport.hasSucceeded

/-- The entities whose kind is not supported. -/
def skipped (report : Report) : List EntityReport :=
  report.entries.filter EntityReport.isSkipped

/-- The entities that failed. -/
def failed (report : Report) : List EntityReport :=
  report.entries.filter EntityReport.hasFailed

/-- The faults of all failed entities as one, of which the first is reported. -/
def fault? (report : Report) : Option Fault :=
  report.failed.foldl (fun combined entry => Fault.combine combined entry.fault?) none

end Report

namespace Schema

/-- Schemas that were loaded together. -/
structure Loaded where
  schemas : List Schema
  registry : Registry
  deriving DecidableEq, Repr

/-- Read a schema file of a store. -/
def load (store : FileStore) (path : Text) : Except Fault Schema :=
  match store.read path with
  | .error fault => .error (.within ("failed to read schema " ++ path) fault)
  | .ok content => (read path content).1

/-- Load schemas and register all of their entities together, so that a singleton of one file can
name an interface of another. -/
def loadAll (store : FileStore) (paths : List Text) : Except Fault Loaded := do
  let schemas ← paths.mapM (load store)
  let registry ← Registry.ofEntities (schemas.flatMap Schema.entities)
  return ⟨schemas, registry⟩

end Schema

/-- What a run is asked to do. -/
structure Generation where
  options : NamingOptions
  /-- The entities to generate, which are also those that singletons find their bases in. -/
  registry : Registry
  /-- How many entities may be generated at a time; nothing of the outcome depends on it. -/
  workers : Int
  runId : Text
  /-- After how many entities the run is called off, if it is. -/
  cancelAfter : Option Nat
  deriving DecidableEq, Repr

namespace Generation

/-- What all emissions of the run share. -/
def context (generation : Generation) : Emission.Context :=
  ⟨generation.options, generation.registry⟩

/-- The part of the program that the records of a run come from. -/
def component : Text := "typegen.runner"

/-- What the records of a run have in common. -/
def logContext (generation : Generation) : Log.Context :=
  ⟨generation.runId, component⟩

/-- Emit an entity and place its artifacts: the state it leaves, and its report. -/
def generateEntity (context : Emission.Context) (entity : Entity) (state : OutputTree.State) :
    OutputTree.State × EntityReport :=
  match Emission.compose context entity with
  | .error fault => (state, ⟨entity.fullName, entity.tag, [], some fault⟩)
  | .ok texts =>
    let outcome := state.write (Names.ofEntity context.options entity) texts
    match outcome.result with
    | .error fault => (outcome.state, ⟨entity.fullName, entity.tag, [], some fault⟩)
    | .ok files => (outcome.state, ⟨entity.fullName, entity.tag, files, none⟩)

/-- Generate entities one after the other. -/
def generateAll (context : Emission.Context) :
    List Entity → OutputTree.State → OutputTree.State × List EntityReport
  | [], state => (state, [])
  | entity :: rest, state =>
    let (next, report) := generateEntity context entity state
    let (last, reports) := generateAll context rest next
    (last, report :: reports)

/-- The entities that are started. -/
def started (generation : Generation) : List Entity :=
  match generation.cancelAfter with
  | some count => generation.registry.entities.take count
  | none => generation.registry.entities

/-- The outcome of a run: what it leaves, its report, and the fault of a run that was called
off. -/
structure Outcome where
  state : OutputTree.State
  report : Report
  fault? : Option Fault

/-- Run a generation. -/
def run (generation : Generation) (state : OutputTree.State) : Outcome :=
  let (last, reports) := generateAll generation.context generation.started state
  let blanks :=
    List.replicate (generation.registry.size - generation.started.length) EntityReport.blank
  { state := last
    report := ⟨generation.runId, reports ++ blanks⟩
    fault? :=
      match generation.cancelAfter with
      | some _ => some (.within "generation cancelled" .cancelled)
      | none => none }

/-! ## Log records of a run -/

/-- The record about an entity that is done with. -/
def entityRecord (context : Log.Context) (report : EntityReport) : Log.Record :=
  let about : List (Text × Log.FieldValue) :=
    [("entity".toList, .text report.entity), ("kind".toList, .text report.tag.name)]
  match report.fault? with
  | none =>
    context.record .debug "Entity generated"
      (about ++ [("count".toList, .number report.files.length)])
  | some fault =>
    let about := about ++ [("error".toList, .text fault.message)]
    if report.isSkipped then
      context.record .warn "Entity kind not supported, skipped" about
    else
      context.record .error "Entity failed" about

/-- The records about an entity: of its emission, of placing it, and of being done with it. -/
def recordsOfEntity (generation : Generation) (tree : OutputTree)
    (entity : Entity) (report : EntityReport) : List Log.Record :=
  let names := Names.ofEntity generation.options entity
  Emission.records generation.context entity ++
    (if report.hasSucceeded then [tree.placedRecord names] else []) ++
    [entityRecord generation.logContext report]

/-- The records of a run in the order of the work, for a run that generates one entity at a
time. -/
def records (generation : Generation) (tree : OutputTree) (outcome : Outcome) :
    List Log.Record :=
  let starting :=
    generation.logContext.record .info "Starting generation"
      [ ("count".toList, .number generation.registry.size),
        ("workers".toList, .number generation.workers) ]
  let during :=
    (generation.started.zip outcome.report.entries).flatMap fun (entity, report) =>
      generation.recordsOfEntity tree entity report
  let finished :=
    match outcome.fault? with
    | some _ => []
    | none =>
      [ generation.logContext.record .info "Generation finished"
          [ ("succeeded".toList, .number outcome.report.succeeded.length),
            ("skipped".toList, .number outcome.report.skipped.length),
            ("failed".toList, .number outcome.report.failed.length) ] ]
  starting :: during ++ finished

end Generation

end UnoBindgen
