import UnoBindgen.Cli.Command
import UnoBindgen.Comparison
import UnoBindgen.Generation
import UnoBindgen.Release
import UnoBindgen.Settings.Layers
import UnoBindgen.Show.Json
import UnoBindgen.Show.Table
import UnoBindgen.Show.Yaml

/-!
# Running commands

A command reads the settings and the files it finds around it, and gives the files it leaves, what
it prints, and perhaps a fault.  All of it is a function of the surroundings; the outer program
only fetches files and puts them back.
-/

namespace UnoBindgen.Cli

/-- A line that starts in a given way. -/
def line (start rest : Text) : Text :=
  start ++ rest ++ "\n"

/-- What a command leaves and prints. -/
structure Outcome where
  store : FileStore
  /-- What is printed, once it is known how long the work took. -/
  printed : Text → Text
  fault? : Option Fault

namespace Outcome

/-- A command that changed no file. -/
def onlyPrinting (store : FileStore) (text : Text) : Outcome :=
  ⟨store, fun _ => text, none⟩

/-- A command that failed before it did anything. -/
def failing (store : FileStore) (fault : Fault) : Outcome :=
  ⟨store, fun _ => [], some fault⟩

/-- How the program ends: with zero, with one when generated files are out of date, and with two
for any other fault. -/
def exitCode (outcome : Outcome) : UInt32 :=
  match outcome.fault? with
  | none => 0
  | some fault => if fault.carries .outOfDate then 1 else 2

/-- What is said about a fault: its message and its hints. -/
def complaint (outcome : Outcome) : Text :=
  match outcome.fault? with
  | none => []
  | some fault =>
    line "Error: " fault.message ++ fault.hints.flatMap (line "Hint: ")

end Outcome

/-! ## Generating -/

/-- The settings of a run: those that were loaded, with the flags over them. -/
def runSettings (settings : Settings) (values : FlagValues) : Except Fault Settings :=
  let resolved : Settings :=
    { settings with
      outputRoot := if values.output.isEmpty then settings.outputRoot else values.output
      workers := if values.workers < 0 then settings.workers else values.workers }
  match resolved.check with
  | .ok _ => .ok resolved
  | .error fault =>
    .error
      (.hinted "run 'hsuno am show --sources' to see where each setting comes from"
        (.within "configuration validation failed" fault))

/-- Load schemas and generate all of their entities below a root. -/
def generateInto (settings : Settings) (schemas : List Text) (root : Text) (store : FileStore) :
    Except Fault Generation.Outcome :=
  match Schema.loadAll store schemas with
  | .error fault => .error fault
  | .ok loaded =>
    let generation : Generation :=
      { options := settings.naming
        registry := loaded.registry
        workers := settings.workers
        runId := []
        cancelAfter := none }
    .ok (generation.run ⟨store, .start root⟩)

/-- A line about an entity. -/
def entityNotice (label : Show.Label) (entry : EntityReport) : Text :=
  Show.notice label (entry.entity ++ ": " ++ ((entry.fault?.map Fault.message).getD []))

/-- The table at the end of a report. -/
def summaryTable (report : Report) (tree : OutputTree) (elapsed : Text) : Text :=
  Show.table
    [ Text.words
        ["Entities", "Generated", "Skipped", "Failed", "Files written", "Unchanged", "Time"],
      [ Text.ofNat report.entries.length, Text.ofNat report.succeeded.length,
        Text.ofNat report.skipped.length, Text.ofNat report.failed.length,
        Text.ofNat tree.written.length, Text.ofNat tree.unchanged.length, elapsed ] ]

/-- What is printed about a generation: the written files, the entities that were not generated,
and a summary. -/
def reportText (report : Report) (tree : OutputTree) (elapsed : Text) : Text :=
  tree.sortedWritten.flatMap (line "✓ ") ++
    report.skipped.flatMap (entityNotice .warning) ++
    report.failed.flatMap (entityNotice .error) ++
    summaryTable report tree elapsed

/-- The fault of a generation in which entities failed. -/
def reportFault? (report : Report) : Option Fault :=
  report.fault?.map fun fault =>
    .hinted "re-run with -vv to see skipped members and placeholders"
      (.within
        (Text.ofNat report.failed.length ++ " of " ++ Text.ofNat report.entries.length ++
          " entities failed")
        fault)

/-- Generate the bindings of schema files. -/
def generate (settings : Settings) (invocation : Invocation) (store : FileStore) : Outcome :=
  match runSettings settings invocation.values with
  | .error fault => .failing store fault
  | .ok resolved =>
    match generateInto resolved invocation.arguments resolved.outputRoot store with
    | .error fault => .failing store fault
    | .ok outcome =>
      { store := outcome.state.store
        printed := reportText outcome.report outcome.state.tree
        fault? := reportFault? outcome.report }

/-! ## Checking -/

/-- The directory in which temporary directories are made. -/
def temporaryRoot (environment : List (Text × Text)) : Text :=
  match environment.lookup "TMPDIR".toList with
  | some directory => if directory.isEmpty then "/tmp" else directory
  | none => "/tmp"

/-- A temporary directory, by a number. -/
def temporaryPath (directory : Text) (number : Nat) : Text :=
  (if directory.endsWith ['/'] then directory else directory ++ "/") ++ "hsuno-check-" ++
    Text.ofNat number

/-- A temporary directory that nothing is at.  There are more numbers to try than there are
files. -/
def unusedPath (directory : Text) (store : FileStore) : Text :=
  temporaryPath directory
    (((List.range (store.nodes.length + 1)).find? fun number =>
      (store.stat (temporaryPath directory number)).toOption.isNone).getD 0)

/-- Make a temporary directory.  The directory it is made in has to be there. -/
def makeTemporary (directory : Text) (store : FileStore) : Except Fault (Text × FileStore) :=
  let path := unusedPath directory store
  match store.makeDirectory path with
  | (made, none) => .ok (path, made)
  | (_, some fault) =>
    match store.stat directory with
    | .ok _ => .error fault
    | .error absence =>
      .error (if fault.isMissingFile && absence.isMissingFile then absence else fault)

/-- A titled list of files, if there are any. -/
def fileList (title : Text) (files : List Text) : Text :=
  if files.isEmpty then
    []
  else
    "\n" ++ title ++ ":\n" ++ files.flatMap (line "  - ")

/-- What is printed about a comparison. -/
def comparisonText (comparison : Comparison) : Text :=
  if comparison.isUpToDate then
    Show.notice .success "Bindings are up to date"
  else
    Show.notice .error "Bindings are out of date" ++
      fileList "Changed" comparison.differences ++
      fileList "Missing" comparison.missing ++
      fileList "Stale" comparison.stale

/-- Compare a fresh generation with the files below the output root. -/
def freshComparison (settings : Settings) (schemas : List Text) (directory : Text)
    (store : FileStore) : Except Fault Comparison :=
  match makeTemporary directory store with
  | .error fault => .error (.within "failed to create temp directory" fault)
  | .ok (fresh, made) =>
    match generateInto settings schemas fresh made with
    | .error fault => .error fault
    | .ok outcome =>
      match outcome.report.fault? with
      | some fault =>
        .error
          (.hinted "run 'hsuno generate' to see the failures"
            (.within "cannot check bindings while entities fail to generate" fault))
      | none =>
        match
          Comparison.ofTrees outcome.state.store fresh settings.outputRoot settings.naming with
        | .error fault => .error (.within "failed to compare directories" fault)
        | .ok comparison => .ok comparison

/-- Check that the bindings of schema files are up to date.  The fresh generation goes into a
temporary directory, which is removed again, so that no file is changed in the end. -/
def check (settings : Settings) (invocation : Invocation) (surroundings : Surroundings) :
    Outcome :=
  let store := surroundings.store
  let opening : Text := "Checking generated bindings...\n"
  match runSettings settings invocation.values with
  | .error fault => .failing store fault
  | .ok resolved =>
    match
      freshComparison resolved invocation.arguments (temporaryRoot surroundings.environment)
        store with
    | .error fault => ⟨store, fun _ => opening, some fault⟩
    | .ok comparison =>
      { store := store
        printed := fun _ => opening ++ comparisonText comparison
        fault? :=
          comparison.fault?.map
            (.hinted "run 'hsuno generate' with the same schemas to update them") }

/-! ## Settings -/

/-- All values in effect as a table. -/
def sourcesTable (listed : List Settings.Listed) : Text :=
  Show.table
    (Text.words ["Key", "Value", "Source", "From"] ::
      listed.map fun entry =>
        [ entry.key, Settings.shown entry.value, entry.origin.source.name, entry.origin.path ])

/-- Settings in a format, if the format is known. -/
def settingsIn? (format : Text) (settings : Settings) : Option Text :=
  let heading : Text := "# hsuno configuration\n"
  if format = "json".toList then
    some (Show.json 0 (.table settings.document) ++ "\n")
  else if format = "yaml".toList then
    some (heading ++ Show.yamlEntries 0 settings.document)
  else if format = "toml".toList then
    some (heading ++ Toml.print settings.document)
  else
    none

/-- Show the settings, or where each value comes from. -/
def showSettings (settings : Settings) (memory : Settings.Memory) (invocation : Invocation)
    (surroundings : Surroundings) : Outcome :=
  let store := surroundings.store
  if invocation.values.sources then
    match (memory.list surroundings).1 with
    | .ok listed => .onlyPrinting store (sourcesTable listed)
    | .error fault => .failing store fault
  else
    match settingsIn? invocation.values.format settings with
    | some text => .onlyPrinting store text
    | none =>
      .failing store
        (.plain
          ("unsupported format: " ++ invocation.values.format ++
            " (supported: toml, json, yaml)"))

/-- Show the value of a key. -/
def getSetting (memory : Settings.Memory) (key : Text) (surroundings : Surroundings) : Outcome :=
  let store := surroundings.store
  match (memory.find? surroundings key).1 with
  | some value => .onlyPrinting store (Settings.shown value.sortKeys ++ "\n")
  | none => .failing store (.plain ("configuration key " ++ key.quote ++ " not found"))

/-- The value that a word on the command line most likely means: a number, a truth value, or
itself. -/
def guessedValue (word : Text) : Toml.Value :=
  match word.decimalWord?, word.truth? with
  | some number, _ => .integer number
  | none, some truth => .truth truth
  | none, none => .text word

/-- The working directory as a path. -/
def workingPath (store : FileStore) : Text :=
  Text.SlashPath.ofSegments true store.workingDirectory

/-- The outcome of work on the file store. -/
def ofFileWork {α : Type} (work : FileWork α) (said : α → Text) (store : FileStore) : Outcome :=
  match work store with
  | (.ok value, after) => .onlyPrinting after (said value)
  | (.error fault, after) => .failing after fault

/-- Give a key a value in the file of settings of the working directory. -/
def setSetting (key word : Text) (store : FileStore) : Outcome :=
  let path := Text.SlashPath.join [workingPath store, Settings.fileName]
  ofFileWork (Settings.setValue .toml path key (guessedValue word))
    (fun _ => Show.notice .success ("Set " ++ key ++ " in " ++ path)) store

/-- Write the default settings to the file of settings of the working directory. -/
def createSettings (force : Bool) (store : FileStore) : Outcome :=
  ofFileWork (Settings.createFile .toml (workingPath store) force)
    (fun path => Show.notice .success ("Wrote " ++ path)) store

/-- Check the settings. -/
def checkSettings (settings : Settings) (store : FileStore) : Outcome :=
  match settings.check with
  | .ok _ => .onlyPrinting store "✓ Configuration is valid\n"
  | .error fault => .failing store (.within "configuration validation failed" fault)

/-! ## The release -/

/-- The release as a document. -/
def releaseDocument (release : Release) : Toml.Table :=
  [ ("commit_hash", .text release.commit), ("build_time", .text release.built),
    ("version", .text release.version), ("go_version", .text release.toolchain),
    ("platform", .text release.platform) ]

/-- What is printed about the release. -/
def releaseText (release : Release) (asJson : Bool) : Text :=
  if asJson then
    Show.json 0 (.table (releaseDocument release)) ++ "\n"
  else
    release.description ++ "\nPlatform: " ++ release.platform ++ "\nGo: " ++
      release.toolchain ++ "\n"

/-! ## The whole program -/

/-- The directory whose files a command line is about, if it is about any. -/
def concernedRoot? (surroundings : Surroundings) (arguments : List Text) : Option Text :=
  match readCommandLine arguments, (Settings.Memory.empty.load surroundings).1 with
  | .ok invocation, .ok settings =>
    match invocation.command, runSettings settings invocation.values with
    | .generate, .ok resolved => some resolved.outputRoot
    | .check, .ok resolved => some resolved.outputRoot
    | _, _ => none
  | _, _ => none

/-- Run a command with the settings that were loaded for it. -/
def runCommand (release : Release) (surroundings : Surroundings) (settings : Settings)
    (memory : Settings.Memory) (invocation : Invocation) : Outcome :=
  let store := surroundings.store
  match invocation.command, invocation.arguments with
  | .generate, _ => generate settings invocation store
  | .check, _ => check settings invocation surroundings
  | .showSettings, _ => showSettings settings memory invocation surroundings
  | .getSetting, key :: _ => getSetting memory key surroundings
  | .setSetting, key :: word :: _ => setSetting key word store
  | .createSettings, _ => createSettings invocation.values.force store
  | .checkSettings, _ => checkSettings settings store
  | .version, _ => .onlyPrinting store (releaseText release invocation.values.jsonOutput)
  | _, _ => .onlyPrinting store []

/-- Run the program with the arguments of its command line.  The settings are loaded before any
command runs. -/
def run (release : Release) (surroundings : Surroundings) (arguments : List Text) : Outcome :=
  match readCommandLine arguments with
  | .error fault => .failing surroundings.store fault
  | .ok invocation =>
    if invocation.values.help then
      .onlyPrinting surroundings.store []
    else
      match Settings.Memory.empty.load surroundings with
      | (.error fault, _) =>
        .failing surroundings.store (.within "failed to load configuration" fault)
      | (.ok settings, memory) => runCommand release surroundings settings memory invocation

end UnoBindgen.Cli
