import Mathlib
import UnoBindgen.Cli.Run
import UnoBindgen.Proofs.Generation.Freshness
import UnoBindgen.Proofs.Schema.Loading
import UnoBindgen.Proofs.Settings.Acceptance

/-!
# Checking after generating

After a generation without failures a check finds every generated file in place, and a second
generation finds nothing to do.  A file is stale when it was below the output root before, looks
generated, and is not.

This holds as long as the generation does not write over its own schemas, a temporary directory can
be made, the output root is not above it, and the root, as it is spelled, leads to its place: a
generation goes to the place that the root names, but a comparison follows its spelling.  In memory a
file can also be written where a directory is, and it then stays a directory; on disk it cannot.
-/

namespace UnoBindgen.Cli

open FileStore
open OutputTree
open OutputTree.State

/-! ## A directory to work in -/

/-- How the names of directories for temporary files start. -/
def temporaryStem : Text := "hsuno-check-"

/-- The name of a directory for temporary files, by a number. -/
def temporaryName (number : Nat) : Text :=
  temporaryStem ++ Text.ofNat number

theorem isPlain_temporaryName (number : Nat) :
    Text.SlashPath.IsPlain (temporaryName number) := by
  have stem : temporaryStem = 'h' :: "suno-check-".toList := by decide +kernel
  have shape : temporaryName number = 'h' :: ("suno-check-".toList ++ Text.ofNat number) := by
    rw [temporaryName, stem, List.cons_append]
  have notDot (rest : Text) : temporaryName number ≠ '.' :: rest := by
    rw [shape]
    intro same
    exact absurd (List.cons.inj same).1 (by decide)
  have noSlash : '/' ∉ temporaryName number := by
    rw [temporaryName, List.mem_append, not_or]
    refine ⟨by decide +kernel, fun member => ?_⟩
    exact absurd (Nat.isDigit_of_mem_toDigits (by decide) (by decide) member) (by decide)
  exact ⟨by rw [shape]; exact List.cons_ne_nil _ _, notDot [], notDot ['.'], noSlash⟩

theorem temporaryName_injective :
    Function.Injective temporaryName := by
  intro first second same
  have digits := congrArg (fun text => Nat.ofDigitChars 10 text 0) (List.append_cancel_left same)
  simpa [Text.ofNat] using digits

/-- What stands before the name of a temporary directory. -/
def temporaryFront (directory : Text) : Text :=
  if directory.endsWith ['/'] then directory else directory ++ "/"

theorem temporaryPath_eq
    (directory : Text)
    (number : Nat) :
    temporaryPath directory number = temporaryFront directory ++ temporaryName number :=
  List.append_assoc _ _ _

theorem temporaryRoot_ne_nil (environment : List (Text × Text)) :
    temporaryRoot environment ≠ [] := by
  rw [temporaryRoot]
  split
  · split
    · decide
    · rename_i nonempty
      simpa using nonempty
  · decide

/-- A temporary directory can be made below a directory: no file is in its way, and on disk the
directory is there. -/
structure HoldsTemporary (store : FileStore) (directory : Text) : Prop where
  clear : ∀ above, above <+: store.place directory → ¬ store.HasFile above
  reaches : store.Reaches directory
  present : store.manner = .disk → store.HasDirectory (store.place directory)

instance (store : FileStore) (directory : Text) : Decidable (HoldsTemporary store directory) :=
  decidable_of_iff
    ((∀ above ∈ (store.place directory).inits, ¬ store.HasFile above) ∧
      store.Reaches directory ∧
      (store.manner = .disk → store.HasDirectory (store.place directory)))
    ⟨fun ⟨clear, reaches, present⟩ =>
        ⟨fun above upper => clear above ((List.mem_inits _ _).2 upper), reaches, present⟩,
      fun ⟨clear, reaches, present⟩ =>
        ⟨fun above upper => clear above ((List.mem_inits _ _).1 upper), reaches, present⟩⟩

section Temporary

variable
  {store : FileStore}
  {directory : Text}
  (named : directory ≠ [])

/-- The front of a temporary path names the same place, and is split at the same slashes. -/
theorem temporaryFront_cases
    (directory : Text) :
    (∃ before, directory = before ++ ['/'] ∧ temporaryFront directory = directory) ∨
      temporaryFront directory = directory ++ ['/'] := by
  rw [temporaryFront]
  split
  · rename_i ends
    obtain ⟨before, same⟩ := List.isSuffixOf_iff_suffix.1 ends
    exact .inl ⟨before, same.symm, rfl⟩
  · exact .inr rfl

theorem temporaryFront_ends (directory : Text) :
    ∃ before, temporaryFront directory = before ++ ['/'] := by
  rcases temporaryFront_cases directory with ⟨before, same, front⟩ | front
  · exact ⟨before, front.trans same⟩
  · exact ⟨directory, front⟩

theorem splitAt_append_slash (directory : Text) :
    Text.splitAt '/' (directory ++ ['/']) = directory.splitAt '/' ++ [[]] := by
  rw [Text.splitAt_append]
  rfl

include named

theorem isRooted_append_slash :
    Text.SlashPath.isRooted (directory ++ ['/']) = Text.SlashPath.isRooted directory := by
  cases directory with
  | nil => exact (named rfl).elim
  | cons first rest => rw [List.cons_append, Text.SlashPath.isRooted_cons,
      Text.SlashPath.isRooted_cons]

theorem place_temporaryPath (number : Nat) :
    store.place (temporaryPath directory number) =
      store.place directory ++ [temporaryName number] := by
  rw [temporaryPath_eq, place_append_of_isPlain store (.inr (temporaryFront_ends directory))
    (isPlain_temporaryName number)]
  congr 1
  rcases temporaryFront_cases directory with ⟨before, -, front⟩ | front
  · rw [front]
  · rw [front, place_eq, place_eq, isRooted_append_slash named, splitAt_append_slash,
      ← List.append_assoc]
    exact Text.SlashPath.resolveSegments_append_idle true _ (Or.inl rfl)

variable
  (holds : HoldsTemporary store directory)

include holds

theorem reaches_temporaryPath (number : Nat) :
    store.Reaches (temporaryPath directory number) := by
  rw [temporaryPath_eq, reaches_append_iff store (.inr (temporaryFront_ends directory))
    (isPlain_temporaryName number)]
  intro onDisk part shorter
  obtain ⟨-, clear⟩ := holds.reaches onDisk
  rcases temporaryFront_cases directory with ⟨before, same, front⟩ | front
  · -- The directory ends in a slash, so the last directory on its way is the directory.
    rw [front] at shorter ⊢
    apply clear part (shorter.trans (List.dropLast_prefix _))
    rintro rfl
    have lengths := shorter.length_le
    rw [List.length_dropLast] at lengths
    have nonempty := List.length_pos_iff.2 (Text.splitAt_ne_nil '/' directory)
    omega
  · rw [front] at shorter ⊢
    rw [splitAt_append_slash, List.dropLast_concat] at shorter
    have samePassed :
        store.passed (directory ++ ['/']) part = store.passed directory part := by
      rw [passed, passed, isRooted_append_slash named]
    rw [samePassed]
    by_cases whole : part = directory.splitAt '/'
    · rw [whole, ← place_eq_passed]
      exact holds.present onDisk
    · exact clear part shorter whole

/-- Nothing is where a check is going to work. -/
theorem node?_unusedPath :
    store.node? (store.place (unusedPath directory store)) = none := by
  have unused_iff (number : Nat) :
      (store.stat (temporaryPath directory number)).toOption.isNone = true ↔
        store.node? (store.place (temporaryPath directory number)) = none := by
    have reaches := reaches_temporaryPath named holds number
    cases found : store.node? (store.place (temporaryPath directory number)) with
    | none => simp [stat, find_of_vacant reaches found, Except.toOption]
    | some node => simp [stat, (find_eq_ok_iff ..).2 ⟨reaches, found⟩, Except.toOption]
  rw [unusedPath]
  cases found :
      (List.range (store.nodes.length + 1)).find? fun number =>
        (store.stat (temporaryPath directory number)).toOption.isNone with
  | some number =>
      have unused := List.find?_some found
      exact (unused_iff number).1 unused
  | none =>
      -- Else every number would be in use, and there are more numbers than listed places.
      exfalso
      rw [List.find?_eq_none] at found
      have places :
          (List.range (store.nodes.length + 1)).map
              (fun number => store.place directory ++ [temporaryName number]) ⊆
            store.nodes.map Prod.fst := by
        intro place member
        obtain ⟨number, inRange, rfl⟩ := List.mem_map.1 member
        have used := mt (unused_iff number).2 (found number inRange)
        rw [place_temporaryPath named, node?_of_ne_nil store (by simp)] at used
        by_contra unlisted
        exact used ((lookup_eq_none_iff_not_mem _ _).2 unlisted)
      have distinct :
          ((List.range (store.nodes.length + 1)).map
            fun number => store.place directory ++ [temporaryName number]).Nodup := by
        refine List.nodup_range.map fun first second same => temporaryName_injective ?_
        simpa using same
      have bound := (List.subperm_of_subset distinct places).length_le
      simp at bound

/-- Where a temporary directory can be made, one is made. -/
theorem makeTemporary_eq
    (free : ∀ action place, store.refusal action place = none) :
    makeTemporary directory store =
      .ok (unusedPath directory store,
        store.withDirectories (store.place (unusedPath directory store))) := by
  have reaches : store.hindrance? (unusedPath directory store) = none :=
    (hindrance?_eq_none_iff ..).2 (reaches_temporaryPath named holds _)
  have vacant := node?_unusedPath named holds
  have made :
      store.makeDirectory (unusedPath directory store) =
        (store.withDirectories (store.place (unusedPath directory store)), none) := by
    simp only [makeDirectory, reaches, vacant, free]
  rw [makeTemporary, made]

omit holds in
theorem exists_place_unusedPath (store : FileStore) :
    ∃ name, store.place (unusedPath directory store) = store.place directory ++ [name] :=
  ⟨_, place_temporaryPath named _⟩

end Temporary

/-! ## The generation of a command -/

/-- The generation that a command makes. -/
def generationOf (settings : Settings) (registry : Registry) : Generation :=
  { options := settings.naming
    registry := registry
    workers := settings.workers
    runId := []
    cancelAfter := none }

theorem generateInto_eq_ok_iff
    (settings : Settings)
    (schemas : List Text)
    (root : Text)
    (store : FileStore)
    (outcome : Generation.Outcome) :
    generateInto settings schemas root store = .ok outcome ↔
      ∃ loaded, Schema.loadAll store schemas = .ok loaded ∧
        outcome = (generationOf settings loaded.registry).run ⟨store, .start root⟩ := by
  rw [generateInto]
  cases Schema.loadAll store schemas with
  | error fault => simp
  | ok loaded => simp [eq_comm, generationOf]

theorem isCoherent_generationOf
    {settings : Settings}
    (valid : settings.check = .ok ())
    {store : FileStore}
    {schemas : List Text}
    {loaded : Schema.Loaded}
    (accepted : Schema.loadAll store schemas = .ok loaded) :
    (generationOf settings loaded.registry).IsCoherent where
  wellFormed := ((Settings.check_eq_ok_iff settings).1 valid).2.1
  checked _ member := Schema.check_of_loadAll accepted member
  apart := Schema.pairwise_apart_of_loadAll accepted

/-- The files of a generation. -/
def generatedFiles (outcome : Generation.Outcome) : List Text :=
  outcome.report.entries.flatMap EntityReport.files

/-- The place of a generated file. -/
def targetPlace (settings : Settings) (store : FileStore) (file : Text) : Place :=
  store.place (Text.SlashPath.join [settings.outputRoot, file])

/-- A generation without failures, in a tree that refuses nothing and has no file where a directory
is needed. -/
structure HasGenerated
    (settings : Settings)
    (schemas : List Text)
    (store : FileStore)
    (first : Generation.Outcome) :
    Prop where
  valid : settings.check = .ok ()
  tree : store.IsTree
  situated : store.IsSituated
  free : ∀ action place, store.refusal action place = none
  ran : generateInto settings schemas settings.outputRoot store = .ok first
  nothingFailed : first.report.failed = []
  clear : State.IsClear ⟨store, .start settings.outputRoot⟩ (generatedFiles first)

/-- What a generation did, with what it was loaded from. -/
structure WasMade
    (settings : Settings)
    (schemas : List Text)
    (store : FileStore)
    (first : Generation.Outcome)
    (loaded : Schema.Loaded) :
    Prop where
  accepted : Schema.loadAll store schemas = .ok loaded
  roomy :
    (generationOf settings loaded.registry).IsRoomy ⟨store, .start settings.outputRoot⟩
  applied :
    applyAll ⟨store, .start settings.outputRoot⟩
      (generationOf settings loaded.registry).allChanges = .ok first.state
  entries :
    first.report.entries =
      loaded.registry.entities.map
        (Generation.expectedReport (generationOf settings loaded.registry).context)
  files : generatedFiles first = filesOf (generationOf settings loaded.registry).allChanges

theorem HasGenerated.exists_wasMade
    {settings : Settings}
    {schemas : List Text}
    {store : FileStore}
    {first : Generation.Outcome}
    (generated : HasGenerated settings schemas store first)
    (directoriesElsewhere :
      store.manner = .memory →
        ∀ file ∈ generatedFiles first, ¬ store.HasDirectory (targetPlace settings store file)) :
    ∃ loaded, WasMade settings schemas store first loaded := by
  obtain ⟨loaded, accepted, rfl⟩ := (generateInto_eq_ok_iff _ _ _ _ _).1 generated.ran
  have coherent := isCoherent_generationOf generated.valid accepted
  have applied := Generation.applyAll_of_run rfl generated.free generated.nothingFailed
  have entries := (Generation.run_of_applyAll rfl applied).2
  have files :
      generatedFiles
          ((generationOf settings loaded.registry).run ⟨store, .start settings.outputRoot⟩) =
        filesOf (generationOf settings loaded.registry).allChanges := by
    rw [generatedFiles, entries]
    exact Generation.flatMap_files_expectedReport _ _
  have clear := generated.clear
  rw [files] at clear directoriesElsewhere
  have vacant :
      ∀ file ∈ filesOf (generationOf settings loaded.registry).allChanges,
        ¬ store.HasDirectory (targetPlace settings store file) := by
    cases manner : store.manner with
    | memory => exact directoriesElsewhere manner
    | disk =>
        intro file member
        exact (Shows.refl _).not_hasDirectory_of_applyAll manner
          (fun _ => coherent.placeOf_ne_nil _) (coherent.pairwise_from_start _) applied member
  exact
    ⟨loaded, accepted,
      ⟨coherent, generated.tree, generated.situated, generated.free, clear, vacant⟩,
      applied, entries, files⟩

/-! ## Settled generations -/

/-- The files below the output root that look generated and are not. -/
def strayFiles
    (settings : Settings)
    (store : FileStore)
    (first : Generation.Outcome) :
    List Text :=
  Text.sort ((store.filesBelow settings.outputRoot).filter fun file =>
    !(generatedFiles first).contains file && Comparison.looksGenerated settings.naming file)

/-- A generation after which there is nothing left to do: a check finds only what was out of place
before, and a second generation changes nothing. -/
structure IsSettled
    (settings : Settings)
    (schemas : List Text)
    (environment : List (Text × Text))
    (store : FileStore)
    (first : Generation.Outcome) :
    Prop where
  checked :
    freshComparison settings schemas (temporaryRoot environment) first.state.store =
      .ok
        { differences := []
          missing := []
          stale := strayFiles settings store first }
  upToDate :
    store.filesBelow settings.outputRoot = [] →
      ∃ comparison,
        freshComparison settings schemas (temporaryRoot environment) first.state.store =
            .ok comparison ∧
          comparison.isUpToDate = true
  again :
    ∃ second,
      generateInto settings schemas settings.outputRoot first.state.store = .ok second ∧
        second.state.store = first.state.store ∧
        second.state.tree.sortedWritten = [] ∧
        second.state.tree.sortedUnchanged = Text.sort (generatedFiles first)

section Settled

variable
  {settings : Settings}
  {schemas : List Text}
  {store : FileStore}
  {first : Generation.Outcome}
  {loaded : Schema.Loaded}
  (made : WasMade settings schemas store first loaded)

include made

/-- The schemas are still there, unless they were written over. -/
theorem WasMade.loadAll_again
    (schemasElsewhere :
      ∀ schema ∈ schemas, ∀ file ∈ generatedFiles first,
        targetPlace settings store file ≠ store.place schema) :
    Schema.loadAll first.state.store schemas = .ok loaded := by
  apply Schema.loadAll_of_sameContents made.accepted
  intro path member content readable
  refine made.roomy.read_of_elsewhere made.applied (fun file generated => ?_) readable
  rw [← made.files] at generated
  exact schemasElsewhere path member file generated

theorem WasMade.generateInto_again
    (reloaded : Schema.loadAll first.state.store schemas = .ok loaded) :
    ∃ second,
      generateInto settings schemas settings.outputRoot first.state.store = .ok second ∧
        second.state.store = first.state.store ∧
        second.state.tree.sortedWritten = [] ∧
        second.state.tree.sortedUnchanged = Text.sort (generatedFiles first) := by
  have again :
      applyAll ⟨first.state.store, .start settings.outputRoot⟩
          (generationOf settings loaded.registry).allChanges =
        .ok ⟨first.state.store, ⟨settings.outputRoot, [],
          (filesOf (generationOf settings loaded.registry).allChanges).reverse⟩⟩ :=
    made.roomy.applyAll_again made.applied
  refine ⟨_, (generateInto_eq_ok_iff _ _ _ _ _).2 ⟨loaded, reloaded, rfl⟩, ?_⟩
  rw [(Generation.run_of_applyAll rfl again).1, made.files]
  exact ⟨rfl, Text.sort_nil, Text.sort_eq_of_perm (List.reverse_perm _)⟩

omit made in
/-- A temporary directory takes nothing from the schemas. -/
theorem loadAll_beginning
    {fresh : Text}
    (clear :
      ∀ above, above <+: first.state.store.place fresh → ¬ first.state.store.HasFile above)
    (reloaded : Schema.loadAll first.state.store schemas = .ok loaded) :
    Schema.loadAll (Generation.beginning first.state.store fresh).store schemas = .ok loaded := by
  apply Schema.loadAll_of_sameContents reloaded
  intro path member content readable
  obtain ⟨allowed, reaches, node, present, held, standing⟩ := (read_eq_ok_iff _ _ _).1 readable
  have still := node?_withDirectories_of_present clear present
  refine (read_eq_ok_iff _ _ _).2 ⟨?_, Generation.reaches_beginning reaches fresh, node, ?_, held, ?_⟩
  · rw [Generation.place_beginning, Generation.beginning, refusal_withDirectories]
    exact allowed
  · rw [Generation.place_beginning]
    exact still
  · rw [Generation.beginning, manner_withDirectories]
    exact standing

section Temporary

variable
  {directory : Text}
  (named : directory ≠ [])
  (temporary : HoldsTemporary first.state.store directory)
  (rootElsewhere : ¬ store.place settings.outputRoot <+: store.place directory)
  (spelled :
    ∀ fresh made, makeTemporary directory first.state.store = .ok (fresh, made) →
      made.Finds settings.outputRoot)

include named temporary

omit made in
/-- No file is where a temporary directory is made, or above it. -/
theorem not_hasFile_above_unusedPath
    (above : Place)
    (upper : above <+: first.state.store.place (unusedPath directory first.state.store)) :
    ¬ first.state.store.HasFile above := by
  obtain ⟨name, located⟩ := exists_place_unusedPath named first.state.store
  have upper : above <+: first.state.store.place directory ++ [name] := located ▸ upper
  rcases List.prefix_concat_iff.1 upper with same | upper
  · rintro ⟨node, found, -⟩
    rw [same, ← located, node?_unusedPath named temporary] at found
    exact absurd found (by simp)
  · exact temporary.clear above upper

include rootElsewhere spelled

/-- The generation can be made anew in a temporary directory. -/
theorem WasMade.exists_madeAnew :
    ∃ anew,
      (generationOf settings loaded.registry).MadeAnew ⟨store, .start settings.outputRoot⟩
        first.state (unusedPath directory first.state.store) anew := by
  have roomy := made.roomy
  have free := roomy.refusal_eq_none made.applied
  have vacant := node?_unusedPath named temporary
  have clear := not_hasFile_above_unusedPath named temporary
  obtain ⟨name, located⟩ := exists_place_unusedPath named first.state.store
  obtain ⟨anew, freshApplied⟩ :=
    (Generation.isRoomy_beginning roomy.coherent (roomy.isTree made.applied)
      (roomy.isSituated made.applied) free vacant clear).exists_applyAll
  have samePlace : first.state.store.place directory = store.place directory :=
    (roomy.shows made.applied).place directory
  refine ⟨anew,
    { roomy := roomy
      applied := made.applied
      vacant := vacant
      clear := clear
      reaches := reaches_temporaryPath named temporary _
      finds := spelled _ _ (makeTemporary_eq named temporary free)
      outside := fun above => ?_
      freshApplied := freshApplied }⟩
  rw [located, samePlace] at above ⊢
  exact (List.prefix_concat_iff.1 above).resolve_right rootElsewhere

theorem WasMade.freshComparison_eq
    (nothingFailed : first.report.failed = [])
    (reloaded : Schema.loadAll first.state.store schemas = .ok loaded) :
    freshComparison settings schemas directory first.state.store =
      .ok
        { differences := []
          missing := []
          stale := strayFiles settings store first } := by
  obtain ⟨anew, madeAnew⟩ := made.exists_madeAnew named temporary rootElsewhere spelled
  have makes := makeTemporary_eq named temporary (made.roomy.refusal_eq_none made.applied)
  have ran := (generateInto_eq_ok_iff settings schemas (unusedPath directory first.state.store)
    (Generation.beginning first.state.store (unusedPath directory first.state.store)).store _).2
    ⟨loaded, loadAll_beginning madeAnew.clear reloaded, rfl⟩
  obtain ⟨state, entries⟩ := Generation.run_of_applyAll rfl madeAnew.freshApplied
  have noFault :
      ((generationOf settings loaded.registry).run
        (Generation.beginning first.state.store
          (unusedPath directory first.state.store))).report.fault? = none := by
    have sameEntries := entries.trans made.entries.symm
    rw [Report.fault?, Report.failed, sameEntries]
    rw [Report.failed] at nothingFailed
    rw [nothingFailed]
    rfl
  have compared :
      Comparison.ofTrees anew.store (unusedPath directory first.state.store) settings.outputRoot
          settings.naming =
        .ok
          { differences := []
            missing := []
            stale := strayFiles settings store first } := by
    rw [strayFiles, made.files]
    exact madeAnew.ofTrees_eq settings.naming
  simp only [Generation.beginning] at ran noFault state
  simp only [freshComparison, makes, ran, noFault, state, compared]

end Temporary

end Settled

/-! ## What is left to do after a generation -/

/-- An interface, and a service that cannot be bound. -/
def shapeSchema : Text :=
  "version = \"1.0\"\n" ++
    "[[entities]]\nname = \"Shape\"\nkind = \"interface\"\n" ++
    "[[entities]]\nname = \"theShape\"\nkind = \"service-singleton\"\nbase = \"Shape\"\n"

/-- A working directory with the schema, and with an old header and notes in a directory. -/
def shapeStore : FileStore :=
  ⟨.disk, ["w"],
    [ (["tmp"], .directory), (["w"], .directory), (["w", "Shape.toml"], .file shapeSchema),
      (["w", "gen"], .directory), (["w", "gen", "Old.hpp"], .file "old"),
      (["w", "gen", "notes.txt"], .file "notes") ],
    fun _ _ => none, fun _ => none⟩

/-- A store in memory with the schema, and with a directory where the header belongs. -/
def crowdedStore : FileStore :=
  ⟨.memory, [],
    [ (["Shape.toml"], .file shapeSchema), (["gen"], .directory),
      (["gen", "Shape.hpp"], .directory), (["gen", "Shape.hpp", "notes.txt"], .file "notes") ],
    fun _ _ => none, fun _ => none⟩

/-- Whether a generation of the shapes has no failures, the given files, and a property. -/
def shapesGive
    (settings : Settings)
    (store : FileStore)
    (files : List Text)
    (property : Generation.Outcome → Bool) :
    Bool :=
  (generateInto settings ["Shape.toml"] settings.outputRoot store).toOption.any fun first =>
    first.report.failed.isEmpty && generatedFiles first == files && property first

theorem exists_hasGenerated_shapes
    {settings : Settings}
    (valid : settings.check = .ok ())
    {store : FileStore}
    (tree : store.IsTree)
    (situated : store.IsSituated)
    (free : ∀ action place, store.refusal action place = none)
    {files : List Text}
    (clear : State.IsClear ⟨store, .start settings.outputRoot⟩ files)
    {property : Generation.Outcome → Bool}
    (evaluated : shapesGive settings store files property = true) :
    ∃ first, HasGenerated settings ["Shape.toml"] store first ∧
      generatedFiles first = files ∧ property first = true := by
  rw [shapesGive] at evaluated
  cases ran : generateInto settings ["Shape.toml"] settings.outputRoot store with
  | error fault =>
      rw [ran] at evaluated
      exact absurd evaluated (by simp [Except.toOption])
  | ok first =>
      rw [ran] at evaluated
      obtain ⟨⟨nothingFailed, sameFiles⟩, holds⟩ :
          (first.report.failed = [] ∧ generatedFiles first = files) ∧ property first = true := by
        simpa [Except.toOption] using evaluated
      rw [← sameFiles] at clear
      exact ⟨first, ⟨valid, tree, situated, free, ran, nothingFailed, clear⟩, sameFiles, holds⟩

/-- Settings under which the schema of the shapes is written over. -/
def overwritingSettings : Settings :=
  { Settings.default with
    outputRoot := "."
    naming := { NamingOptions.default with bindingExtension := ".toml" } }

/-- Settings under which temporary files are below the output root. -/
def enclosingSettings : Settings :=
  { Settings.default with outputRoot := "/tmp" }

/-- Settings whose output root names a directory by way of one that is not there. -/
def detouringSettings : Settings :=
  { Settings.default with outputRoot := "nosuch/../gen" }

/-- Whether a check of the shapes finds files that are missing or stale. -/
def checkFinds
    (settings : Settings)
    (found : Comparison → List Text)
    (first : Generation.Outcome) :
    Bool :=
  (freshComparison settings ["Shape.toml"] (temporaryRoot []) first.state.store).toOption.any
    fun comparison => !(found comparison).isEmpty

theorem not_isSettled_of_checkFinds
    {settings : Settings}
    {store : FileStore}
    {first : Generation.Outcome}
    {found : Comparison → List Text}
    (finds : checkFinds settings found first = true)
    (nothing : found ⟨[], [], strayFiles settings store first⟩ = []) :
    ¬ IsSettled settings ["Shape.toml"] [] store first := by
  intro settled
  rw [checkFinds, settled.checked] at finds
  simp [Except.toOption, nothing] at finds

/-- A schema that was written over cannot be loaded again. -/
theorem exists_unsettled_overwriting :
    ∃ first, HasGenerated overwritingSettings ["Shape.toml"] shapeStore first ∧
      ¬ IsSettled overwritingSettings ["Shape.toml"] [] shapeStore first := by
  have evaluated :
      shapesGive overwritingSettings shapeStore ["Shape.hpp", "Shape.cpp", "Shape.toml"]
        (fun first =>
          (generateInto overwritingSettings ["Shape.toml"] overwritingSettings.outputRoot
            first.state.store).toOption.isNone) = true := by
    decide +kernel
  obtain ⟨first, generated, -, refused⟩ :=
    exists_hasGenerated_shapes rfl (by decide +kernel) (by decide +kernel) (fun _ _ => rfl)
      (by decide +kernel) evaluated
  refine ⟨first, generated, fun settled => ?_⟩
  obtain ⟨second, ran, -⟩ := settled.again
  rw [ran] at refused
  exact absurd refused (by simp [Except.toOption])

/-- A check that works below the output root takes its own files for stale ones. -/
theorem exists_unsettled_enclosing :
    ∃ first, HasGenerated enclosingSettings ["Shape.toml"] shapeStore first ∧
      ¬ IsSettled enclosingSettings ["Shape.toml"] [] shapeStore first := by
  have evaluated :
      shapesGive enclosingSettings shapeStore ["Shape.hpp", "Shape.cpp", "Shape.hs"]
        (checkFinds enclosingSettings Comparison.stale) = true := by
    decide +kernel
  obtain ⟨first, generated, -, finds⟩ :=
    exists_hasGenerated_shapes rfl (by decide +kernel) (by decide +kernel) (fun _ _ => rfl)
      (by decide +kernel) evaluated
  have before : shapeStore.filesBelow enclosingSettings.outputRoot = [] := by decide +kernel
  refine ⟨first, generated, not_isSettled_of_checkFinds finds ?_⟩
  rw [strayFiles, before]
  exact Text.sort_nil

/-- In memory a header that is written where a directory is stays missing. -/
theorem exists_unsettled_crowded :
    ∃ first, HasGenerated .default ["Shape.toml"] crowdedStore first ∧
      ¬ IsSettled .default ["Shape.toml"] [] crowdedStore first := by
  have evaluated :
      shapesGive .default crowdedStore ["Shape.hpp", "Shape.cpp", "Shape.hs"]
        (checkFinds .default Comparison.missing) = true := by
    decide +kernel
  obtain ⟨first, generated, -, finds⟩ :=
    exists_hasGenerated_shapes rfl (by decide +kernel) (by decide +kernel) (fun _ _ => rfl)
      (by decide +kernel) evaluated
  exact ⟨first, generated, not_isSettled_of_checkFinds finds rfl⟩

/-- A root that leads by way of a missing directory is found by a generation, but not by a check. -/
theorem exists_unsettled_detouring :
    ∃ first, HasGenerated detouringSettings ["Shape.toml"] shapeStore first ∧
      ¬ IsSettled detouringSettings ["Shape.toml"] [] shapeStore first := by
  have evaluated :
      shapesGive detouringSettings shapeStore ["Shape.hpp", "Shape.cpp", "Shape.hs"]
        (checkFinds detouringSettings Comparison.missing) = true := by
    decide +kernel
  obtain ⟨first, generated, -, finds⟩ :=
    exists_hasGenerated_shapes rfl (by decide +kernel) (by decide +kernel) (fun _ _ => rfl)
      (by decide +kernel) evaluated
  exact ⟨first, generated, not_isSettled_of_checkFinds finds rfl⟩

end UnoBindgen.Cli
