import Mathlib
import UnoBindgen.Proofs.OutputTree.Changes

/-!
# Placing entities

An entity is placed by a row of changes.  A change that succeeds early in a run succeeds later in
it too, as long as the changes in between are apart from it: they only add directories, and files
that are not on its way.  So a row of changes that succeeds alone succeeds among others.
-/

namespace UnoBindgen

/-- On disk there is a working directory, below directories only. -/
def FileStore.IsSituated (store : FileStore) : Prop :=
  store.manner = .disk → ∀ above, above <+: store.place [] → store.HasDirectory above

instance (store : FileStore) : Decidable store.IsSituated :=
  decidable_of_iff
    (store.manner = .disk → ∀ above ∈ (store.place []).inits, store.HasDirectory above)
    (by simp only [FileStore.IsSituated, List.mem_inits])

namespace OutputTree.State

open FileStore
open Text.SlashPath

/-- Directories stay directories, also where a file is written over one. -/
theorem Shows.hasDirectory_of_base
    {base state : State}
    {changes : List Change}
    (shows : base.Shows changes state)
    {place : Place}
    (directory : base.store.HasDirectory place) :
    state.store.HasDirectory place := by
  obtain ⟨node, found, isDirectory⟩ := directory
  by_cases filled : base.Filled changes place
  · obtain ⟨change, member, ⟨content, isFile⟩, rfl⟩ := filled
    rw [isFile] at member
    have placed := shows.files _ _ member
    rw [found] at placed
    exact ⟨_, placed, isDirectory⟩
  · by_cases opened : base.Opened changes place
    · exact ⟨_, shows.opened place filled opened, isDirectory_asDirectory _⟩
    · exact ⟨node, (shows.elsewhere place filled opened).trans found, isDirectory⟩

theorem Shows.isSituated
    {base state : State}
    {changes : List Change}
    (shows : base.Shows changes state)
    (situated : base.store.IsSituated) :
    state.store.IsSituated := by
  intro onDisk above upper
  rw [shows.manner] at onDisk
  rw [shows.place] at upper
  exact shows.hasDirectory_of_base (situated onDisk above upper)

/-- No change takes away a directory that a path passes. -/
theorem Shows.reaches
    {base state : State}
    {changes : List Change}
    (shows : base.Shows changes state)
    {path : Text}
    (reached : base.store.Reaches path) :
    state.store.Reaches path :=
  reached.mono shows.manner shows.workingDirectory fun _ _ _ => shows.hasDirectory_of_base

/-! ## Success among other changes -/

section Later

variable
  {base earlier later : State}
  {few many : List Change}
  (before : base.Shows few earlier)
  (after : base.Shows many later)
  (subset : few ⊆ many)

include before after subset

theorem Shows.hasDirectory_later
    {place : Place}
    (unfilled : ¬ base.Filled many place)
    (directory : earlier.store.HasDirectory place) :
    later.store.HasDirectory place := by
  by_cases opened : base.Opened many place
  · exact ⟨_, after.opened place unfilled opened, isDirectory_asDirectory _⟩
  · have same : earlier.store.node? place = later.store.node? place := by
      rw [after.elsewhere place unfilled opened]
      exact before.elsewhere place (fun filled => unfilled (filled.subset subset))
        fun few => opened (few.subset subset)
    rwa [HasDirectory, ← same]

theorem Shows.hasFile_earlier
    {place : Place}
    (unfilled : ¬ base.Filled many place)
    (file : later.store.HasFile place) :
    earlier.store.HasFile place := by
  by_cases opened : base.Opened many place
  · exact (file.not_hasDirectory
      ⟨_, after.opened place unfilled opened, isDirectory_asDirectory _⟩).elim
  · have same : earlier.store.node? place = later.store.node? place := by
      rw [after.elsewhere place unfilled opened]
      exact before.elsewhere place (fun filled => unfilled (filled.subset subset))
        fun few => opened (few.subset subset)
    rwa [HasFile, same]

theorem Shows.vacant_earlier
    {place : Place}
    (vacant : later.store.node? place = none) :
    earlier.store.node? place = none := by
  have unfilled : ¬ base.Filled many place := by
    rintro ⟨change, member, ⟨content, isFile⟩, rfl⟩
    rw [isFile] at member
    rw [after.files _ _ member] at vacant
    exact absurd vacant (by simp)
  have unopened : ¬ base.Opened many place := by
    intro opened
    rw [after.opened place unfilled opened] at vacant
    exact absurd vacant (by simp)
  rw [before.elsewhere place (fun filled => unfilled (filled.subset subset))
    fun few => unopened (few.subset subset)]
  exact after.node?_eq_none vacant

/-- A path below the root that could be followed can still be followed, if no file was put in the
way. -/
theorem Shows.reaches_later
    (situated : base.store.IsSituated)
    {relative : Text}
    (clear :
      ∀ other ∈ many, other.IsFile → ¬ base.placeOf other.relative <+: base.placeOf relative)
    (reaches : earlier.store.Reaches (base.tree.path relative)) :
    later.store.Reaches (base.tree.path relative) := by
  by_cases onDisk : base.store.manner = .disk
  · have nonempty := (reaches (before.manner.trans onDisk)).1
    obtain ⟨path, cleaned⟩ := exists_clean_of_join nonempty
    refine reaches.mono (after.manner.trans before.manner.symm)
      (after.workingDirectory.trans before.workingDirectory.symm) ?_
    intro part shorter differs directory
    have samePassed :
        earlier.store.passed (base.tree.path relative) part =
          base.store.passed (base.tree.path relative) part := by
      rw [passed, passed, FileStore.start, FileStore.start, before.workingDirectory]
    have located : base.store.place path = base.placeOf relative := by
      rw [State.placeOf, OutputTree.path, cleaned, place_clean]
    rw [OutputTree.path, cleaned] at shorter differs
    have passes := passed_clean base.store path shorter differs
    rw [← cleaned, located] at passes
    rw [samePassed, OutputTree.path] at directory ⊢
    rcases passes with ⟨above, -⟩ | above
    · apply before.hasDirectory_later after subset _ directory
      rintro ⟨other, member, isFile, same⟩
      exact clear other member isFile (same ▸ above)
    · exact after.hasDirectory_of_base (situated onDisk _ above)
  · intro laterDisk
    exact (onDisk (after.manner.symm.trans laterDisk)).elim

/-- A directory that could be made can still be made. -/
theorem Shows.apply_directory_later
    (situated : base.store.IsSituated)
    {relative : Text}
    (apart : ∀ other ∈ many, base.Apart (.directory relative) other)
    {next : State}
    (applied : earlier.apply (.directory relative) = .ok next) :
    ∃ next, later.apply (.directory relative) = .ok next := by
  obtain ⟨_, made, -⟩ := (apply_directory_eq_ok_iff _ _ _).1 applied
  obtain ⟨allowed, free, -⟩ := (makeDirectories_eq_ok_iff _ _ _).1 made
  rw [before.refusal, before.place, before.path] at allowed
  rw [before.manner, before.path] at free
  have laterFree :
      base.store.manner = .disk →
        ∀ ancestor ∈ ancestors (base.tree.path relative),
          ¬ later.store.HasFile (base.store.place ancestor) ∧
            (later.store.node? (base.store.place ancestor) = none →
              base.store.refusal .makeDirectory (base.store.place ancestor) = none) := by
    intro onDisk ancestor member
    obtain ⟨noFile, makes⟩ := free onDisk ancestor member
    rw [before.place] at noFile makes
    rw [before.refusal] at makes
    refine ⟨fun file => ?_, fun vacant => makes (before.vacant_earlier after subset vacant)⟩
    by_cases filled : base.Filled many (base.store.place ancestor)
    · obtain ⟨other, otherMember, isFile, same⟩ := filled
      rcases base.store.place_ancestor member with above | above
      · exact (apart other otherMember).backward isFile (same ▸ above)
      · exact file.not_hasDirectory (after.hasDirectory_of_base (situated onDisk _ above))
    · exact noFile (before.hasFile_earlier after subset filled file)
  refine ⟨_, (apply_directory_eq_ok_iff _ _ _).2 ⟨_, (makeDirectories_eq_ok_iff _ _ _).2
    ⟨?_, ?_, rfl⟩, rfl⟩⟩
  · rwa [after.refusal, after.place, after.path]
  · simpa only [after.manner, after.path, after.place, after.refusal] using laterFree

/-- A file that could be brought to its content can still be brought to it. -/
theorem Shows.apply_file_later
    (situated : base.store.IsSituated)
    {relative content : Text}
    (apart : ∀ other ∈ many, base.Apart (.file relative content) other)
    {next : State}
    (applied : earlier.apply (.file relative content) = .ok next) :
    ∃ next, later.apply (.file relative content) = .ok next := by
  have isFile := Change.isFile_file relative content
  have outside : ∀ other ∈ many, ¬ base.placeOf relative <+: base.placeOf other.relative :=
    fun other member => (apart other member).forward isFile
  have sameHeld : later.holds relative content = earlier.holds relative content :=
    (after.holds outside content).trans
      (before.holds (fun other member => outside other (subset member)) content).symm
  have sameNode :
      later.store.node? (base.placeOf relative) = earlier.store.node? (base.placeOf relative) :=
    (after.node?_of_outside outside).trans
      (before.node?_of_outside fun other member => outside other (subset member)).symm
  have reachesLater (reaches : earlier.store.Reaches (earlier.tree.path relative)) :
      later.store.Reaches (later.tree.path relative) := by
    rw [before.path] at reaches
    rw [after.path]
    exact before.reaches_later after subset situated
      (fun other member => (apart other member).backward) reaches
  rcases (apply_file_eq_ok_iff _ _ _ _).1 applied with
    ⟨reaches, held, -⟩ | ⟨notHeld, onlyMissing, store, written, -⟩
  · exact ⟨_, (apply_file_eq_ok_iff _ _ _ _).2
      (Or.inl ⟨reachesLater reaches, sameHeld.trans held, rfl⟩)⟩
  · obtain ⟨allowed, reaches, noDirectory, -⟩ := (write_eq_ok_iff _ _ _ _).1 written
    have sameRead :
        later.store.read (later.tree.path relative) =
          earlier.store.read (earlier.tree.path relative) := by
      have laterReaches := reachesLater reaches
      rw [after.path] at laterReaches ⊢
      rw [before.path] at reaches ⊢
      apply read_congr (after.manner.trans before.manner.symm)
        (after.workingDirectory.trans before.workingDirectory.symm)
        (after.refusal.trans before.refusal.symm) _ reaches laterReaches
      rw [before.place]
      exact sameNode
    rw [before.refusal, before.place, before.path] at allowed
    rw [before.manner, before.place, before.path] at noDirectory
    refine ⟨_, (apply_file_eq_ok_iff _ _ _ _).2 (Or.inr ⟨sameHeld.trans notHeld, ?_, _,
      (write_eq_ok_iff _ _ _ _).2 ⟨?_, reachesLater reaches, ?_, rfl⟩, rfl⟩)⟩
    · rwa [sameRead]
    · rwa [after.refusal, after.place, after.path]
    · rw [after.manner, after.place, after.path]
      intro onDisk
      rw [HasDirectory]
      exact sameNode ▸ noDirectory onDisk

/-- A change that succeeded early on succeeds later. -/
theorem Shows.apply_later
    (situated : base.store.IsSituated)
    {change : Change}
    (apart : ∀ other ∈ many, base.Apart change other)
    {next : State}
    (applied : earlier.apply change = .ok next) :
    ∃ next, later.apply change = .ok next := by
  cases change with
  | directory relative =>
      exact before.apply_directory_later after subset situated apart applied
  | file relative content =>
      exact before.apply_file_later after subset situated apart applied

end Later

/-! ## Rows of changes -/

theorem applyAll_append
    (state : State)
    (first second : List Change)
    (last : State) :
    state.applyAll (first ++ second) = .ok last ↔
      ∃ middle, state.applyAll first = .ok middle ∧ middle.applyAll second = .ok last := by
  induction first generalizing state with
  | nil => simp [applyAll]
  | cons change rest induction =>
      rw [List.cons_append, applyAll, applyAll]
      cases state.apply change with
      | error fault => simp
      | ok next => exact induction next

/-- The first of a row of changes, and what is then before the others. -/
theorem Shows.first_of_applyAll
    {base state last : State}
    {done rest : List Change}
    {change : Change}
    (shows : base.Shows done state)
    (below : change.IsFile → base.placeOf change.relative ≠ [])
    (apart : (change :: rest ++ done).Pairwise base.Apart)
    (applied : state.applyAll (change :: rest) = .ok last) :
    ∃ next, state.apply change = .ok next ∧ base.Shows (change :: done) next ∧
      (rest ++ change :: done).Pairwise base.Apart ∧ next.applyAll rest = .ok last := by
  rw [State.applyAll] at applied
  cases stepped : state.apply change with
  | error fault => simp [stepped] at applied
  | ok next =>
      rw [stepped] at applied
      rw [← shows.placeOf] at below
      have moved : (change :: rest ++ done).Perm (rest ++ change :: done) :=
        List.perm_middle.symm
      have apartDone : ∀ other ∈ done, base.Apart change other := fun other earlier =>
        (List.pairwise_cons.1 apart).1 other (List.mem_append_right rest earlier)
      exact ⟨next, rfl, shows.cons apartDone (follows_of_apply below stepped),
        (moved.pairwise_iff Apart.symm).1 apart, applied⟩

/-- What a row of changes leaves, when they are apart from each other and from what was done
before. -/
theorem Shows.applyAll
    {base state : State}
    {done changes : List Change}
    (shows : base.Shows done state)
    (below : ∀ change ∈ changes, change.IsFile → base.placeOf change.relative ≠ [])
    (apart : (changes ++ done).Pairwise base.Apart)
    {last : State}
    (applied : state.applyAll changes = .ok last) :
    base.Shows (changes ++ done) last := by
  induction changes generalizing state done with
  | nil =>
      rw [State.applyAll, Except.ok.injEq] at applied
      rwa [← applied]
  | cons change rest induction =>
      obtain ⟨next, -, nextShows, nextApart, later⟩ :=
        shows.first_of_applyAll (below change List.mem_cons_self) apart applied
      have restShows := induction nextShows
        (fun other member => below other (List.mem_cons_of_mem change member)) nextApart later
      exact restShows.perm List.perm_middle

theorem Follows.placeOf
    {state next : State}
    {change : Change}
    (follows : state.Follows change next)
    (relative : Text) :
    next.placeOf relative = state.placeOf relative := by
  rw [State.placeOf, State.placeOf, OutputTree.path, OutputTree.path, follows.root,
    FileStore.place, FileStore.place, follows.workingDirectory]

theorem Follows.isSituated
    {state next : State}
    {change : Change}
    (follows : state.Follows change next)
    (situated : state.store.IsSituated) :
    next.store.IsSituated :=
  ((Shows.refl state).cons (by simp) follows).isSituated situated

theorem Follows.reaches
    {state next : State}
    {change : Change}
    (follows : state.Follows change next)
    {path : Text}
    (reached : state.store.Reaches path) :
    next.store.Reaches path :=
  ((Shows.refl state).cons (by simp) follows).reaches reached

/-! ## Stores in memory -/

/-- In memory, what is not refused succeeds. -/
theorem exists_apply_of_memory
    {state : State}
    (memory : state.store.manner = .memory)
    (free : ∀ action place, state.store.refusal action place = none)
    (change : Change) :
    ∃ next, state.apply change = .ok next := by
  have notDisk : state.store.manner ≠ .disk := by simp [memory]
  cases change with
  | directory relative =>
      exact ⟨_, (apply_directory_eq_ok_iff _ _ _).2 ⟨_, (makeDirectories_eq_ok_iff _ _ _).2
        ⟨free _ _, fun onDisk => (notDisk onDisk).elim, rfl⟩, rfl⟩⟩
  | file relative content =>
      have reaches := reaches_of_memory memory (state.tree.path relative)
      cases held : state.holds relative content with
      | true =>
          exact ⟨_, (apply_file_eq_ok_iff _ _ _ _).2 (Or.inl ⟨reaches, held, rfl⟩)⟩
      | false =>
          refine ⟨_, (apply_file_eq_ok_iff _ _ _ _).2 (Or.inr ⟨held, ?_, _,
            (write_eq_ok_iff _ _ _ _).2
              ⟨free _ _, reaches, fun onDisk => (notDisk onDisk).elim, rfl⟩, rfl⟩)⟩
          intro fault failed
          apply isMissingFile_of_read (free _ _) reaches _ failed
          cases found : state.store.node? (state.store.place (state.tree.path relative)) with
          | none => rfl
          | some node =>
              have readable := (read_eq_ok_iff _ _ _).2
                ⟨free _ _, reaches, node, found, rfl, fun onDisk => (notDisk onDisk).elim⟩
              rw [readable] at failed
              exact absurd failed (by simp)

theorem exists_applyAll_of_memory
    {state : State}
    (memory : state.store.manner = .memory)
    (free : ∀ action place, state.store.refusal action place = none)
    {changes : List Change}
    (below : ∀ change ∈ changes, change.IsFile → state.placeOf change.relative ≠ []) :
    ∃ last, state.applyAll changes = .ok last := by
  induction changes generalizing state with
  | nil => exact ⟨state, rfl⟩
  | cons change rest induction =>
      obtain ⟨next, applied⟩ := exists_apply_of_memory memory free change
      have follows := follows_of_apply (below change List.mem_cons_self) applied
      rw [applyAll, applied]
      apply induction (follows.manner.trans memory)
      · rwa [follows.refusal]
      · intro other member
        rw [follows.placeOf]
        exact below other (List.mem_cons_of_mem change member)

/-! ## The changes of an entity -/

/-- The change that brings an artifact to its text. -/
def placement (names : Names) (texts : Texts) (artifact : Artifact) : Change :=
  .file (names.artifactPath artifact) (texts.get artifact)

/-- The changes that place an entity, in their order. -/
def placements (names : Names) (texts : Texts) : List Change :=
  .directory names.directory :: Artifact.all.map (placement names texts)

theorem prepare_eq_attempt
    (state : State)
    (names : Names)
    {texts : Texts}
    (nonempty : texts.isEmpty = false) :
    state.prepare names texts = state.attempt (.directory names.directory) := by
  simp only [prepare, nonempty, Bool.false_eq_true, if_false]
  rfl

theorem writeArtifacts_of_applyAll
    (names : Names)
    (texts : Texts)
    (artifacts : List Artifact)
    (state : State) :
    match state.applyAll (artifacts.map (placement names texts)) with
    | .ok last => writeArtifacts names texts artifacts state = (last, none)
    | .error fault =>
        ∃ stopped, writeArtifacts names texts artifacts state = (stopped, some fault) := by
  induction artifacts generalizing state with
  | nil => rfl
  | cons artifact rest induction =>
      have step :
          state.apply (placement names texts artifact) =
            settled (state.writeFile (names.artifactPath artifact) (texts.get artifact)) := rfl
      rw [List.map_cons, applyAll, writeArtifacts, step]
      obtain ⟨next, fault?⟩ :=
        state.writeFile (names.artifactPath artifact) (texts.get artifact)
      cases fault? with
      | some fault => exact ⟨next, rfl⟩
      | none => exact induction next

/-- An entity is placed when all of its changes succeed, and else the first fault is reported. -/
theorem write_of_applyAll
    (state : State)
    (names : Names)
    {texts : Texts}
    (nonempty : texts.isEmpty = false) :
    match state.applyAll (placements names texts) with
    | .ok last => state.write names texts = ⟨last, .ok (Artifact.all.map names.artifactPath)⟩
    | .error fault => (state.write names texts).result = .error fault := by
  rw [placements, applyAll, write, prepare_eq_attempt state names nonempty, apply]
  obtain ⟨next, fault?⟩ := state.attempt (.directory names.directory)
  cases fault? with
  | some fault => rfl
  | none =>
      have written := writeArtifacts_of_applyAll names texts Artifact.all next
      simp only [settled]
      cases applied : next.applyAll (Artifact.all.map (placement names texts)) with
      | ok last =>
          rw [applied] at written
          simp only [written]
      | error fault =>
          rw [applied] at written
          obtain ⟨stopped, written⟩ := written
          simp only [written]

end OutputTree.State

end UnoBindgen
