import Mathlib
import UnoBindgen.Proofs.FileStore.Files
import UnoBindgen.Proofs.Generation.Separation
import UnoBindgen.Proofs.OutputTree.Room

/-!
# The record keeps step with the store

Placing an entity brings its artifacts to their texts one after the other, up to the first whose
file cannot be read or written.  `Placed` says what has come about once some of them are placed: which
files have changed, which directories are new, and what is noted.  `Reached` is the invariant of the
loop, which one more artifact keeps; it speaks of nodes where `Placed` speaks of files.

The main theorem states that an entity is placed as far as the loop comes, with nothing besides, and
that placing it again changes nothing.  On disk this holds from any state.  A store in memory gives
way instead of failing: a file that is given entries becomes a directory, and what is written to a
directory stays one.  So there it takes room, and the counterexamples behind the theorem show that
it does.
-/

namespace UnoBindgen

namespace OutputTree.State

open FileStore

/-! ## Placed artifacts -/

/-- The place of the file of an artifact. -/
def target
    (state : State)
    (names : Names)
    (artifact : Artifact) :
    Place :=
  state.placeOf (names.artifactPath artifact)

/-- The file of an artifact has its text, and it can be read. -/
def IsInPlace
    (state : State)
    (names : Names)
    (texts : Texts)
    (artifact : Artifact) :
    Prop :=
  state.store.fileAt? (state.target names artifact) = some (texts.get artifact) ∧
    state.store.refusal .read (state.target names artifact) = none

instance
    (state : State)
    (names : Names)
    (texts : Texts)
    (artifact : Artifact) :
    Decidable (state.IsInPlace names texts artifact) :=
  inferInstanceAs (Decidable (_ ∧ _))

/-- The paths of some artifacts, the latest first. -/
def pathsOf
    (names : Names)
    (artifacts : List Artifact) :
    List Text :=
  (artifacts.map names.artifactPath).reverse

theorem pathsOf_append
    (names : Names)
    (first second : List Artifact) :
    pathsOf names (first ++ second) = pathsOf names second ++ pathsOf names first := by
  rw [pathsOf, List.map_append, List.reverse_append]
  rfl

/-- A state in which some artifacts of an entity are placed, and nothing else has happened since an
earlier state.  A file counts as unchanged when it was in place before. -/
structure Placed
    (before : State)
    (names : Names)
    (texts : Texts)
    (done : List Artifact)
    (after : State) :
    Prop where
  manner : after.store.manner = before.store.manner
  workingDirectory : after.store.workingDirectory = before.store.workingDirectory
  refusal : after.store.refusal = before.store.refusal
  remnant : after.store.remnant = before.store.remnant
  root : after.tree.root = before.tree.root
  contents :
    ∀ artifact ∈ done,
      after.store.fileAt? (before.target names artifact) = some (texts.get artifact)
  elsewhere :
    ∀ place,
      (∀ artifact ∈ done, place ≠ before.target names artifact) →
        after.store.fileAt? place = before.store.fileAt? place
  remaining :
    ∀ artifact,
      artifact ∉ done →
        after.store.fileAt? (before.target names artifact) =
          before.store.fileAt? (before.target names artifact)
  keeps : ∀ place, before.store.HasDirectory place → after.store.HasDirectory place
  opens :
    ∀ place,
      after.store.HasDirectory place →
        before.store.HasDirectory place ∨ place <+: before.placeOf names.directory
  written :
    after.tree.written =
      pathsOf names (done.filter fun artifact => ¬ before.IsInPlace names texts artifact) ++
        before.tree.written
  unchanged :
    after.tree.unchanged =
      pathsOf names (done.filter fun artifact => before.IsInPlace names texts artifact) ++
        before.tree.unchanged

/-- Names and texts with something to place, in files of one directory that do not get in each
other's way. -/
structure IsLaidOut
    (before : State)
    (names : Names)
    (texts : Texts) :
    Prop where
  nonempty : texts.isEmpty = false
  inside :
    ∀ artifact, ∃ name, before.target names artifact = before.placeOf names.directory ++ [name]
  apart : (placements names texts).Pairwise before.Apart

variable
  {before state : State}
  {names : Names}
  {texts : Texts}
  {done : List Artifact}

namespace IsLaidOut

variable
  (laidOut : before.IsLaidOut names texts)

include laidOut

theorem target_ne_nil (artifact : Artifact) :
    before.target names artifact ≠ [] := by
  obtain ⟨name, located⟩ := laidOut.inside artifact
  rw [located]
  simp

/-- What is above the file of an artifact is above its directory, or is the directory. -/
theorem prefix_directory_of_above
    {artifact : Artifact}
    {place : Place}
    (above : place <+: before.target names artifact)
    (differs : place ≠ before.target names artifact) :
    place <+: before.placeOf names.directory := by
  obtain ⟨name, located⟩ := laidOut.inside artifact
  rw [located] at above differs
  exact (List.prefix_concat_iff.1 above).resolve_left differs

theorem not_prefix_directory (artifact : Artifact) :
    ¬ before.target names artifact <+: before.placeOf names.directory := by
  obtain ⟨name, located⟩ := laidOut.inside artifact
  rw [located]
  exact not_prefix_of_concat _ name

/-- An artifact is apart from the directory and from all artifacts before it. -/
theorem apart_done
    {artifact : Artifact}
    {later : List Artifact}
    (split : Artifact.all = done ++ artifact :: later)
    {other : Change}
    (earlier : other ∈ .directory names.directory :: done.map (placement names texts)) :
    before.Apart (placement names texts artifact) other := by
  have apart := laidOut.apart
  rw [placements, split, List.map_append, ← List.cons_append, List.pairwise_append] at apart
  exact (apart.2.2 other earlier _ List.mem_cons_self).symm

/-- The file of an artifact is not above anything that was made before. -/
theorem not_above_done
    {artifact : Artifact}
    {later : List Artifact}
    (split : Artifact.all = done ++ artifact :: later) :
    ∀ other ∈ .directory names.directory :: done.map (placement names texts),
      ¬ before.target names artifact <+: before.placeOf other.relative :=
  fun _ earlier => (laidOut.apart_done split earlier).forward (Change.isFile_file _ _)

end IsLaidOut

/-! ## The loop -/

/-- What holds once some artifacts are placed. -/
structure Reached
    (before : State)
    (names : Names)
    (texts : Texts)
    (done : List Artifact)
    (state : State) :
    Prop where
  shows : before.Shows (.directory names.directory :: done.map (placement names texts)) state
  vacant : ∀ artifact ∈ done, ¬ before.store.HasDirectory (before.target names artifact)
  reaches :
    ∀ artifact ∈ done, state.store.Reaches (before.tree.path (names.artifactPath artifact))
  written :
    state.tree.written =
      pathsOf names (done.filter fun artifact => ¬ before.IsInPlace names texts artifact) ++
        before.tree.written
  unchanged :
    state.tree.unchanged =
      pathsOf names (done.filter fun artifact => before.IsInPlace names texts artifact) ++
        before.tree.unchanged

/-- Where no directory is, a file is left alone when it is in place. -/
theorem holds_iff_isInPlace
    (names : Names)
    (texts : Texts)
    {artifact : Artifact}
    (vacant : ¬ before.store.HasDirectory (before.target names artifact)) :
    before.holds (names.artifactPath artifact) (texts.get artifact) = true ↔
      before.IsInPlace names texts artifact := by
  rw [holds_eq_true_iff, IsInPlace, fileAt?_eq_some_iff, and_comm]
  refine and_congr_left fun _ => ?_
  constructor
  · rintro ⟨node, found, content, -⟩
    have isFile := isDirectory_of_not_hasDirectory vacant found
    refine found.trans (congrArg some ?_)
    cases node
    rw [FileNode.file, ← content, ← isFile]
  · intro found
    exact ⟨_, found, rfl, fun _ => rfl⟩

/-- Where no directory is, a file is noted as it was found. -/
theorem filesHeld_placement
    {artifact : Artifact}
    (sameHeld :
      state.holds (names.artifactPath artifact) (texts.get artifact) =
        before.holds (names.artifactPath artifact) (texts.get artifact))
    (vacant : ¬ before.store.HasDirectory (before.target names artifact)) :
    state.filesHeld false [placement names texts artifact] =
        pathsOf names
          ([artifact].filter fun artifact => ¬ before.IsInPlace names texts artifact) ∧
      state.filesHeld true [placement names texts artifact] =
        pathsOf names
          ([artifact].filter fun artifact => before.IsInPlace names texts artifact) := by
  have inPlace_iff := holds_iff_isInPlace names texts vacant
  by_cases inPlace : before.IsInPlace names texts artifact
  · have held := sameHeld.trans (inPlace_iff.2 inPlace)
    simp [filesHeld, placement, held, inPlace, pathsOf]
  · have notHeld := sameHeld.trans (Bool.eq_false_iff.2 (mt inPlace_iff.1 inPlace))
    simp [filesHeld, placement, notHeld, inPlace, pathsOf]

theorem reached_of_apply_directory
    (applied : before.apply (.directory names.directory) = .ok state) :
    before.Reached names texts [] state := by
  have follows := follows_of_apply (fun isFile => (Change.not_isFile_directory _ isFile).elim) applied
  refine
    { shows := (Shows.refl before).cons (by simp) follows
      vacant := by simp
      reaches := by simp
      written := follows.written
      unchanged := follows.unchanged }

/-- One more artifact is placed. -/
theorem Reached.step
    (laidOut : before.IsLaidOut names texts)
    (room :
      before.store.manner = .memory →
        ∀ artifact, ¬ before.store.HasDirectory (before.target names artifact))
    (reached : before.Reached names texts done state)
    {artifact : Artifact}
    {later : List Artifact}
    (split : Artifact.all = done ++ artifact :: later)
    {next : State}
    (applied :
      state.writeFile (names.artifactPath artifact) (texts.get artifact) = (next, none)) :
    before.Reached names texts (done ++ [artifact]) next := by
  have shows := reached.shows
  have apart := fun other (earlier : other ∈ _) => laidOut.apart_done split earlier
  have outside := laidOut.not_above_done split
  have applied : state.apply (placement names texts artifact) = .ok next :=
    (settled_eq_ok_iff _ _).2 applied
  have below :
      (placement names texts artifact).IsFile →
        state.placeOf (placement names texts artifact).relative ≠ [] := by
    intro _
    rw [shows.placeOf]
    exact laidOut.target_ne_nil artifact
  have follows := follows_of_apply below applied
  have vacant : ¬ before.store.HasDirectory (before.target names artifact) := by
    cases manner : before.store.manner with
    | memory => exact room manner artifact
    | disk =>
        have vacantNow : ¬ state.store.HasDirectory (before.target names artifact) := by
          rw [target, ← shows.placeOf]
          exact not_hasDirectory_of_apply (shows.manner.trans manner) applied
        rwa [HasDirectory, shows.node?_of_outside outside] at vacantNow
  have noted := filesHeld_placement (shows.holds outside (texts.get artifact)) vacant
  refine
    { shows := (shows.cons apart follows).perm ?_
      vacant := ?_
      reaches := ?_
      written := ?_
      unchanged := ?_ }
  · rw [List.map_append, ← List.cons_append]
    exact (List.perm_append_singleton _ _).symm
  · intro other member
    rcases List.mem_append.1 member with earlier | here
    · exact reached.vacant other earlier
    · rw [List.mem_singleton.1 here]
      exact vacant
  · intro other member
    rcases List.mem_append.1 member with earlier | here
    · exact follows.reaches (reached.reaches other earlier)
    · rw [List.mem_singleton.1 here, ← shows.path]
      exact follows.reaches (reaches_of_apply applied)
  · rw [follows.written, noted.1, reached.written, List.filter_append, pathsOf_append,
      List.append_assoc]
  · rw [follows.unchanged, noted.2, reached.unchanged, List.filter_append, pathsOf_append,
      List.append_assoc]

/-- The loop places all artifacts, or those before the first that fails. -/
theorem Reached.writeArtifacts
    (laidOut : before.IsLaidOut names texts)
    (room :
      before.store.manner = .memory →
        ∀ artifact, ¬ before.store.HasDirectory (before.target names artifact))
    {rest : List Artifact}
    (split : Artifact.all = done ++ rest)
    (reached : before.Reached names texts done state) :
    match State.writeArtifacts names texts rest state with
    | (next, none) => before.Reached names texts Artifact.all next
    | (next, some fault) =>
        ∃ placed artifact later stage,
          Artifact.all = placed ++ artifact :: later ∧
            before.Reached names texts placed stage ∧
            stage.writeFile (names.artifactPath artifact) (texts.get artifact) =
              (next, some fault) := by
  induction rest generalizing done state with
  | nil =>
      rw [List.append_nil] at split
      rw [State.writeArtifacts, split]
      exact reached
  | cons artifact rest induction =>
      rw [State.writeArtifacts]
      cases applied : state.writeFile (names.artifactPath artifact) (texts.get artifact) with
      | mk next fault? =>
          cases fault? with
          | some fault => exact ⟨done, artifact, rest, state, split, reached, applied⟩
          | none =>
              have extended : Artifact.all = done ++ [artifact] ++ rest := by
                rw [split, List.append_assoc, List.singleton_append]
              exact induction extended (reached.step laidOut room split applied)

/-! ## What has come about -/

theorem filled_placements_iff
    (before : State)
    (names : Names)
    (texts : Texts)
    (done : List Artifact)
    (place : Place) :
    before.Filled (.directory names.directory :: done.map (placement names texts)) place ↔
      ∃ artifact ∈ done, before.target names artifact = place := by
  constructor
  · rintro ⟨change, member, isFile, located⟩
    rcases List.mem_cons.1 member with rfl | placed
    · exact (Change.not_isFile_directory _ isFile).elim
    · obtain ⟨artifact, earlier, rfl⟩ := List.mem_map.1 placed
      exact ⟨artifact, earlier, located⟩
  · rintro ⟨artifact, earlier, located⟩
    exact ⟨placement names texts artifact,
      List.mem_cons_of_mem _ (List.mem_map.2 ⟨artifact, earlier, rfl⟩),
      Change.isFile_file _ _, located⟩

namespace IsLaidOut

variable
  (laidOut : before.IsLaidOut names texts)

include laidOut

/-- What is opened for some artifacts and is none of their files is their directory, or above
it. -/
theorem prefix_directory_of_opened
    {place : Place}
    (unfilled :
      ¬ before.Filled (.directory names.directory :: done.map (placement names texts)) place)
    (opened :
      before.Opened (.directory names.directory :: done.map (placement names texts)) place) :
    place <+: before.placeOf names.directory := by
  obtain ⟨change, member, opens⟩ := opened
  rcases List.mem_cons.1 member with rfl | placed
  · exact opens.exposes.above
  · obtain ⟨artifact, earlier, rfl⟩ := List.mem_map.1 placed
    apply laidOut.prefix_directory_of_above opens.exposes.above
    rintro rfl
    exact unfilled ((filled_placements_iff _ _ _ _ _).2 ⟨artifact, earlier, rfl⟩)

theorem target_injective :
    Function.Injective (before.target names) := by
  intro first second same
  by_contra differs
  have apart := (List.pairwise_cons.1 laidOut.apart).2
  rw [List.pairwise_map] at apart
  have symmetric :
      Std.Symm fun left right =>
        before.Apart (placement names texts left) (placement names texts right) :=
    ⟨fun _ _ => Apart.symm⟩
  have listed (artifact : Artifact) : artifact ∈ Artifact.all := by
    cases artifact <;> decide
  apply (apart.forall (listed first) (listed second) differs).forward (Change.isFile_file _ _)
  show before.target names first <+: before.target names second
  rw [same]

/-- No file is where the directory has to be, once it is made. -/
theorem clear_of_apply_directory
    (situated : before.store.IsSituated)
    (room :
      before.store.manner = .memory → before.HasRoom (Artifact.all.map names.artifactPath))
    (applied : before.apply (.directory names.directory) = .ok state)
    {above : Place}
    (shorter : above <+: before.placeOf names.directory) :
    ¬ before.store.HasFile above := by
  cases manner : before.store.manner with
  | memory =>
      obtain ⟨name, located⟩ := laidOut.inside .declaration
      change before.placeOf (names.artifactPath .declaration) = _ at located
      apply (room manner).directories (names.artifactPath .declaration) (List.mem_map_of_mem (by decide))
      · rw [located]
        exact shorter.trans (List.prefix_append _ _)
      · rintro rfl
        rw [located] at shorter
        exact not_prefix_of_concat _ name shorter
  | disk =>
      obtain ⟨_, made, -⟩ := (apply_directory_eq_ok_iff _ _ _).1 applied
      obtain ⟨-, free, -⟩ := (makeDirectories_eq_ok_iff _ _ _).1 made
      rcases before.store.exists_ancestor_of_above shorter with upper | ⟨ancestor, member, here⟩
      · intro file
        exact file.not_hasDirectory (situated manner above upper)
      · rw [← here]
        exact (free manner ancestor member).1

end IsLaidOut

theorem not_filled_placements
    (texts : Texts)
    {place : Place}
    (outside : ∀ artifact ∈ done, place ≠ before.target names artifact) :
    ¬ before.Filled (.directory names.directory :: done.map (placement names texts)) place := by
  rw [filled_placements_iff]
  rintro ⟨artifact, earlier, located⟩
  exact outside artifact earlier located.symm

/-- A placed artifact is a file with its text. -/
theorem Reached.node?_done
    (reached : before.Reached names texts done state)
    {artifact : Artifact}
    (earlier : artifact ∈ done) :
    state.store.node? (before.target names artifact) = some (.file (texts.get artifact)) := by
  have placed := reached.shows.files (names.artifactPath artifact) (texts.get artifact)
    (List.mem_cons_of_mem _ (List.mem_map.2 ⟨artifact, earlier, rfl⟩))
  have vacant := standing_of_not_hasDirectory (reached.vacant artifact earlier)
  rw [target] at vacant
  rwa [vacant] at placed

/-- Elsewhere all is as it was, but for the directory of the entity and what is above it. -/
theorem Reached.node?_elsewhere
    (laidOut : before.IsLaidOut names texts)
    (reached : before.Reached names texts done state)
    {place : Place}
    (outside : ∀ artifact ∈ done, place ≠ before.target names artifact) :
    state.store.node? place = before.store.node? place ∨
      place <+: before.placeOf names.directory ∧
        state.store.node? place = some (asDirectory (before.store.node? place)) := by
  have unfilled := not_filled_placements texts outside
  by_cases opened :
      before.Opened (.directory names.directory :: done.map (placement names texts)) place
  · exact Or.inr ⟨laidOut.prefix_directory_of_opened unfilled opened,
      reached.shows.opened place unfilled opened⟩
  · exact Or.inl (reached.shows.elsewhere place unfilled opened)

section Reached

variable
  (laidOut : before.IsLaidOut names texts)
  (reached : before.Reached names texts done state)
  (clear : ∀ above, above <+: before.placeOf names.directory → ¬ before.store.HasFile above)

include laidOut reached clear

theorem Reached.fileAt?_elsewhere
    {place : Place}
    (outside : ∀ artifact ∈ done, place ≠ before.target names artifact) :
    state.store.fileAt? place = before.store.fileAt? place := by
  rcases reached.node?_elsewhere laidOut outside with same | ⟨above, made⟩
  · rw [fileAt?, fileAt?, same]
  · rw [(fileAt?_eq_none_iff _ _).2 (clear place above), fileAt?, made]
    exact if_pos (isDirectory_asDirectory _)

/-- The nodes of the loop, as files and directories. -/
theorem Reached.placed : before.Placed names texts done state := by
  have shows := reached.shows
  have content (artifact : Artifact) (earlier : artifact ∈ done) := reached.node?_done earlier
  refine
    { manner := shows.manner
      workingDirectory := shows.workingDirectory
      refusal := shows.refusal
      remnant := shows.remnant
      root := shows.root
      contents := fun artifact earlier => (fileAt?_eq_some_iff _ _ _).2 (content artifact earlier)
      elsewhere := fun place => reached.fileAt?_elsewhere laidOut clear
      remaining := ?_
      keeps := ?_
      opens := ?_
      written := reached.written
      unchanged := reached.unchanged }
  · intro artifact remaining
    apply reached.fileAt?_elsewhere laidOut clear
    intro other earlier same
    exact remaining (laidOut.target_injective same ▸ earlier)
  · intro place directory
    have outside : ∀ artifact ∈ done, place ≠ before.target names artifact := by
      rintro artifact earlier rfl
      exact reached.vacant artifact earlier directory
    rcases reached.node?_elsewhere laidOut outside with same | ⟨-, made⟩
    · rwa [HasDirectory, same]
    · exact ⟨_, made, isDirectory_asDirectory _⟩
  · intro place directory
    by_cases outside : ∀ artifact ∈ done, place ≠ before.target names artifact
    · rcases reached.node?_elsewhere laidOut outside with same | ⟨above, -⟩
      · rw [HasDirectory, same] at directory
        exact Or.inl directory
      · exact Or.inr above
    · push Not at outside
      obtain ⟨artifact, earlier, rfl⟩ := outside
      obtain ⟨node, found, isDirectory⟩ := directory
      rw [content artifact earlier] at found
      rw [← Option.some.inj found] at isDirectory
      exact absurd isDirectory (by simp [FileNode.file])

/-- There is still no file where the directory is, and above it. -/
theorem Reached.unblocked
    {above : Place}
    (upper : above <+: before.placeOf names.directory) :
    ¬ state.store.HasFile above := by
  rw [← fileAt?_eq_none_iff, (reached.placed laidOut clear).elsewhere, fileAt?_eq_none_iff]
  · exact clear above upper
  · rintro artifact - rfl
    exact laidOut.not_prefix_directory artifact upper

/-- The directory of the entity is there. -/
theorem Reached.hasDirectory : state.store.HasDirectory (before.placeOf names.directory) := by
  have placed := reached.placed laidOut clear
  cases found : before.store.node? (before.placeOf names.directory) with
  | some node =>
      apply placed.keeps
      exact ⟨node, found,
        isDirectory_of_not_hasFile (clear _ (List.prefix_refl _)) found⟩
  | none =>
      have nonempty : before.placeOf names.directory ≠ [] := by
        intro root
        rw [root, node?_root] at found
        exact absurd found (by simp)
      have opens :
          before.store.Opens (before.placeOf names.directory) (before.placeOf names.directory) :=
        ⟨found, Exposes.refl _ nonempty⟩
      have unfilled := not_filled_placements texts fun artifact (_ : artifact ∈ done) same =>
        laidOut.not_prefix_directory artifact (same ▸ List.prefix_refl _)
      exact ⟨_, reached.shows.opened _ unfilled ⟨_, List.mem_cons_self, opens⟩,
        isDirectory_asDirectory _⟩

end Reached

/-! ## Placing again -/

/-- A store with other refusals. -/
def refusing
    (state : State)
    (refusal : FileAction → Place → Option Fault) :
    State :=
  ⟨{ state.store with refusal := refusal }, state.tree⟩

/-- The directory of an entity and its files may be looked at: what is missing above the directory may
be made, and the files may be read. -/
structure Permits
    (before state : State)
    (names : Names)
    (refusal : FileAction → Place → Option Fault) :
    Prop where
  directory : refusal .makeDirectory (before.placeOf names.directory) = none
  above :
    ∀ above, above <+: before.placeOf names.directory → state.store.node? above = none →
      refusal .makeDirectory above = none
  reads : ∀ artifact, refusal .read (before.target names artifact) = none

/-- What is placed is idle, wherever its directory and its files may be looked at. -/
theorem Reached.isIdle
    (laidOut : before.IsLaidOut names texts)
    (situated : before.store.IsSituated)
    (reached : before.Reached names texts Artifact.all state)
    (clear : ∀ above, above <+: before.placeOf names.directory → ¬ before.store.HasFile above)
    {refusal : FileAction → Place → Option Fault}
    (permits : before.Permits state names refusal)
    {change : Change}
    (member : change ∈ placements names texts) :
    (state.refusing refusal).IsIdle change := by
  have shows := reached.shows
  have placed := reached.placed laidOut clear
  have located (relative : Text) :
      (state.refusing refusal).placeOf relative = before.placeOf relative :=
    shows.placeOf relative
  rcases List.mem_cons.1 member with rfl | artifacts
  · have directory := reached.hasDirectory laidOut clear
    refine .directory ?_ ⟨_, (apply_directory_eq_ok_iff _ _ _).2 ⟨_,
      (makeDirectories_eq_ok_iff _ _ _).2 ⟨?_, ?_, rfl⟩, rfl⟩⟩
    · rw [located]
      obtain ⟨node, found, -⟩ := directory
      exact fun vacant => Option.some_ne_none node (found.symm.trans vacant)
    · exact (congrArg (refusal .makeDirectory) (located names.directory)).trans permits.directory
    · intro onDisk ancestor above
      have onDisk : before.store.manner = .disk := shows.manner.symm.trans onDisk
      have sameWay : state.tree.path names.directory = before.tree.path names.directory :=
        shows.path _
      change ancestor ∈ ancestors (state.tree.path names.directory) at above
      show ¬ state.store.HasFile (state.store.place ancestor) ∧
        (state.store.node? (state.store.place ancestor) = none →
          refusal .makeDirectory (state.store.place ancestor) = none)
      rw [sameWay] at above
      rw [shows.place]
      rcases before.store.place_ancestor above with upper | upper
      · exact ⟨reached.unblocked laidOut clear upper, permits.above _ upper⟩
      · have directory := placed.keeps _ (situated onDisk _ upper)
        exact ⟨fun file => file.not_hasDirectory directory,
          fun vacant => (not_hasDirectory_of_vacant vacant directory).elim⟩
  · obtain ⟨artifact, listed, rfl⟩ := List.mem_map.1 artifacts
    have found := (fileAt?_eq_some_iff _ _ _).1 (placed.contents artifact listed)
    have samePath : state.tree.path (names.artifactPath artifact) =
        before.tree.path (names.artifactPath artifact) := shows.path _
    refine .file ?_ ((holds_eq_true_iff _ _ _).2
      ⟨?_, .file (texts.get artifact), ?_, rfl, fun _ => rfl⟩)
    · have reaches := reached.reaches artifact listed
      rw [← samePath] at reaches
      exact reaches.mono rfl rfl fun _ _ _ directory => directory
    · exact (congrArg (refusal .read) (located (names.artifactPath artifact))).trans
        (permits.reads artifact)
    · exact (congrArg state.store.node? (located (names.artifactPath artifact))).trans found

/-- Placing again what is placed changes no file, and notes all files as unchanged. -/
theorem Reached.write_again
    (laidOut : before.IsLaidOut names texts)
    (situated : before.store.IsSituated)
    (reached : before.Reached names texts Artifact.all state)
    (clear : ∀ above, above <+: before.placeOf names.directory → ¬ before.store.HasFile above)
    {refusal : FileAction → Place → Option Fault}
    (permits : before.Permits state names refusal) :
    (state.refusing refusal).write names texts =
      ⟨⟨(state.refusing refusal).store,
          { state.tree with unchanged := pathsOf names Artifact.all ++ state.tree.unchanged }⟩,
        .ok (Artifact.all.map names.artifactPath)⟩ := by
  have written := write_of_applyAll (state.refusing refusal) names laidOut.nonempty
  rw [applyAll_of_isIdle fun change member =>
    reached.isIdle laidOut situated clear permits member] at written
  exact written

/-! ## Outcomes -/

/-- Why placing an entity stopped: its directory could not be made, and at most directories above it
were; or the file of an artifact could not be read, and the artifacts before it are placed; or it
could not be written, and besides these artifacts at most that file has changed. -/
inductive Stopped
    (before : State)
    (names : Names)
    (texts : Texts)
    (after : State)
    (fault : Fault) :
    Prop where
  | directory
      (placed : before.Placed names texts [] after)
      {reason : Fault}
      (refused :
        before.store.makeDirectories (before.tree.path names.directory) =
          (after.store, some reason))
      (report : fault = .within ("failed to create " ++ before.tree.path names.directory) reason) :
      Stopped before names texts after fault
  | reading
      {done later : List Artifact}
      {artifact : Artifact}
      (split : Artifact.all = done ++ artifact :: later)
      (placed : before.Placed names texts done after)
      {reason : Fault}
      (refused :
        after.store.read (before.tree.path (names.artifactPath artifact)) = .error reason)
      (report :
        fault =
          .within ("failed to read " ++ before.tree.path (names.artifactPath artifact)) reason) :
      Stopped before names texts after fault
  | writing
      {done later : List Artifact}
      {artifact : Artifact}
      (split : Artifact.all = done ++ artifact :: later)
      {stage : State}
      (placed : before.Placed names texts done stage)
      {reason : Fault}
      (refused :
        stage.store.write (before.tree.path (names.artifactPath artifact))
          (texts.get artifact) = (after.store, some reason))
      (sameRecord : after.tree = stage.tree)
      {remains : Option Text}
      (onlyHere :
        stage.store.IsChanged (before.placeOf names.directory)
          (Function.update stage.store.fileAt? (before.target names artifact) remains)
          after.store)
      (report :
        fault =
          .within ("failed to write " ++ before.tree.path (names.artifactPath artifact)) reason) :
      Stopped before names texts after fault

/-- Before any artifact is placed, at most directories have changed. -/
theorem placed_nil
    (texts : Texts)
    {store : FileStore}
    (changed :
      before.store.IsChanged (before.placeOf names.directory) before.store.fileAt? store) :
    before.Placed names texts [] ⟨store, before.tree⟩ where
  manner := changed.manner
  workingDirectory := changed.workingDirectory
  refusal := changed.refusal
  remnant := changed.remnant
  root := rfl
  contents := by simp
  elsewhere place _ := congrFun changed.files place
  remaining artifact _ := congrFun changed.files _
  keeps := changed.keeps
  opens := changed.opens
  written := rfl
  unchanged := rfl

theorem stopped_of_prepare
    (situated : before.store.IsSituated)
    (nonempty : texts.isEmpty = false)
    {after : State}
    {fault : Fault}
    (refused : before.prepare names texts = (after, some fault)) :
    before.Stopped names texts after fault := by
  rw [prepare_eq_attempt before names nonempty, attempt] at refused
  split at refused
  · rename_i store reason failed
    obtain ⟨rfl, same⟩ := Prod.mk.inj refused
    exact .directory (placed_nil texts (isChanged_of_makeDirectories situated failed)) failed
      (Option.some.inj same).symm
  · exact absurd refused (by simp)

/-- A write that fails changes at most the file that was to be written. -/
theorem Reached.isChanged_of_write
    (laidOut : before.IsLaidOut names texts)
    (room :
      before.store.manner = .memory →
        ∀ artifact, ¬ before.store.HasDirectory (before.target names artifact))
    (reached : before.Reached names texts done state)
    (clear : ∀ above, above <+: before.placeOf names.directory → ¬ before.store.HasFile above)
    {artifact : Artifact}
    {later : List Artifact}
    (split : Artifact.all = done ++ artifact :: later)
    {store : FileStore}
    {reason : Fault}
    (refused :
      state.store.write (before.tree.path (names.artifactPath artifact)) (texts.get artifact) =
        (store, some reason)) :
    ∃ remains,
      state.store.IsChanged (before.placeOf names.directory)
        (Function.update state.store.fileAt? (before.target names artifact) remains) store := by
  have shows := reached.shows
  rcases eq_or_remnant_of_write refused with rfl | ⟨rest, -, noDirectory, rfl⟩
  · refine ⟨state.store.fileAt? (before.target names artifact), ?_⟩
    rw [Function.update_eq_self]
    exact .refl _ _
  · rw [shows.place] at noDirectory ⊢
    change state.store.manner = .disk →
      ¬ state.store.HasDirectory (before.target names artifact) at noDirectory
    have vacant : ¬ state.store.HasDirectory (before.target names artifact) := by
      cases manner : before.store.manner with
      | disk => exact noDirectory (shows.manner.trans manner)
      | memory =>
          rw [HasDirectory, shows.node?_of_outside (laidOut.not_above_done split)]
          exact room manner artifact
    obtain ⟨name, located⟩ := laidOut.inside artifact
    refine ⟨some rest, ?_⟩
    change state.store.IsChanged _ _
      (state.store.withContent (before.target names artifact) rest)
    rw [located] at vacant ⊢
    exact isChanged_withContent vacant (fun _ => reached.unblocked laidOut clear) rest

theorem Reached.stopped
    (laidOut : before.IsLaidOut names texts)
    (room :
      before.store.manner = .memory →
        ∀ artifact, ¬ before.store.HasDirectory (before.target names artifact))
    (reached : before.Reached names texts done state)
    (clear : ∀ above, above <+: before.placeOf names.directory → ¬ before.store.HasFile above)
    {artifact : Artifact}
    {later : List Artifact}
    (split : Artifact.all = done ++ artifact :: later)
    {after : State}
    {fault : Fault}
    (failed :
      state.writeFile (names.artifactPath artifact) (texts.get artifact) = (after, some fault)) :
    before.Stopped names texts after fault := by
  have placed := reached.placed laidOut clear
  have path : state.tree.path (names.artifactPath artifact) =
      before.tree.path (names.artifactPath artifact) := reached.shows.path _
  rcases exists_reason_of_writeFile failed with
    ⟨rfl, reason, refused, report⟩ | ⟨sameRecord, reason, refused, report⟩
  · rw [path] at refused report
    exact .reading split placed refused report
  · rw [path] at refused report
    obtain ⟨remains, onlyHere⟩ := reached.isChanged_of_write laidOut room clear split refused
    exact .writing split placed refused sameRecord onlyHere report

/-- An entity that is laid out is placed, or placing it stopped. -/
theorem write_cases
    (laidOut : before.IsLaidOut names texts)
    (situated : before.store.IsSituated)
    (room : before.store.manner = .memory → before.HasRoom (Artifact.all.map names.artifactPath)) :
    (∃ after,
        before.write names texts = ⟨after, .ok (Artifact.all.map names.artifactPath)⟩ ∧
          before.Reached names texts Artifact.all after ∧
          ∀ above, above <+: before.placeOf names.directory → ¬ before.store.HasFile above) ∨
      ∃ after fault,
        before.write names texts = ⟨after, .error fault⟩ ∧
          before.Stopped names texts after fault := by
  cases prepares : before.prepare names texts with
  | mk prepared fault? =>
      cases fault? with
      | some fault =>
          right
          refine ⟨prepared, fault, ?_, stopped_of_prepare situated laidOut.nonempty prepares⟩
          simp only [State.write, prepares]
      | none =>
          have applied : before.apply (.directory names.directory) = .ok prepared := by
            rw [apply, ← prepare_eq_attempt before names laidOut.nonempty, prepares]
            rfl
          have clear : ∀ above, above <+: before.placeOf names.directory →
              ¬ before.store.HasFile above :=
            fun _ => laidOut.clear_of_apply_directory situated room applied
          have vacant : before.store.manner = .memory →
              ∀ artifact, ¬ before.store.HasDirectory (before.target names artifact) := by
            intro manner artifact
            exact (room manner).files _ (List.mem_map_of_mem (by cases artifact <;> decide))
          have loop := (reached_of_apply_directory applied).writeArtifacts laidOut vacant
            (List.nil_append Artifact.all).symm
          cases outcome : State.writeArtifacts names texts Artifact.all prepared with
          | mk after fault? =>
              rw [outcome] at loop
              cases fault? with
              | none =>
                  left
                  refine ⟨after, ?_, loop, clear⟩
                  simp only [State.write, prepares, outcome]
              | some fault =>
                  obtain ⟨done, artifact, later, stage, split, reached, failed⟩ := loop
                  right
                  refine ⟨after, fault, ?_, reached.stopped laidOut vacant clear split failed⟩
                  simp only [State.write, prepares, outcome]

end OutputTree.State

namespace Generation

open OutputTree
open OutputTree.State

/-- What is composed for an accepted entity is laid out below any root. -/
theorem isLaidOut_of_compose
    {context : Emission.Context}
    (wellFormed : context.options.WellFormed)
    {entity : Entity}
    (checked : entity.check = .ok ())
    {texts : Texts}
    (composed : Emission.compose context entity = .ok texts)
    (before : State) :
    before.IsLaidOut (Names.ofEntity context.options entity) texts where
  nonempty := isEmpty_of_compose composed
  inside artifact := by
    refine ⟨entity.name ++ context.options.extension artifact, ?_⟩
    rw [target, placeOf_artifactPath wellFormed before checked,
      placeOf_directory wellFormed before checked, Names.targetSegments, List.append_assoc]
  apart := by
    rw [← changes_of_ok composed]
    exact pairwise_changes_of_entity wellFormed before checked

/--
What is composed for an accepted entity under accepted settings is placed, or placing it stopped.
Once it is placed, the three paths are returned in order, each file has its text, every other file
and directory is as it was, and each path is noted once: as unchanged when its file was in place
before, and else as written.  Whatever the store refuses after that, the entity can be placed again
as long as its directory and its files may be looked at, which changes no file and notes all paths as
unchanged.  When placing the entity stopped, the artifacts before the one that failed are placed and
noted, and nothing else has happened, except that a write that failed may have changed its own file.
In memory this takes room for the files.
-/
theorem write_keeps_record
    (settings : Settings)
    (context : Emission.Context)
    (entity : Entity)
    (texts : Texts)
    (names : Names)
    (before : State)
    (validSettings : settings.check = .ok ())
    (options : context.options = settings.naming)
    (validEntity : entity.check = .ok ())
    (composed : Emission.compose context entity = .ok texts)
    (derived : names = Names.ofEntity settings.naming entity)
    (situated : before.store.IsSituated)
    (room : before.store.manner = .memory → before.HasRoom (Artifact.all.map names.artifactPath)) :
    (∃ after,
      before.write names texts = ⟨after, .ok (Artifact.all.map names.artifactPath)⟩ ∧
        before.Placed names texts Artifact.all after ∧
        ∀ refusal : FileAction → Place → Option Fault,
          before.Permits after names refusal →
            (after.refusing refusal).write names texts =
              ⟨⟨(after.refusing refusal).store,
                  { after.tree with
                    unchanged := pathsOf names Artifact.all ++ after.tree.unchanged }⟩,
                .ok (Artifact.all.map names.artifactPath)⟩) ∨
      ∃ after fault,
        before.write names texts = ⟨after, .error fault⟩ ∧
          before.Stopped names texts after fault := by
  have wellFormed := ((Settings.check_eq_ok_iff settings).1 validSettings).2.1
  rw [← options] at wellFormed derived
  have laidOut := isLaidOut_of_compose wellFormed validEntity composed before
  rw [← derived] at laidOut
  rcases write_cases laidOut situated room with
    ⟨after, written, reached, clear⟩ | ⟨after, fault, written, stopped⟩
  · left
    exact ⟨after, written, reached.placed laidOut clear, fun refusal permits =>
      reached.write_again laidOut situated clear permits⟩
  · right
    exact ⟨after, fault, written, stopped⟩

/-! ## A widget with and without room -/

/-- An interface without methods. -/
def plainWidget : Entity :=
  .bareInterface "Widget"

/-- The names of the widget, whose files lie in the directory `A`. -/
def plainWidgetNames : Names :=
  Names.ofEntity .default plainWidget

/-- The paths of the widget. -/
def plainWidgetPaths : List Text :=
  ["A/Widget.hpp".toList, "A/Widget.cpp".toList, "A/Widget.hs".toList]

theorem exists_of_any
    {Error Value : Type}
    {computed : Except Error Value}
    {test : Value → Bool}
    (passes : computed.toOption.any test = true) :
    ∃ value, computed = .ok value ∧ test value = true := by
  cases computed with
  | error fault => exact absurd passes Bool.false_ne_true
  | ok value => exact ⟨value, rfl, passes⟩

/-- The start of a generation below `/gen`. -/
def genState
    (manner : Manner)
    (nodes : List (Place × FileNode)) :
    State :=
  ⟨{ FileStore.empty manner [] with nodes := nodes }, .start "/gen"⟩

/-- On disk, a widget is placed beside an older header and a note. -/
def outdatedDisk : State :=
  genState .disk
    [ (["gen".toList], .directory),
      (["gen".toList, "A".toList], .directory),
      (["gen".toList, "A".toList, "Widget.hpp".toList], .file "old"),
      (["gen".toList, "notes.txt".toList], .file "note") ]

theorem plainWidget_recorded :
    Settings.default.check = .ok () ∧
      plainWidget.check = .ok () ∧
      outdatedDisk.store.IsSituated ∧
      ∃ texts after,
        Emission.compose ⟨.default, .empty⟩ plainWidget = .ok texts ∧
          outdatedDisk.write plainWidgetNames texts = ⟨after, .ok plainWidgetPaths⟩ ∧
          outdatedDisk.Placed plainWidgetNames texts Artifact.all after ∧
          after.tree.written = plainWidgetPaths.reverse ∧
          ((after.refusing after.store.refusal).write plainWidgetNames texts).result =
            .ok plainWidgetPaths := by
  have situated : outdatedDisk.store.IsSituated := by decide
  obtain ⟨texts, composed, holds⟩ :
      ∃ texts,
        Emission.compose ⟨.default, .empty⟩ plainWidget = .ok texts ∧
          decide
            ((outdatedDisk.write plainWidgetNames texts).result = .ok plainWidgetPaths ∧
              (outdatedDisk.write plainWidgetNames texts).state.tree.written =
                plainWidgetPaths.reverse) = true :=
    exists_of_any (by decide +kernel)
  obtain ⟨result, written⟩ := of_decide_eq_true holds
  rcases write_keeps_record .default ⟨.default, .empty⟩ plainWidget texts plainWidgetNames
      outdatedDisk rfl rfl rfl composed rfl situated (fun memory => Manner.noConfusion memory) with
    ⟨after, outcome, placed, again⟩ | ⟨after, fault, outcome, -⟩
  · rw [outcome] at written
    have refuses := again after.store.refusal
      (by rw [placed.refusal]; exact ⟨rfl, fun _ _ _ => rfl, fun _ => rfl⟩)
    exact ⟨rfl, rfl, situated, texts, after, composed, outcome, placed, written,
      congrArg Outcome.result refuses⟩
  · rw [outcome] at result
    exact absurd result (by simp)

/-- A state in memory with a file where the widget needs its directory. -/
def enclosedState : State :=
  genState .memory
    [ (["gen".toList], .directory),
      (["gen".toList, "A".toList], .file "x") ]

/-- A state in memory with a directory where the widget needs its header. -/
def crowdedState : State :=
  genState .memory
    [ (["gen".toList], .directory),
      (["gen".toList, "A".toList], .directory),
      (["gen".toList, "A".toList, "Widget.hpp".toList], .directory) ]

/-- A state in which the header of the widget has its text, but reading it says that it is
missing. -/
def deniedState (texts : Texts) : State :=
  ⟨{ FileStore.empty .memory [] with
      nodes :=
        [ (["gen".toList], .directory),
          (["gen".toList, "A".toList], .directory),
          (["gen".toList, "A".toList, "Widget.hpp".toList], .file texts.declaration) ]
      refusal := fun action _ =>
        if action = .read then some (.external "file does not exist" true) else none },
    .start "/gen"⟩

/-- A widget is placed, and a file that is not its own is gone. -/
def LosesFile (texts : Texts) : Prop :=
  (enclosedState.write plainWidgetNames texts).result = .ok plainWidgetPaths ∧
    enclosedState.store.fileAt? ["gen".toList, "A".toList] = some "x".toList ∧
    (enclosedState.write plainWidgetNames texts).state.store.fileAt?
      ["gen".toList, "A".toList] = none

/-- A widget is placed, and its header does not have its text. -/
def LacksText (texts : Texts) : Prop :=
  (crowdedState.write plainWidgetNames texts).result = .ok plainWidgetPaths ∧
    (crowdedState.write plainWidgetNames texts).state.store.fileAt?
      (crowdedState.target plainWidgetNames .declaration) = none

/-- A widget is placed, and its header is noted as written although it had its text. -/
def RewritesText (texts : Texts) : Prop :=
  ((deniedState texts).write plainWidgetNames texts).result = .ok plainWidgetPaths ∧
    (deniedState texts).store.fileAt?
      ((deniedState texts).target plainWidgetNames .declaration) = some texts.declaration ∧
    "A/Widget.hpp".toList ∈
      ((deniedState texts).write plainWidgetNames texts).state.tree.written

instance (texts : Texts) : Decidable (LosesFile texts) :=
  inferInstanceAs (Decidable (_ ∧ _))

instance (texts : Texts) : Decidable (LacksText texts) :=
  inferInstanceAs (Decidable (_ ∧ _))

instance (texts : Texts) : Decidable (RewritesText texts) :=
  inferInstanceAs (Decidable (_ ∧ _))

/-- A store in memory gives way where a widget has no room, and it is taken by its word when it says
that a file is missing. -/
theorem plainWidget_without_room :
    Settings.default.check = .ok () ∧
      plainWidget.check = .ok () ∧
      ∃ texts,
        Emission.compose ⟨.default, .empty⟩ plainWidget = .ok texts ∧
          LosesFile texts ∧ LacksText texts ∧ RewritesText texts := by
  obtain ⟨texts, composed, holds⟩ :
      ∃ texts,
        Emission.compose ⟨.default, .empty⟩ plainWidget = .ok texts ∧
          decide (LosesFile texts ∧ LacksText texts ∧ RewritesText texts) = true :=
    exists_of_any (by decide +kernel)
  exact ⟨rfl, rfl, texts, composed, of_decide_eq_true holds⟩

end Generation

end UnoBindgen
