import Mathlib
import UnoBindgen.Proofs.FileStore.Tree
import UnoBindgen.Proofs.OutputTree.Placing

/-!
# Room for changes

In a tree that refuses nothing, changes succeed when there is room for them: no file is where they
need a directory, and no directory is where they need a file.  The tree stays a tree.

Changes that were made before are idle: to make them again changes nothing, and only notes the files
as unchanged.
-/

namespace UnoBindgen.OutputTree.State

open FileStore

/-- No file is where a directory is needed for files below the root of a tree. -/
def IsClear (base : State) (files : List Text) : Prop :=
  ∀ file ∈ files, ∀ above, above <+: base.placeOf file → above ≠ base.placeOf file →
    ¬ base.store.HasFile above

instance (base : State) (files : List Text) : Decidable (base.IsClear files) :=
  decidable_of_iff
    (∀ file ∈ files, ∀ above ∈ (base.placeOf file).inits, above ≠ base.placeOf file →
      ¬ base.store.HasFile above)
    (by simp only [IsClear, List.mem_inits])

/-- There is room for files below the root of a tree. -/
structure HasRoom (base : State) (files : List Text) : Prop where
  /-- No file is where a directory is needed. -/
  directories : base.IsClear files
  /-- No directory is where a file is needed. -/
  files : ∀ file ∈ files, ¬ base.store.HasDirectory (base.placeOf file)

/-- The paths of the files that are changed. -/
def filesOf (changes : List Change) : List Text :=
  changes.filterMap fun change =>
    match change with
    | .directory _ => none
    | .file relative _ => some relative

theorem mem_filesOf_iff
    (changes : List Change)
    (file : Text) :
    file ∈ filesOf changes ↔ ∃ content, Change.file file content ∈ changes := by
  simp only [filesOf, List.mem_filterMap]
  constructor
  · rintro ⟨change, member, shown⟩
    cases change with
    | directory relative => exact absurd shown (by simp)
    | file relative content =>
        rw [Option.some.injEq] at shown
        exact ⟨content, shown ▸ member⟩
  · rintro ⟨content, member⟩
    exact ⟨_, member, rfl⟩

theorem filled_iff
    (base : State)
    (changes : List Change)
    (place : Place) :
    base.Filled changes place ↔ ∃ file ∈ filesOf changes, base.placeOf file = place := by
  constructor
  · rintro ⟨change, member, ⟨content, isFile⟩, located⟩
    rw [isFile] at member
    exact ⟨change.relative, (mem_filesOf_iff _ _).2 ⟨content, member⟩, located⟩
  · rintro ⟨file, member, located⟩
    obtain ⟨content, changed⟩ := (mem_filesOf_iff _ _).1 member
    exact ⟨.file file content, changed, Change.isFile_file file content, located⟩

/-! ## Changes keep a tree -/

theorem isTree_of_apply
    {state : State}
    (tree : state.store.IsTree)
    {change : Change}
    (below : change.IsFile → state.placeOf change.relative ≠ [])
    (vacant : change.IsFile → ¬ state.store.HasDirectory (state.placeOf change.relative))
    {next : State}
    (applied : state.apply change = .ok next) :
    next.store.IsTree := by
  have plain := tree.isPlain_of_mem_place (state.tree.path change.relative)
  cases change with
  | directory relative =>
      obtain ⟨store, made, rfl⟩ := (apply_directory_eq_ok_iff _ _ _).1 applied
      obtain ⟨-, -, rfl⟩ := (makeDirectories_eq_ok_iff _ _ _).1 made
      exact tree.withDirectories plain
  | file relative content =>
      have isFile := Change.isFile_file relative content
      rcases (apply_file_eq_ok_iff _ _ _ _).1 applied with
        ⟨-, -, rfl⟩ | ⟨-, -, store, written, rfl⟩
      · exact tree
      · obtain ⟨-, -, -, rfl⟩ := (write_eq_ok_iff _ _ _ _).1 written
        exact tree.withContent (below isFile) plain (vacant isFile) content

/-- A row of changes that are apart keeps a tree, when there is room for its files. -/
theorem Shows.isTree_of_applyAll
    {base state : State}
    {done changes : List Change}
    (shows : base.Shows done state)
    (tree : state.store.IsTree)
    (below : ∀ change ∈ changes, change.IsFile → base.placeOf change.relative ≠ [])
    (apart : (changes ++ done).Pairwise base.Apart)
    (room : ∀ file ∈ filesOf changes, ¬ base.store.HasDirectory (base.placeOf file))
    {last : State}
    (applied : state.applyAll changes = .ok last) :
    last.store.IsTree := by
  induction changes generalizing state done with
  | nil =>
      rw [State.applyAll, Except.ok.injEq] at applied
      rwa [← applied]
  | cons change rest induction =>
      have belowHere := below change List.mem_cons_self
      obtain ⟨next, stepped, nextShows, nextApart, later⟩ :=
        shows.first_of_applyAll belowHere apart applied
      have vacant :
          change.IsFile → ¬ state.store.HasDirectory (state.placeOf change.relative) := by
        intro isFile
        rw [shows.placeOf, HasDirectory, shows.node?_of_outside fun other member =>
          ((List.pairwise_cons.1 apart).1 other (List.mem_append_right rest member)).forward isFile]
        obtain ⟨content, shape⟩ := isFile
        exact room change.relative
          ((mem_filesOf_iff _ _).2 ⟨content, shape ▸ List.mem_cons_self⟩)
      rw [← shows.placeOf] at belowHere
      exact induction nextShows (isTree_of_apply tree belowHere vacant stepped)
        (fun other member => below other (List.mem_cons_of_mem change member)) nextApart
        (fun file member => room file (List.filterMap_subset _ (List.subset_cons_self _ _) member))
        later

/-! ## Changes with room succeed -/

/-- In a store with a working directory, a path below the root can be followed when the way down to
its place is open and no directory is there. -/
theorem reaches_path
    {state : State}
    (situated : state.store.IsSituated)
    {relative : Text}
    (isOpen : state.store.IsOpenWay [] (state.placeOf relative))
    (vacant : ¬ state.store.HasDirectory (state.placeOf relative)) :
    state.store.Reaches (state.tree.path relative) := by
  intro onDisk
  have nonempty : state.tree.path relative ≠ [] := by
    intro empty
    rw [placeOf, empty] at vacant
    exact vacant (situated onDisk _ (List.prefix_refl _))
  obtain ⟨path, cleaned⟩ := Text.SlashPath.exists_clean_of_join nonempty
  rw [placeOf, OutputTree.path, cleaned, place_clean] at isOpen
  rw [OutputTree.path, cleaned]
  exact reaches_clean situated (fun _ => isOpen) onDisk

section Room

variable
  {state : State}
  (free : ∀ action place, state.store.refusal action place = none)

include free

theorem exists_apply_directory
    (situated : state.store.IsSituated)
    {relative : Text}
    (room : ∀ above, above <+: state.placeOf relative → ¬ state.store.HasFile above) :
    ∃ next, state.apply (.directory relative) = .ok next := by
  refine ⟨_, (apply_directory_eq_ok_iff _ _ _).2 ⟨_, (makeDirectories_eq_ok_iff _ _ _).2
    ⟨free _ _, ?_, rfl⟩, rfl⟩⟩
  intro onDisk ancestor member
  refine ⟨fun file => ?_, fun _ => free _ _⟩
  rcases state.store.place_ancestor member with above | above
  · exact room _ above file
  · exact file.not_hasDirectory (situated onDisk _ above)

theorem exists_apply_file
    (situated : state.store.IsSituated)
    {relative content : Text}
    (isOpen : state.store.IsOpenWay [] (state.placeOf relative))
    (vacant : ¬ state.store.HasDirectory (state.placeOf relative)) :
    ∃ next, state.apply (.file relative content) = .ok next := by
  have reaches := reaches_path situated isOpen vacant
  cases held : state.holds relative content with
  | true => exact ⟨_, (apply_file_eq_ok_iff _ _ _ _).2 (Or.inl ⟨reaches, held, rfl⟩)⟩
  | false =>
      refine ⟨_, (apply_file_eq_ok_iff _ _ _ _).2 (Or.inr ⟨held, ?_, _,
        (write_eq_ok_iff _ _ _ _).2 ⟨free _ _, reaches, fun _ => vacant, rfl⟩, rfl⟩)⟩
      intro fault failed
      apply isMissingFile_of_read (free _ _) reaches _ failed
      cases found : state.store.node? (state.placeOf relative) with
      | none => exact found
      | some node =>
          have readable := (read_eq_ok_iff _ _ _).2
            ⟨free _ _, reaches, node, found, rfl,
              fun _ => isDirectory_of_not_hasDirectory vacant found⟩
          rw [readable] at failed
          exact absurd failed (by simp)

/-- Files of one directory can be brought to their contents. -/
theorem exists_applyAll_files
    (tree : state.store.IsTree)
    (situated : state.store.IsSituated)
    {directory : Place}
    (present : state.store.HasDirectory directory)
    {changes : List Change}
    (inside :
      ∀ change ∈ changes, change.IsFile ∧
        ∃ name, state.placeOf change.relative = directory ++ [name])
    (vacant :
      ∀ change ∈ changes, ¬ state.store.HasDirectory (state.placeOf change.relative))
    (distinct :
      changes.Pairwise fun first second =>
        state.placeOf first.relative ≠ state.placeOf second.relative) :
    ∃ last, state.applyAll changes = .ok last := by
  induction changes generalizing state with
  | nil => exact ⟨state, rfl⟩
  | cons change rest induction =>
      obtain ⟨isFile, name, located⟩ := inside change List.mem_cons_self
      have isOpen : state.store.IsOpenWay [] (state.placeOf change.relative) := by
        rw [located]
        exact tree.isOpenWay_of_hasDirectory present name
      have below : change.IsFile → state.placeOf change.relative ≠ [] := by
        rw [located]
        simp
      obtain ⟨content, shape⟩ := isFile
      obtain ⟨next, applied⟩ :
          ∃ next, state.apply (.file change.relative content) = .ok next :=
        exists_apply_file free situated isOpen (vacant change List.mem_cons_self)
      rw [← shape] at applied
      have follows := follows_of_apply below applied
      rw [List.pairwise_cons] at distinct
      -- What the change opens is above its file, and so it is none of the other files.
      have keeps {place : Place} (elsewhere : place ≠ state.placeOf change.relative)
          (notAbove : ¬ place <+: state.placeOf change.relative) :
          next.store.node? place = state.store.node? place := by
        rw [follows.nodes place fun _ => elsewhere,
          if_neg fun opened => notAbove opened.exposes.above]
      have nextPresent : next.store.HasDirectory directory := by
        have differs : directory ≠ state.placeOf change.relative := by
          rw [located]
          simp
        rw [HasDirectory, follows.nodes directory fun _ => differs]
        split
        · exact ⟨_, rfl, isDirectory_asDirectory _⟩
        · exact present
      rw [applyAll, applied]
      refine induction ?_ ?_ ?_ nextPresent ?_ ?_ ?_
      · rwa [follows.refusal]
      · exact isTree_of_apply tree below (fun _ => vacant change List.mem_cons_self) applied
      · exact follows.isSituated situated
      · intro other member
        rw [follows.placeOf]
        exact inside other (List.mem_cons_of_mem change member)
      · intro other member
        obtain ⟨-, otherName, otherLocated⟩ := inside other (List.mem_cons_of_mem change member)
        have differs := distinct.1 other member
        have notAbove : ¬ state.placeOf other.relative <+: state.placeOf change.relative := by
          intro above
          apply differs
          refine (above.eq_of_length ?_).symm
          rw [otherLocated, located]
          simp
        rw [follows.placeOf, HasDirectory, keeps (Ne.symm differs) notAbove]
        exact vacant other (List.mem_cons_of_mem change member)
      · simp only [follows.placeOf]
        exact distinct.2

end Room

/-! ## Changes that succeeded had room -/

theorem not_hasDirectory_of_apply
    {state next : State}
    (onDisk : state.store.manner = .disk)
    {relative content : Text}
    (applied : state.apply (.file relative content) = .ok next) :
    ¬ state.store.HasDirectory (state.placeOf relative) := by
  rcases (apply_file_eq_ok_iff _ _ _ _).1 applied with ⟨-, held, -⟩ | ⟨-, -, store, written, -⟩
  · obtain ⟨-, node, found, -, notDirectory⟩ := (holds_eq_true_iff _ _ _).1 held
    have isFile : state.store.HasFile (state.placeOf relative) :=
      ⟨node, found, notDirectory onDisk⟩
    exact isFile.not_hasDirectory
  · exact ((write_eq_ok_iff _ _ _ _).1 written).2.2.1 onDisk

/-- A file that is brought to its content can be reached. -/
theorem reaches_of_apply
    {state next : State}
    {relative content : Text}
    (applied : state.apply (.file relative content) = .ok next) :
    state.store.Reaches (state.tree.path relative) := by
  rcases (apply_file_eq_ok_iff _ _ _ _).1 applied with ⟨reached, -⟩ | ⟨-, -, store, written, -⟩
  · exact reached
  · exact ((write_eq_ok_iff _ _ _ _).1 written).2.1

/-- On disk no directory was where a file has been written. -/
theorem Shows.not_hasDirectory_of_applyAll
    {base state last : State}
    {done changes : List Change}
    (shows : base.Shows done state)
    (onDisk : base.store.manner = .disk)
    (below : ∀ change ∈ changes, change.IsFile → base.placeOf change.relative ≠ [])
    (apart : (changes ++ done).Pairwise base.Apart)
    (applied : state.applyAll changes = .ok last)
    {file : Text}
    (member : file ∈ filesOf changes) :
    ¬ base.store.HasDirectory (base.placeOf file) := by
  induction changes generalizing state done with
  | nil => exact absurd member List.not_mem_nil
  | cons change rest induction =>
      obtain ⟨next, stepped, nextShows, nextApart, later⟩ :=
        shows.first_of_applyAll (below change List.mem_cons_self) apart applied
      obtain ⟨content, changed⟩ := (mem_filesOf_iff _ _).1 member
      rcases List.mem_cons.1 changed with rfl | inRest
      · have vacant := not_hasDirectory_of_apply (shows.manner.trans onDisk) stepped
        have same := shows.node?_of_outside fun other earlier =>
          ((List.pairwise_cons.1 apart).1 other (List.mem_append_right rest earlier)).forward
            (Change.isFile_file file content)
        rw [Change.relative_file] at same
        rwa [shows.placeOf, HasDirectory, same] at vacant
      · exact induction nextShows
          (fun other member => below other (List.mem_cons_of_mem change member)) nextApart later
          ((mem_filesOf_iff _ _).2 ⟨content, inRest⟩)

/-! ## Idle changes -/

/-- A change that was made already. -/
inductive IsIdle (state : State) : Change → Prop where
  | directory
      {relative : Text}
      (present : state.store.node? (state.placeOf relative) ≠ none)
      (applied : ∃ next, state.apply (.directory relative) = .ok next) :
      IsIdle state (.directory relative)
  | file
      {relative content : Text}
      (reaches : state.store.Reaches (state.tree.path relative))
      (held : state.holds relative content = true) :
      IsIdle state (.file relative content)

/-- Idle changes leave the store alone, and note their files as unchanged. -/
theorem applyAll_of_isIdle
    {state : State}
    {changes : List Change}
    (idle : ∀ change ∈ changes, state.IsIdle change) :
    state.applyAll changes =
      .ok ⟨state.store,
        { state.tree with
          unchanged := (filesOf changes).reverse ++ state.tree.unchanged }⟩ := by
  induction changes generalizing state with
  | nil => rfl
  | cons change rest induction =>
      rw [applyAll]
      cases idle change List.mem_cons_self with
      | @directory relative present applied =>
          obtain ⟨next, applied⟩ := applied
          have same : next = state := by
            obtain ⟨store, made, rfl⟩ := (apply_directory_eq_ok_iff _ _ _).1 applied
            obtain ⟨-, -, rfl⟩ := (makeDirectories_eq_ok_iff _ _ _).1 made
            have kept : state.store.withDirectories (state.placeOf relative) = state.store := by
              rw [withDirectories]
              split
              · rfl
              · rename_i vacant
                exact (present vacant).elim
            exact congrArg (State.mk · state.tree) kept
          rw [applied, same]
          exact induction fun other member => idle other (List.mem_cons_of_mem _ member)
      | @file relative content reaches held =>
          have applied :
              state.apply (.file relative content) =
                .ok ⟨state.store, state.tree.noteUnchanged relative⟩ :=
            (apply_file_eq_ok_iff _ _ _ _).2 (Or.inl ⟨reaches, held, rfl⟩)
          rw [applied]
          have later :
              ∀ other ∈ rest,
                IsIdle ⟨state.store, state.tree.noteUnchanged relative⟩ other := by
            intro other member
            cases idle other (List.mem_cons_of_mem _ member) with
            | directory present applied =>
                obtain ⟨next, applied⟩ := applied
                refine .directory present ?_
                obtain ⟨store, made, -⟩ := (apply_directory_eq_ok_iff _ _ _).1 applied
                exact ⟨_, (apply_directory_eq_ok_iff _ _ _).2 ⟨store, made, rfl⟩⟩
            | file reaches held => exact .file reaches held
          refine (induction later).trans ?_
          simp [filesOf, noteUnchanged]

end UnoBindgen.OutputTree.State
