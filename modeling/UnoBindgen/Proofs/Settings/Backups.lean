import Mathlib
import UnoBindgen.Settings.File
import UnoBindgen.Proofs.OutputTree.Placing
import UnoBindgen.Proofs.FileStore.Files

/-!
# The backups of a file of settings

A file of settings and its three backups are a shift register.  A call that writes the file pushes
its present content on the backups and drops the oldest; where the file is not there yet, the
backups stay.  A call that is refused changes nothing at all.  So the backups are always the last
three contents that were overwritten, the latest first, on top of those that were there at the
start.
-/

namespace UnoBindgen

open FileStore
open Text.SlashPath

namespace Settings

/-! ## Where the files are -/

section Places

variable
  (store : FileStore)
  {path : Text}
  (named : IsPlain (lastPart path))

include named

theorem place_of_named :
    store.place path = store.place (directory path) ++ [lastPart path] := by
  obtain ⟨front, split, isDirectory, ends⟩ := eq_append_lastPart path
  rw [isDirectory, place_clean]
  nth_rewrite 1 [split]
  exact place_append_of_isPlain store ends named

theorem isPlain_backupName (age : Nat) :
    IsPlain (lastPart path ++ ".back" ++ Text.ofNat age) where
  nonempty := by simp [named.nonempty]
  notSame := by
    intro same
    have lengths := congrArg List.length same
    simp at lengths
    omega
  notUpwards := by
    intro same
    have lengths := congrArg List.length same
    simp at lengths
    omega
  noSlash := by
    intro member
    rcases List.mem_append.1 member with front | inNumber
    · rcases List.mem_append.1 front with inName | inMark
      · exact named.noSlash inName
      · exact absurd inMark (by decide)
    · have digit := Nat.isDigit_of_mem_toDigits (by decide) (by decide) inNumber
      exact absurd digit (by decide)

theorem place_backupPath (age : Nat) :
    store.place (backupPath path age) =
      store.place (directory path) ++ [lastPart path ++ ".back" ++ Text.ofNat age] := by
  obtain ⟨front, split, isDirectory, ends⟩ := eq_append_lastPart path
  have behind :
      backupPath path age = front ++ (lastPart path ++ ".back" ++ Text.ofNat age) := by
    rw [backupPath]
    nth_rewrite 1 [split]
    simp
  rw [behind, isDirectory, place_clean]
  exact place_append_of_isPlain store ends (isPlain_backupName named age)

theorem place_ne_backupPath (age : Nat) :
    store.place path ≠ store.place (backupPath path age) := by
  rw [place_of_named store named, place_backupPath store named]
  intro same
  have sameName := List.singleton_inj.1 (List.append_cancel_left same)
  simpa using congrArg List.length sameName

theorem place_backupPath_ne {age other : Nat} (differs : Text.ofNat age ≠ Text.ofNat other) :
    store.place (backupPath path age) ≠ store.place (backupPath path other) := by
  rw [place_backupPath store named, place_backupPath store named]
  intro same
  have sameName := List.singleton_inj.1 (List.append_cancel_left same)
  exact differs (List.append_cancel_left sameName)

theorem places_backupPath_apart :
    store.place (backupPath path 1) ≠ store.place (backupPath path 2) ∧
      store.place (backupPath path 1) ≠ store.place (backupPath path 3) ∧
      store.place (backupPath path 2) ≠ store.place (backupPath path 3) :=
  ⟨place_backupPath_ne store named (by decide), place_backupPath_ne store named (by decide),
    place_backupPath_ne store named (by decide)⟩

/-- A backup is reached where the file is. -/
theorem reaches_backupPath_iff (age : Nat) :
    store.Reaches (backupPath path age) ↔ store.Reaches path := by
  obtain ⟨front, split, -, ends⟩ := eq_append_lastPart path
  have behind :
      backupPath path age = front ++ (lastPart path ++ ".back" ++ Text.ofNat age) := by
    rw [backupPath]
    nth_rewrite 1 [split]
    simp
  have whole := reaches_append_iff store ends named
  rw [← split] at whole
  rw [behind, reaches_append_iff store ends (isPlain_backupName named age), whole]

end Places

/-- The paths of a file of settings and its backups. -/
def keptPaths (path : Text) : List Text :=
  [path, backupPath path 1, backupPath path 2, backupPath path 3]

theorem exists_name_of_mem_keptPaths
    (store : FileStore)
    {path : Text}
    (named : IsPlain (lastPart path))
    {file : Text}
    (kept : file ∈ keptPaths path) :
    ∃ name, IsPlain name ∧ store.place file = store.place (directory path) ++ [name] := by
  simp only [keptPaths, List.mem_cons, List.not_mem_nil, or_false] at kept
  rcases kept with rfl | rfl | rfl | rfl
  · exact ⟨_, named, place_of_named store named⟩
  · exact ⟨_, isPlain_backupName named 1, place_backupPath store named 1⟩
  · exact ⟨_, isPlain_backupName named 2, place_backupPath store named 2⟩
  · exact ⟨_, isPlain_backupName named 3, place_backupPath store named 3⟩

theorem reaches_of_mem_keptPaths
    {store : FileStore}
    {path : Text}
    (named : IsPlain (lastPart path))
    (reaches : store.Reaches path)
    {file : Text}
    (kept : file ∈ keptPaths path) :
    store.Reaches file := by
  simp only [keptPaths, List.mem_cons, List.not_mem_nil, or_false] at kept
  rcases kept with rfl | rfl | rfl | rfl
  · exact reaches
  · exact (reaches_backupPath_iff store named 1).2 reaches
  · exact (reaches_backupPath_iff store named 2).2 reaches
  · exact (reaches_backupPath_iff store named 3).2 reaches

/-- A path can be followed once its directory is there: what it passes are directories, or they are
made for it. -/
def Follows (store : FileStore) (path : Text) : Prop :=
  store.manner = .disk →
    ∀ part, part <+: path.splitAt '/' → part ≠ path.splitAt '/' →
      store.HasDirectory (store.passed path part) ∨
        store.passed path part <+: store.place (directory path)

/-- A store that can keep a file of settings and its backups: it is a tree that refuses nothing,
what is above them is no file, and none of them is a directory. -/
structure CanKeep (store : FileStore) (path : Text) : Prop where
  named : IsPlain (lastPart path)
  tree : store.IsTree
  situated : store.IsSituated
  free : ∀ action place, store.refusal action place = none
  clear : ∀ above, above <+: store.place (directory path) → ¬ store.HasFile above
  noDirectory : ∀ file ∈ keptPaths path, ¬ store.HasDirectory (store.place file)

/-- Two stores have the same files, those of the settings and their backups apart. -/
def SameElsewhere
    (store : FileStore)
    (path : Text)
    (files : Place → Option Text) : Prop :=
  ∀ place, (∀ file ∈ keptPaths path, place ≠ store.place file) →
    files place = store.fileAt? place

section Edits

variable
  {store : FileStore}
  {path : Text}
  {files last : Place → Option Text}

theorem CanKeep.plain
    (keeps : CanKeep store path)
    (file : Text) :
    ∀ segment ∈ store.place file, IsPlain segment :=
  keeps.tree.isPlain_of_mem_place file

theorem CanKeep.hasDirectory_of_file
    (keeps : CanKeep store path)
    {content : Text}
    (present : store.fileAt? (store.place path) = some content) :
    store.HasDirectory (store.place (directory path)) := by
  apply keeps.tree.above _ (lastPart path)
  rw [← place_of_named store keeps.named, (fileAt?_eq_some_iff ..).1 present]
  exact Option.some_ne_none _

/-- The files that are not kept are not above the kept ones. -/
theorem CanKeep.of_isEdited
    (keeps : CanKeep store path)
    {after : FileStore}
    (edited : store.IsEdited (store.place (directory path)) files after)
    (elsewhere : SameElsewhere store path files) :
    CanKeep after path where
  named := keeps.named
  tree := edited.tree
  situated onDisk above upper := by
    rw [edited.place] at upper
    rw [edited.manner] at onDisk
    exact edited.keeps above (keeps.situated onDisk above upper)
  free action place := by
    rw [edited.refusal]
    exact keeps.free action place
  clear above upper := by
    rw [edited.place] at upper
    rw [← fileAt?_eq_none_iff, edited.files, elsewhere above, fileAt?_eq_none_iff]
    · exact keeps.clear above upper
    · rintro file kept rfl
      obtain ⟨name, -, place⟩ := exists_name_of_mem_keptPaths store keeps.named kept
      exact not_prefix_of_concat _ name (place ▸ upper)
  noDirectory file kept directory := by
    rw [edited.place] at directory
    rcases edited.opens _ directory with earlier | upper
    · exact keeps.noDirectory file kept earlier
    · obtain ⟨name, -, place⟩ := exists_name_of_mem_keptPaths store keeps.named kept
      exact not_prefix_of_concat _ name (place ▸ upper)

/-- Work succeeds and leaves a store with given files, of which only the kept ones are new. -/
def Edits
    (path : Text)
    (work : FileWork Unit)
    (store : FileStore)
    (files : Place → Option Text) : Prop :=
  ∃ after, work store = (.ok (), after) ∧
    store.IsEdited (store.place (directory path)) files after ∧ SameElsewhere store path files

theorem Edits.followedBy
    (keeps : CanKeep store path)
    {work : FileWork Unit}
    (first : Edits path work store files)
    {next : Unit → FileWork Unit}
    (second :
      ∀ middle, work store = (.ok (), middle) →
        store.IsEdited (store.place (directory path)) files middle →
          CanKeep middle path → Edits path (next ()) middle last) :
    Edits path (work.followedBy next) store last := by
  obtain ⟨middle, performed, edited, elsewhere⟩ := first
  obtain ⟨after, finished, further, stillElsewhere⟩ :=
    second middle performed edited (keeps.of_isEdited edited elsewhere)
  refine ⟨after, by simp only [FileWork.followedBy, performed, finished], ?_, ?_⟩
  · rw [edited.place] at further
    exact edited.trans further
  · intro place other
    rw [stillElsewhere place (by simpa only [edited.place] using other), edited.files,
      elsewhere place other]

theorem Edits.explaining
    {work : FileWork Unit}
    (edits : Edits path work store files)
    (context : Text) :
    Edits path (work.explaining context) store files := by
  obtain ⟨after, performed, edited⟩ := edits
  exact ⟨after, by simp only [FileWork.explaining, performed], edited⟩

theorem edits_change
    (action : FileStore → Attempt)
    {after : FileStore}
    (performed : action store = (after, none))
    (edited : store.IsEdited (store.place (directory path)) files after)
    (elsewhere : SameElsewhere store path files) :
    Edits path (.change action) store files :=
  ⟨after, by simp only [FileWork.change, performed], edited, elsewhere⟩

theorem SameElsewhere.update
    (elsewhere : SameElsewhere store path files)
    {file : Text}
    (kept : file ∈ keptPaths path)
    (content? : Option Text) :
    SameElsewhere store path (Function.update files (store.place file) content?) := by
  intro place other
  rw [Function.update_of_ne (other file kept), elsewhere place other]

end Edits

/-! ## Moving the backups on -/

section Saving

variable
  {store : FileStore}
  {path : Text}

theorem ageBackup_eq (path : Text) (age : Nat) :
    ageBackup path age =
      (FileWork.contains (backupPath path age)).followedBy fun present =>
        if present then
          FileWork.explaining
            ("failed to rotate .back" ++ Text.ofNat age ++ " to .back" ++ Text.ofNat (age + 1))
            (.change fun store => store.rename (backupPath path age) (backupPath path (age + 1)))
        else .done () :=
  rfl

theorem backUp_eq (path : Text) :
    backUp path =
      (FileWork.contains path).followedBy fun present =>
        if present then
          (FileWork.attempt
            (.change fun store => store.remove (backupPath path 3))).followedBy fun _ =>
          (ageBackup path 2).followedBy fun _ =>
          (ageBackup path 1).followedBy fun _ =>
          (FileWork.explaining "failed to read config for backup"
            (.ask fun store => store.read path)).followedBy fun content =>
          FileWork.explaining "failed to create .back1"
            (.change fun store => store.write (backupPath path 1) content)
        else .done () :=
  rfl

/-- A file is taken for absent when it is, and when the path to it cannot be followed. -/
theorem ask_contains_eq
    {file : Text}
    (noDirectory : ¬ store.HasDirectory (store.place file))
    (answer : Bool)
    (answered :
      answer = true ↔ store.Reaches file ∧ store.fileAt? (store.place file) ≠ none) :
    FileWork.contains file store = (.ok answer, store) := by
  have node := node?_of_not_hasDirectory noDirectory
  have same : (store.contains file).toOption.getD false = answer := by
    rw [Bool.eq_iff_iff, answered]
    cases found : store.find "stat" file with
    | ok there =>
        obtain ⟨reaches, present⟩ := (find_eq_ok_iff ..).1 found
        have contained : store.contains file = .ok true := by rw [contains, stat, found]
        rw [contained, and_iff_right reaches]
        refine ⟨fun _ absent => ?_, fun _ => rfl⟩
        rw [present, absent] at node
        exact absurd node (by simp)
    | error fault =>
        have notFound : ¬ (store.Reaches file ∧ store.fileAt? (store.place file) ≠ none) := by
          rintro ⟨reaches, present⟩
          obtain ⟨content, there⟩ := Option.ne_none_iff_exists'.1 present
          rw [there] at node
          rw [(find_eq_ok_iff ..).2 ⟨reaches, node⟩] at found
          exact absurd found (by simp)
        rw [iff_false_right notFound, contains, stat, found]
        cases missing : fault.isMissingFile <;> simp [missing, Except.toOption]
  rw [FileWork.contains, same]

/-- Work that first asks for a file goes on with the answer. -/
theorem followedBy_contains
    {file : Text}
    {answer : Bool}
    (answered : FileWork.contains file store = (.ok answer, store))
    (next : Bool → FileWork Unit) :
    (FileWork.contains file).followedBy next store = next answer store := by
  simp only [FileWork.followedBy, answered]

theorem edits_remove
    (keeps : CanKeep store path)
    (reaches : store.Reaches path)
    {file : Text}
    (kept : file ∈ keptPaths path) :
    Edits path (.attempt (.change fun store => store.remove file)) store
      (Function.update store.fileAt? (store.place file) none) := by
  have noDirectory := keeps.noDirectory file kept
  have fileReached := reaches_of_mem_keptPaths keeps.named reaches kept
  have node := node?_of_not_hasDirectory noDirectory
  have elsewhere : SameElsewhere store path store.fileAt? := fun _ _ => rfl
  cases there : store.fileAt? (store.place file) with
  | none =>
      rw [there] at node
      have same : Function.update store.fileAt? (store.place file) none = store.fileAt? := by
        rw [← there, Function.update_eq_self]
      have nothing := find_of_vacant fileReached node "remove"
      refine ⟨store, ?_, ?_, elsewhere.update kept none⟩
      · simp only [FileWork.attempt, FileWork.change, remove, keeps.free, nothing]
      · rw [same]
        exact .refl keeps.tree _
  | some content =>
      rw [there] at node
      have found : store.find "remove" file = .ok (.file content) :=
        (find_eq_ok_iff ..).2 ⟨fileReached, node⟩
      refine ⟨store.erase (store.place file), ?_, ?_, elsewhere.update kept none⟩
      · simp only [FileWork.attempt, FileWork.change, remove, keeps.free, found]
      · exact isEdited_erase keeps.tree noDirectory _

theorem edits_ageBackup
    (keeps : CanKeep store path)
    (reaches : store.Reaches path)
    (age : Nat)
    (source : backupPath path age ∈ keptPaths path)
    (target : backupPath path (age + 1) ∈ keptPaths path)
    (directoryThere : store.HasDirectory (store.place (directory path)))
    (vacant : store.fileAt? (store.place (backupPath path (age + 1))) = none) :
    Edits path (ageBackup path age) store
      (Function.update
        (Function.update store.fileAt? (store.place (backupPath path age)) none)
        (store.place (backupPath path (age + 1)))
        (store.fileAt? (store.place (backupPath path age)))) := by
  have noSource := keeps.noDirectory _ source
  have noTarget := keeps.noDirectory _ target
  have sourceReached := reaches_of_mem_keptPaths keeps.named reaches source
  have targetReached := reaches_of_mem_keptPaths keeps.named reaches target
  have elsewhere : SameElsewhere store path store.fileAt? := fun _ _ => rfl
  have moved (content? : Option Text) := (elsewhere.update source none).update target content?
  cases there : store.fileAt? (store.place (backupPath path age)) with
  | none =>
      have asked : ageBackup path age store = (.ok (), store) := by
        rw [ageBackup_eq,
          followedBy_contains (ask_contains_eq noSource false (by simp [there]))]
        rfl
      refine ⟨store, asked, ?_, moved none⟩
      have same :
          Function.update
            (Function.update store.fileAt? (store.place (backupPath path age)) none)
            (store.place (backupPath path (age + 1))) none = store.fileAt? := by
        rw [← there, Function.update_eq_self, there, ← vacant, Function.update_eq_self]
      rw [same]
      exact .refl keeps.tree _
  | some content =>
      have node := node?_of_not_hasDirectory noSource
      rw [there] at node
      have found : store.find "rename" (backupPath path age) = .ok (.file content) :=
        (find_eq_ok_iff ..).2 ⟨sourceReached, node⟩
      have unhindered := (hindrance?_eq_none_iff ..).2 targetReached
      have parent :
          store.HasDirectory (store.place (backupPath path (age + 1))).dropLast := by
        rwa [place_backupPath store keeps.named, List.dropLast_concat]
      have renamed :
          store.rename (backupPath path age) (backupPath path (age + 1)) =
            ((store.erase (store.place (backupPath path age))).put
              (store.place (backupPath path (age + 1))) (.file content), none) := by
        simp only [rename, keeps.free, found, unhindered]
      rw [Edits, ageBackup_eq,
        followedBy_contains (ask_contains_eq noSource true (by simp [there, sourceReached])),
        if_pos rfl]
      exact (edits_change (fun store => store.rename _ _) renamed
        (isEdited_rename keeps.tree (keeps.plain _) noSource noTarget parent content _)
        (moved (some content))).explaining _

/-! ## Writing -/

theorem edits_write
    (keeps : CanKeep store path)
    (reaches : store.Reaches path)
    (file : Text)
    (kept : file ∈ keptPaths path)
    (content : Text) :
    Edits path (.change fun store => store.write file content) store
      (Function.update store.fileAt? (store.place file) (some content)) := by
  have elsewhere : SameElsewhere store path store.fileAt? := fun _ _ => rfl
  have noDirectory := keeps.noDirectory file kept
  obtain ⟨name, -, place⟩ := exists_name_of_mem_keptPaths store keeps.named kept
  have written :
      store.write file content = (store.withContent (store.place file) content, none) :=
    (write_eq_ok_iff ..).2 ⟨keeps.free _ _, reaches_of_mem_keptPaths keeps.named reaches kept,
      fun _ => noDirectory, rfl⟩
  refine edits_change _ written ?_ (elsewhere.update kept (some content))
  have plain := keeps.plain file
  rw [place] at plain noDirectory ⊢
  exact isEdited_withContent keeps.tree plain noDirectory keeps.clear content

/-- Making the directory of the files changes none of them, and then it is there. -/
theorem exists_makeDirectories (keeps : CanKeep store path) :
    ∃ after, store.makeDirectories (directory path) = (after, none) ∧
      store.IsEdited (store.place (directory path)) store.fileAt? after ∧
      after.HasDirectory (store.place (directory path)) := by
  refine ⟨store.withDirectories (store.place (directory path)), ?_, ?_, ?_⟩
  · refine (makeDirectories_eq_ok_iff ..).2
      ⟨keeps.free _ _, fun onDisk ancestor member => ⟨?_, fun _ => keeps.free _ _⟩, rfl⟩
    rcases place_ancestor store member with upper | outer
    · exact keeps.clear _ upper
    · intro file
      exact file.not_hasDirectory (keeps.situated onDisk _ outer)
  · exact isEdited_withDirectories keeps.tree (keeps.plain _) keeps.clear
  · by_cases root : store.place (directory path) = []
    · rw [root]
      exact hasDirectory_root _
    · rw [HasDirectory, node?_withDirectories]
      cases there : store.node? (store.place (directory path)) with
      | none =>
          rw [if_pos ⟨there, Exposes.refl store root⟩]
          exact ⟨_, rfl, isDirectory_asDirectory _⟩
      | some node =>
          have standing :=
            isDirectory_of_not_hasFile (keeps.clear _ (List.prefix_refl _)) there
          split
          · exact ⟨_, rfl, isDirectory_asDirectory _⟩
          · exact ⟨node, rfl, standing⟩

/-- Once its directory is there, a path can be followed if what it passes was there before or was
made for it. -/
theorem reaches_iff_follows
    (keeps : CanKeep store path)
    {files : Place → Option Text}
    {after : FileStore}
    (edited : store.IsEdited (store.place (directory path)) files after)
    (directoryThere : after.HasDirectory (store.place (directory path))) :
    after.Reaches path ↔ Follows store path := by
  have nonempty : path ≠ [] := by
    rintro rfl
    exact keeps.named.nonempty rfl
  have samePassed (part : List Text) : after.passed path part = store.passed path part := by
    rw [passed, passed, start, start, edited.workingDirectory]
  have thereIff (place : Place) :
      after.HasDirectory place ↔
        store.HasDirectory place ∨ place <+: store.place (directory path) := by
    refine ⟨edited.opens place, ?_⟩
    rintro (earlier | upper)
    · exact edited.keeps place earlier
    · by_cases whole : place = store.place (directory path)
      · rwa [whole]
      · obtain ⟨node, found, -⟩ := directoryThere
        exact edited.tree.hasDirectory_of_below (by rw [found]; exact Option.some_ne_none node)
          upper whole
  rw [Reaches, Follows, edited.manner]
  refine imp_congr_right fun _ => ?_
  rw [and_iff_right nonempty]
  simp only [samePassed, thereIff]

/-- Where a file of settings is, its path can be followed once its directory is there. -/
theorem follows_of_reaches (reaches : store.Reaches path) :
    Follows store path :=
  fun onDisk part shorter differs => Or.inl ((reaches onDisk).2 part shorter differs)

/-- What the files become when the present content is kept as a backup: the third backup is given
up, the others move on by one, and the present content is the first. -/
def agedFiles (store : FileStore) (path content : Text) : Place → Option Text :=
  let files := Function.update store.fileAt? (store.place (backupPath path 3)) none
  let files :=
    Function.update (Function.update files (store.place (backupPath path 2)) none)
      (store.place (backupPath path 3)) (store.fileAt? (store.place (backupPath path 2)))
  let files :=
    Function.update (Function.update files (store.place (backupPath path 1)) none)
      (store.place (backupPath path 2)) (store.fileAt? (store.place (backupPath path 1)))
  Function.update files (store.place (backupPath path 1)) (some content)

theorem edits_read
    (keeps : CanKeep store path)
    (reaches : store.Reaches path)
    {content : Text}
    (present : store.fileAt? (store.place path) = some content)
    (context : Text)
    {next : Text → FileWork Unit}
    {files : Place → Option Text}
    (edits : Edits path (next content) store files) :
    Edits path
      ((FileWork.explaining context (.ask fun store => store.read path)).followedBy next)
      store files := by
  have node := (fileAt?_eq_some_iff ..).1 present
  have answer : store.read path = .ok content :=
    (read_eq_ok_iff ..).2 ⟨keeps.free _ _, reaches, _, node, rfl, fun _ => rfl⟩
  obtain ⟨after, performed, edited⟩ := edits
  refine ⟨after, ?_, edited⟩
  simp only [FileWork.followedBy, FileWork.explaining, FileWork.ask, answer, performed]

theorem edits_backUp
    (keeps : CanKeep store path)
    (reaches : store.Reaches path)
    {content : Text}
    (present : store.fileAt? (store.place path) = some content) :
    Edits path (backUp path) store (agedFiles store path content) := by
  have noDirectory := keeps.noDirectory path (by simp [keptPaths])
  have directoryThere := keeps.hasDirectory_of_file present
  rw [Edits, backUp_eq,
    followedBy_contains (ask_contains_eq noDirectory true (by simp [present, reaches])), if_pos rfl]
  -- The places stay the same all the way, and each is changed apart from the others.
  have apart (age : Nat) := place_ne_backupPath store keeps.named age
  obtain ⟨oneTwo, oneThree, twoThree⟩ := places_backupPath_apart store keeps.named
  refine Edits.followedBy keeps (edits_remove keeps reaches (by simp [keptPaths])) ?_
  intro first _ firstEdited firstKeeps
  have firstReaches := firstEdited.reaches reaches
  have second :=
    edits_ageBackup firstKeeps firstReaches 2 (by simp [keptPaths]) (by simp [keptPaths])
      (by rw [firstEdited.place]; exact firstEdited.keeps _ directoryThere)
      (by rw [firstEdited.place, firstEdited.files, Function.update_self])
  simp only [firstEdited.place, firstEdited.files, Function.update_of_ne twoThree] at second
  refine Edits.followedBy firstKeeps second ?_
  intro middle _ middleEdited middleKeeps
  have middleReaches := middleEdited.reaches firstReaches
  have third :=
    edits_ageBackup middleKeeps middleReaches 1 (by simp [keptPaths]) (by simp [keptPaths])
      (by
        rw [middleEdited.place, firstEdited.place]
        exact middleEdited.keeps _ (firstEdited.keeps _ directoryThere))
      (by
        rw [middleEdited.place, firstEdited.place, middleEdited.files,
          Function.update_of_ne twoThree, Function.update_self])
  simp only [middleEdited.place, firstEdited.place, middleEdited.files,
    Function.update_of_ne oneTwo, Function.update_of_ne oneThree] at third
  refine Edits.followedBy middleKeeps third ?_
  intro last _ lastEdited lastKeeps
  have lastReaches := lastEdited.reaches middleReaches
  have stillPresent : last.fileAt? (last.place path) = some content := by
    simp only [lastEdited.place, middleEdited.place, firstEdited.place, lastEdited.files,
      Function.update_of_ne (apart _), present]
  refine edits_read lastKeeps lastReaches stillPresent _ (Edits.explaining ?_ _)
  have fourth :=
    edits_write lastKeeps lastReaches (backupPath path 1) (by simp [keptPaths]) content
  simp only [lastEdited.place, middleEdited.place, firstEdited.place, lastEdited.files] at fourth
  exact fourth

/-- A file that is taken for absent is not backed up. -/
theorem backUp_of_absent
    (keeps : CanKeep store path)
    (absent : store.Reaches path → store.fileAt? (store.place path) = none) :
    backUp path store = (.ok (), store) := by
  have asked : FileWork.contains path store = (.ok false, store) := by
    refine ask_contains_eq (keeps.noDirectory path (by simp [keptPaths])) false ?_
    simpa using absent
  rw [backUp_eq, followedBy_contains asked]
  rfl

/-- The files after a file of settings was saved. -/
def savedFiles (store : FileStore) (path content : Text) : Place → Option Text :=
  Function.update
    (match store.fileAt? (store.place path) with
    | some old => agedFiles store path old
    | none => store.fileAt?)
    (store.place path) (some content)

/-- Making the directory of a file leaves a store in which it is there. -/
theorem edits_makeDirectories
    (keeps : CanKeep store path)
    (context : Text) :
    ∃ after,
      FileWork.explaining context
          (.change fun store => store.makeDirectories (directory path)) store = (.ok (), after) ∧
        store.IsEdited (store.place (directory path)) store.fileAt? after ∧
        after.HasDirectory (store.place (directory path)) := by
  obtain ⟨made, performed, edited, directoryThere⟩ := exists_makeDirectories keeps
  refine ⟨made, ?_, edited, directoryThere⟩
  simp only [FileWork.explaining, FileWork.change, performed]

/-- Saving to a path that can be followed succeeds, and it changes the file and its backups only. -/
theorem edits_save
    (keeps : CanKeep store path)
    (follows : Follows store path)
    (content : Text) :
    Edits path (save path content) store (savedFiles store path content) := by
  -- A file that is there is reached: its directory is there too.
  have reached (old : Text) (present : store.fileAt? (store.place path) = some old) :
      store.Reaches path :=
    (reaches_iff_follows keeps (.refl keeps.tree _) (keeps.hasDirectory_of_file present)).2 follows
  have backedUp :
      Edits path (backUp path) store
        (match store.fileAt? (store.place path) with
        | some old => agedFiles store path old
        | none => store.fileAt?) := by
    cases present : store.fileAt? (store.place path) with
    | none =>
        exact ⟨store, backUp_of_absent keeps fun _ => present, .refl keeps.tree _, fun _ _ => rfl⟩
    | some old => exact edits_backUp keeps (reached old present) present
  refine Edits.followedBy keeps (backedUp.explaining _) ?_
  intro middle _ middleEdited middleKeeps
  obtain ⟨made, performed, madeEdited, directoryThere⟩ :=
    edits_makeDirectories middleKeeps ("failed to create " ++ directory path)
  refine Edits.followedBy middleKeeps ⟨made, performed, madeEdited, fun _ _ => rfl⟩ ?_
  intro last done lastEdited lastKeeps
  obtain rfl : made = last := by
    rw [performed] at done
    exact (Prod.mk.inj done).2
  have reaches : made.Reaches path := by
    rw [middleEdited.place] at madeEdited directoryThere
    exact (reaches_iff_follows keeps (middleEdited.trans madeEdited) directoryThere).2 follows
  have written := edits_write lastKeeps reaches path (by simp [keptPaths]) content
  simp only [lastEdited.place, lastEdited.files, middleEdited.place, middleEdited.files] at written
  exact written.explaining _

/-- Saving to a path that cannot be followed fails, and changes no file. -/
theorem exists_save_of_not_follows
    (keeps : CanKeep store path)
    (lost : ¬ Follows store path)
    (content : Text) :
    ∃ fault after, save path content store = (.error fault, after) ∧
      store.IsEdited (store.place (directory path)) store.fileAt? after := by
  have backedUp := backUp_of_absent keeps fun reaches => (lost (follows_of_reaches reaches)).elim
  obtain ⟨made, performed, edited, directoryThere⟩ :=
    edits_makeDirectories keeps ("failed to create " ++ directory path)
  have notReached : ¬ made.Reaches path :=
    fun reaches => lost ((reaches_iff_follows keeps edited directoryThere).1 reaches)
  obtain ⟨hindrance, hindered⟩ :=
    Option.ne_none_iff_exists'.1 (mt (hindrance?_eq_none_iff made path).1 notReached)
  have free : made.refusal .write (made.place path) = none := by
    rw [edited.refusal]
    exact keeps.free _ _
  have refused : made.write path content = (made, some (made.hindered "open" path hindrance)) := by
    simp only [FileStore.write, writeObstacle?, hindered, free]
  refine ⟨.within ("failed to write " ++ path) (made.hindered "open" path hindrance), made, ?_,
    edited⟩
  have first :
      FileWork.explaining "failed to create backup" (backUp path) store = (.ok (), store) := by
    simp only [FileWork.explaining, backedUp]
  rw [save]
  simp only [bind, FileWork.followedBy, first, performed]
  simp only [FileWork.explaining, FileWork.change, refused]

end Saving

/-! ## The shift register -/

/-- The contents of a file of settings and of its backups, the latest first. -/
structure Shelf where
  current : Option Text
  first : Option Text
  second : Option Text
  third : Option Text
  deriving DecidableEq, Repr

namespace Shelf

/-- The contents that a store has for a file of settings and its backups. -/
def ofStore (store : FileStore) (path : Text) : Shelf where
  current := store.fileAt? (store.place path)
  first := store.fileAt? (store.place (backupPath path 1))
  second := store.fileAt? (store.place (backupPath path 2))
  third := store.fileAt? (store.place (backupPath path 3))

/-- The backups, the latest first. -/
def backups (shelf : Shelf) : List (Option Text) :=
  [shelf.first, shelf.second, shelf.third]

/-- Put a content in the place of the current one, which becomes the first backup. -/
def replace (shelf : Shelf) (content : Text) : Shelf :=
  match shelf.current with
  | some old => ⟨some content, some old, shelf.first, shelf.second⟩
  | none => { shelf with current := some content }

/-- The backups are what was overwritten, the latest first, on top of the backups before. -/
theorem backups_foldl_replace
    (contents : List Text)
    (shelf : Shelf) :
    (contents.foldl replace shelf).backups =
      ((shelf.current.toList ++ contents).dropLast.reverse.map some ++ shelf.backups).take 3 := by
  induction contents generalizing shelf with
  | nil => cases current : shelf.current <;> simp [backups]
  | cons content rest induction =>
      rw [List.foldl_cons, induction]
      cases current : shelf.current with
      | none => simp [replace, current, backups]
      | some old =>
          -- Four backups and the first three of them are the same as far as one looks.
          have dropped (overwritten : List (Option Text)) :
              (overwritten ++ [some old, shelf.first, shelf.second]).take 3 =
                (overwritten ++ [some old, shelf.first, shelf.second, shelf.third]).take 3 := by
            rw [List.take_append, List.take_append]
            congr 1
            exact (List.take_append_of_le_length (by simp)).symm
          simpa [replace, current, backups] using dropped _

end Shelf

theorem ofStore_of_isEdited
    {store after : FileStore}
    {path content : Text}
    (keeps : CanKeep store path)
    (edited :
      store.IsEdited (store.place (directory path)) (savedFiles store path content) after) :
    Shelf.ofStore after path = (Shelf.ofStore store path).replace content := by
  have apart (age : Nat) := place_ne_backupPath store keeps.named age
  obtain ⟨oneTwo, oneThree, twoThree⟩ := places_backupPath_apart store keeps.named
  cases present : store.fileAt? (store.place path) with
  | none =>
      simp [Shelf.ofStore, Shelf.replace, edited.place, edited.files, savedFiles, present,
        (apart _).symm]
  | some old =>
      simp [Shelf.ofStore, Shelf.replace, edited.place, edited.files, savedFiles, present,
        agedFiles, (apart _).symm, oneTwo.symm, oneThree.symm, twoThree.symm]

/-! ## Calls -/

/-- The calls that write a file of settings. -/
inductive Call where
  | set (key : Text) (value : Toml.Value)
  | write (settings : Settings)
  | create (directory : Text) (force : Bool)

namespace Call

/-- Whether a call is about the file at a path. -/
def IsOn (path : Text) : Call → Prop
  | .set _ _ => True
  | .write _ => True
  | .create directory _ => join [directory, fileName] = path

instance (path : Text) (call : Call) : Decidable (call.IsOn path) :=
  match call with
  | .set _ _ => inferInstanceAs (Decidable True)
  | .write _ => inferInstanceAs (Decidable True)
  | .create directory _ => inferInstanceAs (Decidable (join [directory, fileName] = path))

/-- Perform a call. -/
def perform (codec : Codec) (path : Text) : Call → FileWork Unit
  | .set key value => setValue codec path key value
  | .write settings => settings.write codec path
  | .create directory force => (createFile codec directory force).followedBy fun _ => .done ()

/-- The text that a call sets out to write, or why it writes none. -/
def text (codec : Codec) (path : Text) (store : FileStore) : Call → Except Fault Text
  | .set key value =>
    match splitKey? key with
    | none =>
      .error (.plain ("key " ++ key.quote ++ " must be section.name, e.g. generate.workers"))
    | some (sectionName, name) =>
      match (readDocument codec path store).1 with
      | .error fault => .error fault
      | .ok document =>
        let text := codec.print (Toml.sortEntries (changed document sectionName name value))
        match checkText codec text with
        | .error fault => .error (.within ("invalid value for " ++ key) fault)
        | .ok _ => .ok text
  | .write settings => .ok (codec.print settings.document)
  | .create _ force =>
    match store.contains path with
    | .error fault => .error (.within ("failed to stat " ++ path) fault)
    | .ok exists? =>
      if exists? && !force then
        .error
          (.hinted "pass --force to overwrite it; the current file is kept as .back1"
            (.plain (path ++ " already exists")))
      else
        .ok (codec.print Settings.default.document)

theorem readDocument_snd
    (codec : Codec)
    (path : Text)
    (store : FileStore) :
    (readDocument codec path store).2 = store := by
  rw [readDocument]
  split
  · split <;> rfl
  · split <;> rfl

theorem perform_create
    (codec : Codec)
    (directory : Text)
    (force : Bool)
    (store : FileStore) :
    (Call.create directory force).perform codec (join [directory, fileName]) store =
      match (Call.create directory force).text codec (join [directory, fileName]) store with
      | .error fault => (.error fault, store)
      | .ok text => save (join [directory, fileName]) text store := by
  simp only [perform, text, createFile, bind, FileWork.followedBy, FileWork.explaining,
    FileWork.ask]
  cases store.contains (join [directory, fileName]) with
  | error fault => rfl
  | ok exists? =>
      cases refused : exists? && !force with
      | true =>
          simp only [refused, if_true]
          rfl
      | false =>
          simp only [refused, Bool.false_eq_true, if_false, Settings.write]
          cases saved :
              save (join [directory, fileName]) (codec.print Settings.default.document) store with
          | mk outcome after =>
              simp only [FileWork.followedBy, saved]
              cases outcome <;> rfl

/-- A call that writes nothing leaves the store as it is, and any other saves its text. -/
theorem perform_eq
    (codec : Codec)
    {path : Text}
    {call : Call}
    (on : call.IsOn path)
    (store : FileStore) :
    call.perform codec path store =
      match call.text codec path store with
      | .error fault => (.error fault, store)
      | .ok text => save path text store := by
  cases call with
  | write settings => rfl
  | create directory force =>
      rw [IsOn] at on
      subst on
      exact perform_create codec directory force store
  | set key value =>
      simp only [perform, text, setValue]
      cases splitKey? key with
      | none => rfl
      | some parts =>
          obtain ⟨sectionName, name⟩ := parts
          have untouched := readDocument_snd codec path store
          simp only [bind, FileWork.followedBy]
          cases read : readDocument codec path store with
          | mk outcome after =>
              rw [read] at untouched
              simp only at untouched
              subst untouched
              cases outcome with
              | error fault => rfl
              | ok document =>
                  simp only [FileWork.explaining, FileWork.ask]
                  cases checkText codec
                    (codec.print (Toml.sortEntries (changed document sectionName name value))) <;>
                      rfl

end Call

/-! ## Rows of calls -/

/-- The store after some calls, whether they succeed or not. -/
def performAll (codec : Codec) (path : Text) : List Call → FileStore → FileStore
  | [], store => store
  | call :: rest, store => performAll codec path rest (call.perform codec path store).2

/-- What the calls that succeed write, in their order. -/
def contentsWritten (codec : Codec) (path : Text) : List Call → FileStore → List Text
  | [], _ => []
  | call :: rest, store =>
    let later := contentsWritten codec path rest (call.perform codec path store).2
    match (call.perform codec path store).1, call.text codec path store with
    | .ok (), .ok content => content :: later
    | _, _ => later

/-- A call shifts the register, or leaves all files as they are; where the path can be followed, a
call that fails leaves the whole store as it is. -/
structure Shifts (codec : Codec) (path : Text) (call : Call) (store : FileStore) : Prop where
  refused : ∀ fault, (call.perform codec path store).1 = .error fault →
    (call.perform codec path store).2.fileAt? = store.fileAt? ∧
      (Follows store path → (call.perform codec path store).2 = store)
  written : (call.perform codec path store).1 = .ok () →
    ∃ content, call.text codec path store = .ok content ∧
      Shelf.ofStore (call.perform codec path store).2 path =
        (Shelf.ofStore store path).replace content
  elsewhere : SameElsewhere store path (call.perform codec path store).2.fileAt?

section Rows

variable
  (codec : Codec)
  {store : FileStore}
  {path : Text}

/-- What a call comes to: it writes its text, or it fails and changes no file. -/
theorem perform_cases
    (keeps : CanKeep store path)
    {call : Call}
    (on : call.IsOn path) :
    (∃ content after,
      call.text codec path store = .ok content ∧
        call.perform codec path store = (.ok (), after) ∧
        store.IsEdited (store.place (directory path)) (savedFiles store path content) after ∧
        SameElsewhere store path (savedFiles store path content)) ∨
      ∃ fault after,
        call.perform codec path store = (.error fault, after) ∧
          store.IsEdited (store.place (directory path)) store.fileAt? after ∧
          (Follows store path → after = store) := by
  have performed := Call.perform_eq codec on store
  cases writes : call.text codec path store with
  | error fault =>
      rw [writes] at performed
      exact Or.inr ⟨fault, store, performed, .refl keeps.tree _, fun _ => rfl⟩
  | ok content =>
      rw [writes] at performed
      by_cases follows : Follows store path
      · obtain ⟨after, saved, edited, elsewhere⟩ := edits_save keeps follows content
        exact Or.inl ⟨content, after, rfl, performed.trans saved, edited, elsewhere⟩
      · obtain ⟨fault, after, failed, edited⟩ := exists_save_of_not_follows keeps follows content
        exact Or.inr ⟨fault, after, performed.trans failed, edited, fun can => (follows can).elim⟩

/-- Every call shifts the register. -/
theorem shifts_of_canKeep
    (keeps : CanKeep store path)
    {call : Call}
    (on : call.IsOn path) :
    Shifts codec path call store := by
  rcases perform_cases codec keeps on with
    ⟨content, after, writes, performed, edited, elsewhere⟩ | ⟨fault, after, performed, edited, same⟩
  · refine ⟨fun fault failed => ?_, fun _ => ⟨content, writes, ?_⟩, ?_⟩
    · rw [performed] at failed
      exact absurd failed (by simp)
    · rw [performed]
      exact ofStore_of_isEdited keeps edited
    · rw [performed, edited.files]
      exact elsewhere
  · refine ⟨fun _ _ => ?_, fun succeeded => ?_, fun place _ => ?_⟩
    · rw [performed]
      exact ⟨edited.files, same⟩
    · rw [performed] at succeeded
      exact absurd succeeded (by simp)
    · rw [performed, edited.files]

/-- A store that can keep the files still can after a call, and the places are the same. -/
theorem CanKeep.perform
    (keeps : CanKeep store path)
    {call : Call}
    (on : call.IsOn path) :
    CanKeep (call.perform codec path store).2 path ∧
      ∀ file, (call.perform codec path store).2.place file = store.place file := by
  rcases perform_cases codec keeps on with
    ⟨content, after, -, performed, edited, elsewhere⟩ | ⟨fault, after, performed, edited, -⟩
  · rw [performed]
    exact ⟨keeps.of_isEdited edited elsewhere, edited.place⟩
  · rw [performed]
    exact ⟨keeps.of_isEdited edited fun _ _ => rfl, edited.place⟩

/-- What holds of every store that the calls before a point leave. -/
theorem CanKeep.performAll
    (keeps : CanKeep store path)
    {calls : List Call}
    (on : ∀ call ∈ calls, call.IsOn path) :
    CanKeep (performAll codec path calls store) path ∧
      SameElsewhere store path (Settings.performAll codec path calls store).fileAt? := by
  induction calls generalizing store with
  | nil => exact ⟨keeps, fun _ _ => rfl⟩
  | cons call rest induction =>
      have onCall := on call List.mem_cons_self
      obtain ⟨kept, places⟩ := keeps.perform codec onCall
      obtain ⟨later, elsewhere⟩ :=
        induction kept fun other member => on other (List.mem_cons_of_mem call member)
      refine ⟨later, fun place other => ?_⟩
      rw [Settings.performAll, elsewhere place (by simpa only [places] using other)]
      exact (shifts_of_canKeep codec keeps onCall).elsewhere place other

/-- The register after some calls. -/
theorem ofStore_performAll
    (keeps : CanKeep store path)
    {calls : List Call}
    (on : ∀ call ∈ calls, call.IsOn path) :
    Shelf.ofStore (performAll codec path calls store) path =
      (contentsWritten codec path calls store).foldl Shelf.replace (Shelf.ofStore store path) := by
  induction calls generalizing store with
  | nil => rfl
  | cons call rest induction =>
      have onCall := on call List.mem_cons_self
      rw [performAll, contentsWritten,
        induction (keeps.perform codec onCall).1
          fun other member => on other (List.mem_cons_of_mem call member)]
      rcases perform_cases codec keeps onCall with
        ⟨content, after, writes, performed, edited, -⟩ | ⟨fault, after, performed, edited, -⟩
      · rw [performed, writes, List.foldl_cons, ofStore_of_isEdited keeps edited]
      · have same : Shelf.ofStore after path = Shelf.ofStore store path := by
          simp only [Shelf.ofStore, edited.place, edited.files]
        rw [performed, same]

end Rows

/-! ## The main statement -/

/-- A store in memory with a file of settings, a single backup, and another file beside them. -/
def notedStore : FileStore :=
  ⟨.memory, [],
    [ (["w".toList], .directory), (["w".toList, "hsuno.toml".toList], .file "# mine"),
      (["w".toList, "hsuno.toml.back2".toList], .file "# older"),
      (["w".toList, "notes.txt".toList], .file "notes") ],
    fun _ _ => none, fun _ => none⟩

/-- Two calls that are refused, each before one that is not. -/
def notedCalls : List Call :=
  [.create "/w" false, .write .default, .set "workers" (.integer 2), .create "/w" true]

theorem canKeep_notedStore :
    CanKeep notedStore "/w/hsuno.toml" where
  named := by decide
  tree := by decide
  situated onDisk := Manner.noConfusion onDisk
  free _ _ := rfl
  clear above upper := by
    have none :
        ∀ above ∈ (notedStore.place (directory "/w/hsuno.toml")).inits,
          ¬ notedStore.HasFile above := by decide
    exact none above ((List.mem_inits ..).2 upper)
  noDirectory := by decide

end Settings

end UnoBindgen
