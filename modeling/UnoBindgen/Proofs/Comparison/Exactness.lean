import Mathlib
import UnoBindgen.Proofs.Comparison
import UnoBindgen.Proofs.Fault
import UnoBindgen.Proofs.Text.ByteOrder

/-!
# What a comparison lists

Each of two directories holds files by their relative paths, and a comparison sorts these into three
lists.  `Comparison.Describes` says which files belong into each list, and nothing about how they are
found; since the lists increase strictly, at most one comparison describes two directories.

The main theorem states that directories whose files can be listed and read are compared exactly when
no file stands on the way to one of them, and that the comparison is then the one that describes
them.  The order in which a store lists its files does not show, and neither does whether it could
have been changed.  A directory that is not there counts as empty, but one below a file does not.
-/

namespace UnoBindgen

/-! ## Files below a directory -/

namespace FileStore

/-- A path leads to something. -/
def LeadsThere (store : FileStore) (path : Text) : Prop :=
  store.Reaches path ∧ store.node? (store.place path) ≠ none

/-- A path leads to a directory, and below it, by way of directories alone, there is a file with this
relative path and this content.  Nothing is below a directory that is not there. -/
structure HoldsBelow
    (store : FileStore)
    (root file content : Text) :
    Prop where
  reached : store.Reaches root
  present : store.HasDirectory (store.place root)
  below :
    ∃ way,
      way ≠ [] ∧
        store.IsOpenWay (store.place root) way ∧
        store.node? (store.place root ++ way) = some (.file content) ∧
        Text.join ['/'] way = file

/-- A file with this relative path is below a directory. -/
def HasBelow
    (store : FileStore)
    (root file : Text) :
    Prop :=
  ∃ content, store.HoldsBelow root file content

/-- A directory, or nothing, whose files can be listed and read. -/
structure IsReadable
    (store : FileStore)
    (root : Text) :
    Prop where
  noFile : store.Reaches root → ¬ store.HasFile (store.place root)
  lists : ∀ way, store.refusal .list (store.place root ++ way) = none
  reads : ∀ way, store.refusal .read (store.place root ++ way) = none

theorem HoldsBelow.leadsThere
    {store : FileStore}
    {root file content : Text}
    (held : store.HoldsBelow root file content) :
    store.LeadsThere root := by
  obtain ⟨node, found, -⟩ := held.present
  exact ⟨held.reached, by rw [found]; exact Option.some_ne_none node⟩

/-- Two stores with the same nodes in the same standing. -/
structure SameNodes
    (store other : FileStore) :
    Prop where
  manner : other.manner = store.manner
  workingDirectory : other.workingDirectory = store.workingDirectory
  node? : ∀ place, other.node? place = store.node? place

namespace SameNodes

variable
  {store other : FileStore}
  (same : SameNodes store other)

include same

theorem symm : SameNodes other store :=
  ⟨same.manner.symm, same.workingDirectory.symm, fun place => (same.node? place).symm⟩

theorem place (path : Text) : other.place path = store.place path := by
  rw [FileStore.place, FileStore.place, same.workingDirectory]

theorem reaches_iff (path : Text) : other.Reaches path ↔ store.Reaches path := by
  rw [← hindrance?_eq_none_iff, ← hindrance?_eq_none_iff,
    hindrance?_congr same.manner same.workingDirectory same.node?]

theorem meetsFile_iff (path : Text) : other.MeetsFile path ↔ store.MeetsFile path := by
  rw [← hindrance?_eq_noDirectory_iff, ← hindrance?_eq_noDirectory_iff,
    hindrance?_congr same.manner same.workingDirectory same.node?]

theorem holdsBelow
    {root file content : Text}
    (held : store.HoldsBelow root file content) :
    other.HoldsBelow root file content where
  reached := (same.reaches_iff root).2 held.reached
  present := by
    rw [HasDirectory, same.place, same.node?]
    exact held.present
  below := by
    obtain ⟨way, nonempty, isOpen, found, shown⟩ := held.below
    rw [same.place]
    refine ⟨way, nonempty, fun part partNonempty shorter differs => ?_, ?_, shown⟩
    · rw [HasDirectory, same.node?]
      exact isOpen part partNonempty shorter differs
    · rw [same.node?, found]

theorem holdsBelow_iff (root file content : Text) :
    other.HoldsBelow root file content ↔ store.HoldsBelow root file content :=
  ⟨same.symm.holdsBelow, same.holdsBelow⟩

theorem isReadable
    {root : Text}
    (readable : store.IsReadable root)
    (lists : ∀ way, other.refusal .list (store.place root ++ way) = none)
    (reads : ∀ way, other.refusal .read (store.place root ++ way) = none) :
    other.IsReadable root where
  noFile reached := by
    rw [HasFile, same.place, same.node?]
    exact readable.noFile ((same.reaches_iff root).1 reached)
  lists := by
    rw [same.place]
    exact lists
  reads := by
    rw [same.place]
    exact reads

end SameNodes

theorem eq_file_of_not_isDirectory
    {node : FileNode}
    (isFile : node.isDirectory = false) :
    node = .file node.content := by
  cases node
  exact congrArg (FileNode.mk _) isFile

/-- The files that one comes by from a directory are those that it holds. -/
theorem findsBelow_iff_hasBelow
    {store : FileStore}
    {root : Text}
    (noFile : store.Reaches root → ¬ store.HasFile (store.place root))
    (file : Text) :
    store.FindsBelow root file ↔ store.HasBelow root file := by
  constructor
  · rintro ⟨reached, way, fileWay, rfl⟩
    cases way with
    | nil => exact (noFile reached ((isFileWay_nil_iff store _).1 fileWay)).elim
    | cons name rest =>
        obtain ⟨node, found, isFile⟩ := fileWay.isFile
        refine ⟨node.content, reached, ?_, name :: rest, by simp, ?_, ?_, rfl⟩
        · exact ((isFileWay_cons_iff _ _ _ _).1 fileWay).1
        · exact fun part _ shorter differs => fileWay.through part shorter differs
        · rw [found, ← eq_file_of_not_isDirectory isFile]
  · rintro ⟨content, reached, directory, way, nonempty, isOpen, found, rfl⟩
    refine ⟨reached, way, ⟨⟨_, found, rfl⟩, fun part shorter differs => ?_⟩, ?_⟩
    · by_cases here : part = []
      · rwa [here, List.append_nil]
      · exact isOpen part here shorter differs
    · cases way with
      | nil => exact (nonempty rfl).elim
      | cons name rest => rfl

theorem sameNodes_readOnly (store : FileStore) :
    SameNodes store store.readOnly :=
  ⟨rfl, rfl, fun _ => rfl⟩

variable
  {store : FileStore}
  (lists : store.ListsPlainly)

include lists

/-- The order in which places are listed does not matter. -/
theorem ListsPlainly.reorder
    {nodes : List (Place × FileNode)}
    (perm : nodes.Perm store.nodes) :
    ListsPlainly { store with nodes := nodes } where
  nodup := ((perm.map Prod.fst).nodup_iff).2 lists.nodup
  plain place listed := lists.plain place ((perm.map Prod.fst).mem_iff.1 listed)

theorem ListsPlainly.sameNodes_reorder
    {nodes : List (Place × FileNode)}
    (perm : nodes.Perm store.nodes) :
    SameNodes store { store with nodes := nodes } where
  manner := rfl
  workingDirectory := rfl
  node? place := by
    by_cases root : place = []
    · rw [root, node?_root, node?_root]
    · rw [node?_of_ne_nil _ root, node?_of_ne_nil _ root]
      ext node
      rw [lookup_eq_some_iff_mem (lists.reorder perm).nodup, lookup_eq_some_iff_mem lists.nodup]
      exact perm.mem_iff

/-- A file below a directory is read by its relative path. -/
theorem ListsPlainly.read_of_holdsBelow
    {root file content : Text}
    (reads : ∀ way, store.refusal .read (store.place root ++ way) = none)
    (held : store.HoldsBelow root file content) :
    store.read (Text.SlashPath.join [root, file]) = .ok content := by
  obtain ⟨way, nonempty, isOpen, found, rfl⟩ := held.below
  have listed := found
  rw [node?_of_ne_nil store (by simp [nonempty]), lookup_eq_some_iff_mem lists.nodup] at listed
  have plain := lists.isPlain_of_mem_way listed
  rw [read_eq_ok_iff, place_join store root plain]
  exact ⟨reads way, held.reached.below held.present nonempty plain isOpen, _, found, rfl,
    fun _ => rfl⟩

end FileStore

namespace Comparison

/-! ## Descriptions -/

/-- The lists of a comparison, as the files of the two directories settle them. -/
structure Describes
    (comparison : Comparison)
    (store : FileStore)
    (fresh existing : Text)
    (options : NamingOptions) :
    Prop where
  missing :
    ∀ file,
      file ∈ comparison.missing ↔ store.HasBelow fresh file ∧ ¬ store.HasBelow existing file
  differences :
    ∀ file,
      file ∈ comparison.differences ↔
        ∃ left right,
          store.HoldsBelow fresh file left ∧ store.HoldsBelow existing file right ∧ left ≠ right
  stale :
    ∀ file,
      file ∈ comparison.stale ↔
        store.HasBelow existing file ∧
          ¬ store.HasBelow fresh file ∧
          Text.SlashPath.extension file ∈
            [options.headerExtension, options.sourceExtension, options.bindingExtension]
  increasing :
    ∀ files ∈ [comparison.missing, comparison.differences, comparison.stale],
      files.Pairwise fun earlier later => earlier.bytes < later.bytes

namespace Describes

variable
  {comparison : Comparison}
  {store : FileStore}
  {fresh existing : Text}
  {options : NamingOptions}

/-- At most one comparison describes two directories. -/
theorem unique
    (describes : comparison.Describes store fresh existing options)
    {other : Comparison}
    (otherDescribes : other.Describes store fresh existing options) :
    other = comparison := by
  have sameMissing : other.missing = comparison.missing :=
    Text.eq_of_increasing (otherDescribes.increasing _ (by simp))
      (describes.increasing _ (by simp)) fun file =>
        (otherDescribes.missing file).trans (describes.missing file).symm
  have sameDifferences : other.differences = comparison.differences :=
    Text.eq_of_increasing (otherDescribes.increasing _ (by simp))
      (describes.increasing _ (by simp)) fun file =>
        (otherDescribes.differences file).trans (describes.differences file).symm
  have sameStale : other.stale = comparison.stale :=
    Text.eq_of_increasing (otherDescribes.increasing _ (by simp))
      (describes.increasing _ (by simp)) fun file =>
        (otherDescribes.stale file).trans (describes.stale file).symm
  cases other
  cases comparison
  exact Comparison.mk.injEq .. ▸ ⟨sameDifferences, sameMissing, sameStale⟩

/-- Only the nodes of a store matter. -/
theorem congr
    {other : FileStore}
    (same : FileStore.SameNodes store other)
    (describes : comparison.Describes store fresh existing options) :
    comparison.Describes other fresh existing options where
  missing file := by
    simp only [FileStore.HasBelow, same.holdsBelow_iff]
    exact describes.missing file
  differences file := by
    simp only [same.holdsBelow_iff]
    exact describes.differences file
  stale file := by
    simp only [FileStore.HasBelow, same.holdsBelow_iff]
    exact describes.stale file
  increasing := describes.increasing

/-- No file is in two of the lists. -/
theorem pairwise_disjoint
    (describes : comparison.Describes store fresh existing options) :
    [comparison.missing, comparison.differences, comparison.stale].Pairwise List.Disjoint := by
  have missingOnce : comparison.missing.Disjoint comparison.differences := by
    intro file isMissing differs
    obtain ⟨-, right, -, heldRight, -⟩ := (describes.differences file).1 differs
    exact ((describes.missing file).1 isMissing).2 ⟨right, heldRight⟩
  have missingFresh : comparison.missing.Disjoint comparison.stale := by
    intro file isMissing isStale
    exact ((describes.stale file).1 isStale).2.1 ((describes.missing file).1 isMissing).1
  have differingFresh : comparison.differences.Disjoint comparison.stale := by
    intro file differs isStale
    obtain ⟨left, -, heldLeft, -, -⟩ := (describes.differences file).1 differs
    exact ((describes.stale file).1 isStale).2.1 ⟨left, heldLeft⟩
  simp [missingOnce, missingFresh, differingFresh]

/-- A fresh directory that is not there misses nothing and differs in nothing. -/
theorem eq_nil_of_absent_fresh
    (describes : comparison.Describes store fresh existing options)
    (absent : ¬ store.LeadsThere fresh) :
    comparison.missing = [] ∧ comparison.differences = [] := by
  constructor
  · refine List.eq_nil_iff_forall_not_mem.2 fun file isMissing => ?_
    obtain ⟨⟨content, held⟩, -⟩ := (describes.missing file).1 isMissing
    exact absent held.leadsThere
  · refine List.eq_nil_iff_forall_not_mem.2 fun file differs => ?_
    obtain ⟨left, -, held, -, -⟩ := (describes.differences file).1 differs
    exact absent held.leadsThere

/-- An existing directory that is not there has no stale files and differs in nothing. -/
theorem eq_nil_of_absent_existing
    (describes : comparison.Describes store fresh existing options)
    (absent : ¬ store.LeadsThere existing) :
    comparison.differences = [] ∧ comparison.stale = [] := by
  constructor
  · refine List.eq_nil_iff_forall_not_mem.2 fun file differs => ?_
    obtain ⟨-, right, -, held, -⟩ := (describes.differences file).1 differs
    exact absent held.leadsThere
  · refine List.eq_nil_iff_forall_not_mem.2 fun file isStale => ?_
    obtain ⟨⟨content, held⟩, -⟩ := (describes.stale file).1 isStale
    exact absent held.leadsThere

end Describes

/-! ## Making the comparison -/

theorem isListable_of_isReadable
    {store : FileStore}
    {root : Text}
    (readable : store.IsReadable root)
    (clear : ¬ store.MeetsFile root) :
    IsListable store root :=
  ⟨fun stopped => clear ((store.hindrance?_eq_noDirectory_iff root).1 stopped), readable.lists⟩

section Made

variable
  {store : FileStore}
  (lists : store.ListsPlainly)
  {fresh existing : Text}
  (freshReadable : store.IsReadable fresh)
  (existingReadable : store.IsReadable existing)

include lists freshReadable existingReadable

theorem differs_of_holdsBelow
    {file left right : Text}
    (heldLeft : store.HoldsBelow fresh file left)
    (heldRight : store.HoldsBelow existing file right) :
    differs store fresh existing file = .ok (left != right) := by
  have readLeft : readFile store fresh file = .ok left := by
    simp only [readFile, lists.read_of_holdsBelow freshReadable.reads heldLeft]
  have readRight : readFile store existing file = .ok right := by
    simp only [readFile, lists.read_of_holdsBelow existingReadable.reads heldRight]
  simp only [differs, readLeft, readRight]
  rfl

/-- Files of both directories are told apart by their contents. -/
theorem exists_differing_exactly
    {files : List Text}
    (inFresh : ∀ file ∈ files, store.HasBelow fresh file)
    (inExisting : ∀ file ∈ files, store.HasBelow existing file) :
    ∃ differences,
      differing store fresh existing files = .ok differences ∧
        differences.Sublist files ∧
        ∀ file,
          file ∈ differences ↔
            file ∈ files ∧
              ∃ left right,
                store.HoldsBelow fresh file left ∧
                  store.HoldsBelow existing file right ∧
                  left ≠ right := by
  induction files with
  | nil => exact ⟨[], rfl, List.Sublist.refl [], by simp⟩
  | cons first rest induction =>
      obtain ⟨left, heldLeft⟩ := inFresh first List.mem_cons_self
      obtain ⟨right, heldRight⟩ := inExisting first List.mem_cons_self
      obtain ⟨others, compared, sublist, members⟩ :=
        induction (fun file member => inFresh file (List.mem_cons_of_mem first member))
          fun file member => inExisting file (List.mem_cons_of_mem first member)
      have here := differs_of_holdsBelow lists freshReadable existingReadable heldLeft heldRight
      by_cases same : left = right
      · -- Any other contents of the file give the same answer, so none of them differ.
        have alike :
            ¬ ∃ one other,
              store.HoldsBelow fresh first one ∧
                store.HoldsBelow existing first other ∧
                one ≠ other := by
          rintro ⟨one, other, heldOne, heldOther, differ⟩
          have again :=
            differs_of_holdsBelow lists freshReadable existingReadable heldOne heldOther
          rw [here, same, bne_self_eq_false] at again
          exact differ (by simpa using Except.ok.inj again)
        refine ⟨others, ?_, sublist.cons first, fun file => ?_⟩
        · simp only [differing, here, compared, same, bne_self_eq_false]
          rfl
        · rw [members, List.mem_cons]
          constructor
          · rintro ⟨member, contents⟩
            exact ⟨Or.inr member, contents⟩
          · rintro ⟨rfl | member, contents⟩
            · exact (alike contents).elim
            · exact ⟨member, contents⟩
      · refine ⟨first :: others, ?_, sublist.cons_cons first, fun file => ?_⟩
        · have different : (left != right) = true := bne_iff_ne.2 same
          simp only [differing, here, compared, different]
          rfl
        · rw [List.mem_cons, List.mem_cons, members]
          constructor
          · rintro (rfl | ⟨member, contents⟩)
            · exact ⟨Or.inl rfl, left, right, heldLeft, heldRight, same⟩
            · exact ⟨Or.inr member, contents⟩
          · rintro ⟨rfl | member, contents⟩
            · exact Or.inl rfl
            · exact Or.inr ⟨member, contents⟩

/-- Readable directories are compared, and the comparison describes them. -/
theorem exists_describes_of_isReadable
    (freshClear : ¬ store.MeetsFile fresh)
    (existingClear : ¬ store.MeetsFile existing)
    (options : NamingOptions) :
    ∃ comparison,
      ofTrees store fresh existing options = .ok comparison ∧
        comparison.Describes store fresh existing options := by
  obtain ⟨freshFiles, ofFresh, freshOnce, found⟩ :=
    exists_filesOf lists (isListable_of_isReadable freshReadable freshClear)
  obtain ⟨existingFiles, ofExisting, existingOnce, foundExisting⟩ :=
    exists_filesOf lists (isListable_of_isReadable existingReadable existingClear)
  have inFresh (file : Text) : file ∈ freshFiles ↔ store.HasBelow fresh file :=
    (found file).trans (FileStore.findsBelow_iff_hasBelow freshReadable.noFile file)
  have inExisting (file : Text) : file ∈ existingFiles ↔ store.HasBelow existing file :=
    (foundExisting file).trans (FileStore.findsBelow_iff_hasBelow existingReadable.noFile file)
  obtain ⟨differences, compared, sublist, members⟩ :=
    exists_differing_exactly lists freshReadable existingReadable
      (fun file (member : file ∈ freshFiles.filter fun file => existingFiles.contains file) =>
        (inFresh file).1 (List.mem_filter.1 member).1)
      (fun file member =>
        (inExisting file).1 (List.contains_iff_mem.1 (List.mem_filter.1 member).2))
  obtain ⟨comparison, computed, sorted⟩ :
      ∃ comparison,
        ofTrees store fresh existing options = .ok comparison ∧
          comparison.differences = Text.sort differences := by
    simp only [ofTrees, ofFresh, ofExisting, bind_eq_ok_iff]
    exact ⟨_, ⟨_, rfl, _, rfl, differences, compared, rfl⟩, rfl⟩
  obtain ⟨sortedMissing, sortedStale⟩ := eq_sort_of_ofTrees ofFresh ofExisting computed
  refine ⟨comparison, computed, fun file => ?_, fun file => ?_, fun file => ?_, ?_⟩
  · rw [mem_missing_iff ofFresh ofExisting computed, inFresh, inExisting]
  · rw [sorted, Text.mem_sort, members, List.mem_filter, List.contains_iff_mem, inFresh,
      inExisting]
    constructor
    · rintro ⟨-, contents⟩
      exact contents
    · rintro ⟨left, right, heldLeft, heldRight, differ⟩
      exact ⟨⟨⟨left, heldLeft⟩, right, heldRight⟩, left, right, heldLeft, heldRight, differ⟩
  · rw [mem_stale_iff ofFresh ofExisting computed, inExisting, inFresh]
    simp only [looksGenerated, Bool.or_eq_true, beq_iff_eq, List.mem_cons, List.not_mem_nil,
      or_false, or_assoc]
  · intro files listed
    simp only [List.mem_cons, List.not_mem_nil, or_false] at listed
    rcases listed with rfl | rfl | rfl
    · rw [sortedMissing]
      exact Text.pairwise_lt_sort (freshOnce.filter _)
    · rw [sorted]
      exact Text.pairwise_lt_sort ((freshOnce.filter _).sublist sublist)
    · rw [sortedStale]
      exact Text.pairwise_lt_sort (existingOnce.filter _)

end Made

/-- A comparison is made only when no file stands on the way to one of the directories. -/
theorem not_meetsFile_of_ofTrees
    {store : FileStore}
    {fresh existing : Text}
    {options : NamingOptions}
    {comparison : Comparison}
    (compared : ofTrees store fresh existing options = .ok comparison) :
    ¬ store.MeetsFile fresh ∧ ¬ store.MeetsFile existing := by
  simp only [ofTrees, bind_eq_ok_iff] at compared
  obtain ⟨freshFiles, ofFresh, existingFiles, ofExisting, -⟩ := compared
  simp only [← FileStore.hindrance?_eq_noDirectory_iff]
  exact ⟨fun stopped => filesOf_ne_ok stopped _ ofFresh,
    fun stopped => filesOf_ne_ok stopped _ ofExisting⟩

/-- Stores with the same nodes compare alike. -/
theorem ofTrees_of_sameNodes
    {store other : FileStore}
    {fresh existing : Text}
    (same : FileStore.SameNodes store other)
    (otherLists : other.ListsPlainly)
    (otherFresh : other.IsReadable fresh)
    (otherExisting : other.IsReadable existing)
    {options : NamingOptions}
    {comparison : Comparison}
    (compared : ofTrees store fresh existing options = .ok comparison)
    (describes : comparison.Describes store fresh existing options) :
    ofTrees other fresh existing options = .ok comparison := by
  obtain ⟨freshClear, existingClear⟩ := not_meetsFile_of_ofTrees compared
  obtain ⟨again, comparedAgain, describesAgain⟩ :=
    exists_describes_of_isReadable otherLists otherFresh otherExisting
      (fun meets => freshClear ((same.meetsFile_iff fresh).1 meets))
      (fun meets => existingClear ((same.meetsFile_iff existing).1 meets)) options
  rw [comparedAgain, describes.unique (describesAgain.congr same.symm)]

/-! ## Verdicts -/

theorem isUpToDate_iff (comparison : Comparison) :
    comparison.isUpToDate = true ↔
      comparison.missing = [] ∧ comparison.differences = [] ∧ comparison.stale = [] := by
  simp only [isUpToDate, Bool.and_eq_true, List.isEmpty_iff]
  constructor
  · rintro ⟨⟨noDifferences, noMissing⟩, noStale⟩
    exact ⟨noMissing, noDifferences, noStale⟩
  · rintro ⟨noMissing, noDifferences, noStale⟩
    exact ⟨⟨noDifferences, noMissing⟩, noStale⟩

/-- The numbers of changed, missing and stale files. -/
def counts (comparison : Comparison) : Text :=
  Text.ofNat comparison.differences.length ++ " changed, " ++
    Text.ofNat comparison.missing.length ++ " missing, " ++
    Text.ofNat comparison.stale.length ++ " stale"

/-- Directories that are out of date are reported as such, with the numbers of files. -/
theorem fault?_eq_some_iff
    (comparison : Comparison)
    (fault : Fault) :
    comparison.fault? = some fault ↔
      comparison.isUpToDate = false ∧ fault = .detailed comparison.counts (.ofCondition .outOfDate) := by
  rw [fault?]
  cases comparison.isUpToDate with
  | true => simp
  | false => simp [counts, eq_comm]

theorem fault?_eq_none_iff (comparison : Comparison) :
    comparison.fault? = none ↔ comparison.isUpToDate = true := by
  rw [fault?]
  cases comparison.isUpToDate with
  | true => simp
  | false => simp

/--
Two directories whose files can be listed and read are compared exactly when no file stands on the
way to one of them.  The comparison is the one that describes them: its lists hold the files of the
fresh directory only, the files of both with different contents, and the files of the existing
directory only with one of the three extensions.  The lists increase strictly and share no file, and
a directory that is not there counts as empty.  Directories are up to date when all lists are empty,
and are otherwise reported with the lengths of the lists.  The order in which the store lists its
files does not matter, and a store that refuses every change is compared alike.
-/
theorem ofTrees_exactly
    {store : FileStore}
    (lists : store.ListsPlainly)
    {fresh existing : Text}
    (freshReadable : store.IsReadable fresh)
    (existingReadable : store.IsReadable existing)
    (options : NamingOptions) :
    ((∃ comparison, ofTrees store fresh existing options = .ok comparison) ↔
        ¬ store.MeetsFile fresh ∧ ¬ store.MeetsFile existing) ∧
      ∀ comparison, ofTrees store fresh existing options = .ok comparison →
        comparison.Describes store fresh existing options ∧
          (∀ other : Comparison,
            other.Describes store fresh existing options → other = comparison) ∧
          [comparison.missing, comparison.differences, comparison.stale].Pairwise List.Disjoint ∧
          (¬ store.LeadsThere fresh →
            comparison.missing = [] ∧ comparison.differences = []) ∧
          (¬ store.LeadsThere existing →
            comparison.differences = [] ∧ comparison.stale = []) ∧
          (comparison.isUpToDate = true ↔
            comparison.missing = [] ∧ comparison.differences = [] ∧ comparison.stale = []) ∧
          (comparison.fault? = none ↔ comparison.isUpToDate = true) ∧
          (∀ fault,
            comparison.fault? = some fault ↔
              comparison.isUpToDate = false ∧
                fault = .detailed comparison.counts (.ofCondition .outOfDate)) ∧
          (∀ nodes : List (Place × FileNode),
            nodes.Perm store.nodes →
              ofTrees { store with nodes := nodes } fresh existing options = .ok comparison) ∧
          ofTrees store.readOnly fresh existing options = .ok comparison := by
  have made := exists_describes_of_isReadable lists freshReadable existingReadable
  constructor
  · constructor
    · rintro ⟨comparison, compared⟩
      exact not_meetsFile_of_ofTrees compared
    · rintro ⟨freshClear, existingClear⟩
      obtain ⟨comparison, compared, -⟩ := made freshClear existingClear options
      exact ⟨comparison, compared⟩
  · intro comparison compared
    have describes : comparison.Describes store fresh existing options := by
      obtain ⟨freshClear, existingClear⟩ := not_meetsFile_of_ofTrees compared
      obtain ⟨again, comparedAgain, describes⟩ := made freshClear existingClear options
      rw [compared, Except.ok.injEq] at comparedAgain
      rwa [comparedAgain]
    refine ⟨describes, fun other => describes.unique, describes.pairwise_disjoint,
      describes.eq_nil_of_absent_fresh, describes.eq_nil_of_absent_existing,
      comparison.isUpToDate_iff, comparison.fault?_eq_none_iff, comparison.fault?_eq_some_iff,
      fun nodes perm => ?_, ?_⟩
    · have same := lists.sameNodes_reorder perm
      exact ofTrees_of_sameNodes same (lists.reorder perm)
        (same.isReadable freshReadable freshReadable.lists freshReadable.reads)
        (same.isReadable existingReadable existingReadable.lists existingReadable.reads)
        compared describes
    · have same := store.sameNodes_readOnly
      exact ofTrees_of_sameNodes same
        ⟨lists.nodup, lists.plain⟩
        (same.isReadable freshReadable (fun _ => rfl) fun _ => rfl)
        (same.isReadable existingReadable (fun _ => rfl) fun _ => rfl) compared describes

/-- A store with a fresh and an existing directory: one file differs, one is missing, one is stale,
and a note is none of these. -/
def changedTrees : FileStore :=
  { FileStore.empty .memory [] with
    nodes :=
      [ (["fresh".toList], .directory),
        (["fresh".toList, "A".toList], .directory),
        (["fresh".toList, "A".toList, "Widget.hpp".toList], .file "new"),
        (["fresh".toList, "A".toList, "Widget.hs".toList], .file "module"),
        (["gen".toList], .directory),
        (["gen".toList, "A".toList], .directory),
        (["gen".toList, "A".toList, "Widget.hpp".toList], .file "old"),
        (["gen".toList, "A".toList, "Gadget.cpp".toList], .file "shim"),
        (["gen".toList, "notes.txt".toList], .file "note") ] }

theorem changedTrees_compared :
    changedTrees.ListsPlainly ∧
      changedTrees.IsReadable "/fresh" ∧
      changedTrees.IsReadable "/gen" ∧
      ∃ comparison,
        ofTrees changedTrees "/fresh" "/gen" .default = .ok comparison ∧
          comparison =
            { differences := ["A/Widget.hpp".toList]
              missing := ["A/Widget.hs".toList]
              stale := ["A/Gadget.cpp".toList] } ∧
          comparison.isUpToDate = false ∧
          ofTrees changedTrees.readOnly "/fresh" "/gen" .default = .ok comparison := by
  have lists : changedTrees.ListsPlainly := FileStore.IsTree.listsPlainly (by decide +kernel)
  have fresh : changedTrees.IsReadable "/fresh" :=
    ⟨fun _ => by decide +kernel, fun _ => rfl, fun _ => rfl⟩
  have existing : changedTrees.IsReadable "/gen" :=
    ⟨fun _ => by decide +kernel, fun _ => rfl, fun _ => rfl⟩
  have evaluated :
      (ofTrees changedTrees "/fresh" "/gen" .default).toOption =
        some ⟨["A/Widget.hpp".toList], ["A/Widget.hs".toList], ["A/Gadget.cpp".toList]⟩ := by
    decide +kernel
  have inMemory (root : Text) : ¬ changedTrees.MeetsFile root :=
    fun meets => Manner.noConfusion meets.1
  obtain ⟨made, exactly⟩ := ofTrees_exactly lists fresh existing .default
  obtain ⟨comparison, compared⟩ := made.2 ⟨inMemory _, inMemory _⟩
  obtain ⟨-, -, -, -, -, -, -, -, -, readOnly⟩ := exactly comparison compared
  rw [compared] at evaluated
  obtain rfl := Option.some.inj evaluated
  exact ⟨lists, fresh, existing, _, compared, rfl, rfl, readOnly⟩

/-- A working directory with a plain file, and a fresh directory elsewhere. -/
def treeBesideFile : FileStore :=
  { FileStore.empty .disk ["w"] with
    nodes :=
      [ (["w".toList], .directory),
        (["w".toList, "plain".toList], .file "text"),
        (["fresh".toList], .directory),
        (["fresh".toList, "Widget.hpp".toList], .file "new") ] }

/-- A directory below a plain file is not there, and yet it is not compared as an empty one. -/
theorem treeBesideFile_not_compared :
    treeBesideFile.ListsPlainly ∧
      treeBesideFile.IsReadable "/fresh" ∧
      treeBesideFile.IsReadable "plain/x" ∧
      ¬ treeBesideFile.LeadsThere "plain/x" ∧
      Describes ⟨[], ["Widget.hpp".toList], []⟩ treeBesideFile "/fresh" "plain/x" .default ∧
      ∀ comparison, ofTrees treeBesideFile "/fresh" "plain/x" .default ≠ .ok comparison := by
  have lists : treeBesideFile.ListsPlainly := FileStore.IsTree.listsPlainly (by decide +kernel)
  have notReached : ¬ treeBesideFile.Reaches "plain/x" := by decide +kernel
  have meets : treeBesideFile.MeetsFile "plain/x" :=
    (FileStore.hindrance?_eq_noDirectory_iff _ _).1 (by decide +kernel)
  have fresh : treeBesideFile.IsReadable "/fresh" :=
    ⟨fun _ => by decide +kernel, fun _ => rfl, fun _ => rfl⟩
  have existing : treeBesideFile.IsReadable "plain/x" :=
    ⟨fun reached => (notReached reached).elim, fun _ => rfl, fun _ => rfl⟩
  have inFresh (file : Text) :
      treeBesideFile.HasBelow "/fresh" file ↔ file = "Widget.hpp".toList := by
    have files : treeBesideFile.filesBelow "/fresh" = ["Widget.hpp".toList] := by decide +kernel
    rw [← FileStore.findsBelow_iff_hasBelow fresh.noFile,
      lists.findsBelow_iff (by decide +kernel), files, List.mem_singleton]
  have inExisting (file content : Text) : ¬ treeBesideFile.HoldsBelow "plain/x" file content :=
    fun held => notReached held.reached
  refine ⟨lists, fresh, existing, fun leads => notReached leads.1, ?_, fun comparison compared =>
    (not_meetsFile_of_ofTrees compared).2 meets⟩
  have notBelow (file : Text) : ¬ treeBesideFile.HasBelow "plain/x" file :=
    fun ⟨content, held⟩ => inExisting file content held
  refine ⟨fun file => ?_, fun file => ?_, fun file => ?_, ?_⟩
  · rw [inFresh, List.mem_singleton, and_iff_left (notBelow file)]
  · refine ⟨fun differs => absurd differs List.not_mem_nil, ?_⟩
    rintro ⟨left, right, -, held, -⟩
    exact (inExisting file right held).elim
  · exact ⟨fun stale => absurd stale List.not_mem_nil, fun stale => (notBelow file stale.1).elim⟩
  · intro files listed
    rcases List.mem_cons.1 listed with rfl | rest
    · exact List.pairwise_singleton _ _
    · simp only [List.mem_cons, List.not_mem_nil, or_false, or_self] at rest
      rw [rest]
      exact List.Pairwise.nil

end Comparison

end UnoBindgen
