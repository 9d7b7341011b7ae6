import Mathlib
import UnoBindgen.Comparison
import UnoBindgen.Proofs.FileStore.Walk
import UnoBindgen.Proofs.Plan

/-!
# Comparing two trees

The files of a tree are those that a walk from its root comes by.  When every file of the fresh tree
is in the existing one, with the same content, nothing is missing and nothing differs.  What is left
to say is which of the further files look generated.
-/

namespace UnoBindgen.Comparison

open FileStore

/-! ## The files of a tree -/

/-- The way along a path does not lead through a file, and all directories from there on can be
listed. -/
structure IsListable
    (store : FileStore)
    (root : Text) :
    Prop where
  follows : store.hindrance? root ≠ some .noDirectory
  allowed : ∀ way, store.refusal .list (store.place root ++ way) = none

/-- A list of the files of a tree, each of them once. -/
structure IsInventory
    (store : FileStore)
    (root : Text)
    (files : List Text) :
    Prop where
  once : files.Nodup
  complete : ∀ file, file ∈ files ↔ store.FindsBelow root file

section Listed

variable
  {store : FileStore}
  {root : Text}

theorem isListable_of_finds
    (free : ∀ action place, store.refusal action place = none)
    (finds : store.Finds root) :
    IsListable store root where
  follows := by
    rcases finds with reaches | ⟨missing, -⟩
    · rw [(store.hindrance?_eq_none_iff root).2 reaches]
      exact nofun
    · rw [missing]
      decide
  allowed _ := free _ _

/-- A tree cannot be listed when the way to its root leads through a file. -/
theorem filesOf_ne_ok
    (stopped : store.hindrance? root = some .noDirectory)
    (files : List Text) :
    filesOf store root ≠ .ok files := by
  have contained : store.contains root = .error (store.hindered "stat" root .noDirectory) := by
    rw [contains, stat, find, stopped]
    rfl
  have listed :
      (store.walk root >>= relativeTo root) =
        .error (store.hindered "lstat" root .noDirectory) := by
    rw [walk, find, stopped]
    rfl
  rw [filesOf, contained, listed]
  simp only [ne_eq, reduceCtorEq, not_false_eq_true]

theorem filesOf_of_absent
    (follows : store.hindrance? root ≠ some .noDirectory)
    (absent : store.Reaches root → store.node? (store.place root) = none) :
    filesOf store root = .ok [] := by
  have contained : store.contains root = .ok false := by
    have missing : store.find "stat" root = .error (store.absence "stat" root) := by
      by_cases reaches : store.Reaches root
      · exact find_of_vacant reaches (absent reaches) "stat"
      · rw [← hindrance?_eq_none_iff] at reaches
        rw [find]
        cases hindered : store.hindrance? root with
        | none => exact (reaches hindered).elim
        | some hindrance =>
            cases hindrance with
            | missing => rfl
            | noDirectory => exact (follows hindered).elim
    rw [contains, stat, missing]
    simp only [isMissingFile_absence, if_true]
  rw [filesOf, contained]

theorem not_findsBelow_of_absent
    (absent : store.Reaches root → store.node? (store.place root) = none)
    (file : Text) :
    ¬ store.FindsBelow root file := by
  rintro ⟨reaches, way, fileWay, -⟩
  exact fileWay.present (absent reaches)

/-- The files of a tree whose root can be followed are those that one comes by. -/
theorem exists_filesOf
    (lists : store.ListsPlainly)
    (listable : IsListable store root) :
    ∃ files, filesOf store root = .ok files ∧ IsInventory store root files := by
  by_cases absent : store.Reaches root → store.node? (store.place root) = none
  · refine ⟨[], filesOf_of_absent listable.follows absent, List.nodup_nil, fun file => ?_⟩
    simp only [List.not_mem_nil, not_findsBelow_of_absent absent file]
  · obtain ⟨reaches, present⟩ := Classical.not_imp.1 absent
    obtain ⟨node, found⟩ := Option.ne_none_iff_exists'.1 present
    have contained : store.contains root = .ok true := by
      rw [contains, stat, (find_eq_ok_iff store "stat" root node).2 ⟨reaches, found⟩]
    have plain :
        ∀ way ∈ store.walkWays store.depth (store.place root),
          ∀ segment ∈ way, Text.SlashPath.IsPlain segment :=
      fun way member =>
        lists.isPlain_of_isFileWay ((store.mem_walkWays_depth_iff _ way).1 member)
    have listed :
        (store.walk root >>= relativeTo root) =
          .ok ((store.walkWays store.depth (store.place root)).map
            (Text.SlashPath.ofSegments false)) := by
      rw [walk_eq reaches present listable.allowed]
      show relativeTo root _ = _
      rw [relativeTo, mapM_eq_ok_iff, List.forall₂_map_left_iff, List.forall₂_map_right_iff,
        List.forall₂_same]
      intro way member
      rw [relative?_pathBelow root (plain way member)]
    refine ⟨(store.walkWays store.depth (store.place root)).map
      (Text.SlashPath.ofSegments false), ?_, ?_, fun file => ?_⟩
    · rw [filesOf, contained, listed]
    · exact (lists.nodup_walkWays _ _).map_on fun first firstMember second secondMember =>
        ofSegments_injective (plain first firstMember) (plain second secondMember)
    · rw [List.mem_map, FindsBelow, and_iff_right reaches]
      simp only [mem_walkWays_depth_iff]

end Listed

/-! ## Trees that include each other -/

section Included

variable
  {store : FileStore}
  {fresh existing : Text}

/-- A file has one content in both trees. -/
def SharesContent (store : FileStore) (fresh existing file : Text) : Prop :=
  ∃ content,
    store.read (Text.SlashPath.join [fresh, file]) = .ok content ∧
      store.read (Text.SlashPath.join [existing, file]) = .ok content

theorem differs_of_sharesContent
    {file : Text}
    (shares : SharesContent store fresh existing file) :
    differs store fresh existing file = .ok false := by
  obtain ⟨content, left, right⟩ := shares
  simp only [differs, bind_eq_ok_iff]
  exact ⟨content, by simp only [readFile, left], content, by simp only [readFile, right],
    congrArg Except.ok (bne_self_eq_false content)⟩

theorem differing_of_sharesContent
    {files : List Text}
    (shares : ∀ file ∈ files, SharesContent store fresh existing file) :
    differing store fresh existing files = .ok [] := by
  induction files with
  | nil => rfl
  | cons file rest induction =>
      have here := differs_of_sharesContent (shares file List.mem_cons_self)
      have later := induction fun other member => shares other (List.mem_cons_of_mem _ member)
      simp only [differing, here, later]
      rfl

/-- A tree that is included in another one differs from it only in what the other has besides. -/
theorem ofTrees_of_included
    {freshFiles existingFiles : List Text}
    (ofFresh : filesOf store fresh = .ok freshFiles)
    (ofExisting : filesOf store existing = .ok existingFiles)
    (included : freshFiles ⊆ existingFiles)
    (shares : ∀ file ∈ freshFiles, SharesContent store fresh existing file)
    (options : NamingOptions) :
    ofTrees store fresh existing options =
      .ok
        { differences := []
          missing := []
          stale :=
            Text.sort (existingFiles.filter fun file =>
              !freshFiles.contains file && looksGenerated options file) } := by
  have noneMissing : freshFiles.filter (fun file => !existingFiles.contains file) = [] := by
    rw [List.filter_eq_nil_iff]
    intro file member
    simpa using included member
  have noneDiffers :
      differing store fresh existing
        (freshFiles.filter fun file => existingFiles.contains file) = .ok [] :=
    differing_of_sharesContent fun file member => shares file (List.mem_filter.1 member).1
  simp only [ofTrees, bind_eq_ok_iff]
  refine ⟨_, ofFresh, _, ofExisting, _, noneDiffers, ?_⟩
  rw [noneMissing, Text.sort_nil]
  rfl

end Included

/-! ## When a comparison can be made -/

section Made

variable
  {store : FileStore}
  (lists : store.ListsPlainly)

include lists

theorem exists_readFile
    {root file : Text}
    (reads : ∀ way, store.refusal .read (store.place root ++ way) = none)
    (found : store.FindsBelow root file) :
    ∃ content, readFile store root file = .ok content := by
  obtain ⟨content, readable⟩ := lists.exists_read found reads
  exact ⟨content, by simp only [readFile, readable]⟩

variable
  {fresh existing : Text}
  (readsFresh : ∀ way, store.refusal .read (store.place fresh ++ way) = none)
  (readsExisting : ∀ way, store.refusal .read (store.place existing ++ way) = none)

include readsFresh readsExisting

theorem exists_differing
    {files : List Text}
    (inFresh : ∀ file ∈ files, store.FindsBelow fresh file)
    (inExisting : ∀ file ∈ files, store.FindsBelow existing file) :
    ∃ differences, differing store fresh existing files = .ok differences := by
  induction files with
  | nil => exact ⟨[], rfl⟩
  | cons file rest induction =>
      obtain ⟨left, readLeft⟩ := exists_readFile lists readsFresh (inFresh file List.mem_cons_self)
      obtain ⟨right, readRight⟩ :=
        exists_readFile lists readsExisting (inExisting file List.mem_cons_self)
      obtain ⟨others, compared⟩ :=
        induction (fun other member => inFresh other (List.mem_cons_of_mem file member))
          fun other member => inExisting other (List.mem_cons_of_mem file member)
      have here : differs store fresh existing file = .ok (left != right) := by
        simp only [differs, readLeft, readRight]
        rfl
      simp only [differing, here, compared]
      exact ⟨_, rfl⟩

/-- Trees that can be listed and read can be compared. -/
theorem exists_ofTrees
    (listableFresh : IsListable store fresh)
    (listableExisting : IsListable store existing)
    (options : NamingOptions) :
    ∃ comparison, ofTrees store fresh existing options = .ok comparison := by
  obtain ⟨freshFiles, ofFresh, -, inFresh⟩ := exists_filesOf lists listableFresh
  obtain ⟨existingFiles, ofExisting, -, inExisting⟩ := exists_filesOf lists listableExisting
  obtain ⟨differences, compared⟩ :
      ∃ differences,
        differing store fresh existing
          (freshFiles.filter fun file => existingFiles.contains file) = .ok differences := by
    apply exists_differing lists readsFresh readsExisting
    · intro file member
      exact (inFresh file).1 (List.mem_filter.1 member).1
    · intro file member
      exact (inExisting file).1 (List.contains_iff_mem.1 (List.mem_filter.1 member).2)
  simp only [ofTrees, ofFresh, ofExisting, bind_eq_ok_iff]
  exact ⟨_, _, rfl, _, rfl, differences, compared, rfl⟩

end Made

/-! ## Files of one tree only -/

section Found

variable
  {store : FileStore}
  {fresh existing : Text}
  {freshFiles existingFiles : List Text}
  (ofFresh : filesOf store fresh = .ok freshFiles)
  (ofExisting : filesOf store existing = .ok existingFiles)
  {options : NamingOptions}
  {comparison : Comparison}
  (compared : ofTrees store fresh existing options = .ok comparison)

include ofFresh ofExisting compared

theorem eq_sort_of_ofTrees :
    comparison.missing =
        Text.sort (freshFiles.filter fun file => !existingFiles.contains file) ∧
      comparison.stale =
        Text.sort (existingFiles.filter fun file =>
          !freshFiles.contains file && looksGenerated options file) := by
  simp only [ofTrees, ofFresh, ofExisting, bind_eq_ok_iff, Except.ok.injEq] at compared
  obtain ⟨_, rfl, _, rfl, differences, -, returned⟩ := compared
  rw [← Except.ok.inj returned]
  exact ⟨rfl, rfl⟩

/-- The missing files are those of the fresh tree only. -/
theorem mem_missing_iff (file : Text) :
    file ∈ comparison.missing ↔ file ∈ freshFiles ∧ file ∉ existingFiles := by
  rw [(eq_sort_of_ofTrees ofFresh ofExisting compared).1, Text.mem_sort, List.mem_filter]
  simp

/-- The stale files are those of the existing tree only that look generated. -/
theorem mem_stale_iff (file : Text) :
    file ∈ comparison.stale ↔
      file ∈ existingFiles ∧ file ∉ freshFiles ∧ looksGenerated options file = true := by
  rw [(eq_sort_of_ofTrees ofFresh ofExisting compared).2, Text.mem_sort, List.mem_filter]
  simp

end Found

/-- A tree with a stale file is not up to date. -/
theorem isUpToDate_eq_false_of_stale
    {comparison : Comparison}
    {file : Text}
    (stale : file ∈ comparison.stale) :
    comparison.isUpToDate = false := by
  have nonempty : comparison.stale ≠ [] := List.ne_nil_of_mem stale
  simp [isUpToDate, nonempty]

end UnoBindgen.Comparison
