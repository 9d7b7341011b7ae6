import Mathlib
import UnoBindgen.Proofs.Comparison
import UnoBindgen.Proofs.FileStore.Files
import UnoBindgen.Proofs.Generation.Repetition

/-!
# Fresh generations

A generation is made below its root, and then once more in an empty directory that is made where
nothing was.  Unless the root is above that directory, the second one leaves the files of the first
alone.  So a comparison of the two finds the generated files in both with the same contents, and
nothing else in the fresh directory: only files that were below the root before can be out of place.

A comparison follows the root as it is spelled, where a generation goes to the place that it names.
-/

namespace UnoBindgen.Generation

open FileStore
open OutputTree
open OutputTree.State

/-- A store in which a directory is made for a fresh generation. -/
def beginning (store : FileStore) (fresh : Text) : State :=
  ⟨store.withDirectories (store.place fresh), .start fresh⟩

/-- A generation that is made below its root, and then once more in a fresh directory. -/
structure MadeAnew
    (generation : Generation)
    (base last : State)
    (fresh : Text)
    (anew : State) :
    Prop where
  roomy : generation.IsRoomy base
  applied : base.applyAll generation.allChanges = .ok last
  /-- Nothing was where the fresh directory is made, and no file above it. -/
  vacant : last.store.node? (last.store.place fresh) = none
  clear : ∀ above, above <+: last.store.place fresh → ¬ last.store.HasFile above
  /-- The fresh directory can be followed, and so can the root as far as there is something. -/
  reaches : last.store.Reaches fresh
  finds : (beginning last.store fresh).store.Finds base.tree.root
  /-- The root is not above the fresh directory. -/
  outside :
    base.store.place base.tree.root <+: last.store.place fresh →
      base.store.place base.tree.root = last.store.place fresh
  freshApplied : (beginning last.store fresh).applyAll generation.allChanges = .ok anew

theorem place_beginning
    (store : FileStore)
    (fresh path : Text) :
    (beginning store fresh).store.place path = store.place path := by
  rw [place, place, beginning, workingDirectory_withDirectories]

theorem reaches_beginning
    {store : FileStore}
    {path : Text}
    (reaches : store.Reaches path)
    (fresh : Text) :
    (beginning store fresh).store.Reaches path :=
  reaches.mono (manner_withDirectories _ _) (workingDirectory_withDirectories _ _)
    fun _ _ _ directory => hasDirectory_withDirectories directory _

section Beginning

variable
  {store : FileStore}
  (tree : store.IsTree)
  {fresh : Text}
  (vacant : store.node? (store.place fresh) = none)

include tree

theorem isTree_beginning : (beginning store fresh).store.IsTree :=
  tree.withDirectories (tree.isPlain_of_mem_place fresh)

include vacant

/-- The fresh directory is empty. -/
theorem filesBelow_beginning_fresh : (beginning store fresh).store.filesBelow fresh = [] := by
  have noFile : ¬ store.HasFile (store.place fresh) := by
    rintro ⟨node, found, -⟩
    rw [vacant] at found
    exact absurd found (by simp)
  have made : (beginning store fresh).store.HasDirectory (store.place fresh) :=
    hasDirectory_made noFile
  rw [List.eq_nil_iff_forall_not_mem]
  intro file listed
  have stillNoFile :
      ¬ (beginning store fresh).store.HasFile ((beginning store fresh).store.place fresh) := by
    rw [place_beginning]
    exact fun isFile => isFile.not_hasDirectory made
  rw [(isTree_beginning tree).mem_filesBelow_iff stillNoFile, place_beginning] at listed
  obtain ⟨way, nonempty, ⟨node, found, -⟩, -⟩ := listed
  have kept : (beginning store fresh).store.node? (store.place fresh ++ way) =
      store.node? (store.place fresh ++ way) :=
    node?_withDirectories_of_outside fun shorter => nonempty (by simpa using shorter.length_le)
  rw [kept, tree.vacant_below vacant] at found
  exact absurd found (by simp)

/-- What is below a root is not touched when a fresh directory is made outside of it. -/
theorem mem_filesBelow_beginning_iff
    {root : Text}
    (outside : store.place root <+: store.place fresh → store.place root = store.place fresh)
    (file : Text) :
    file ∈ (beginning store fresh).store.filesBelow root ↔ file ∈ store.filesBelow root := by
  by_cases same : store.place root = store.place fresh
  · have alike (other : FileStore)
        (samePlace : other.place root = other.place fresh) :
        other.filesBelow root = other.filesBelow fresh := by
      rw [filesBelow, filesBelow, samePlace]
    rw [alike _ (by rw [place_beginning, place_beginning, same]), alike _ same,
      filesBelow_beginning_fresh tree vacant, filesBelow_of_vacant vacant]
  · apply tree.listsPlainly.mem_filesBelow_congr (isTree_beginning tree).listsPlainly
      (place_beginning store fresh root)
    intro way
    exact node?_withDirectories_of_outside fun shorter =>
      same (outside ((List.prefix_append _ way).trans shorter))

end Beginning

/-- There is room for a generation in a fresh directory. -/
theorem isRoomy_beginning
    {generation : Generation}
    (coherent : generation.IsCoherent)
    {store : FileStore}
    (tree : store.IsTree)
    (situated : store.IsSituated)
    (free : ∀ action place, store.refusal action place = none)
    {fresh : Text}
    (vacant : store.node? (store.place fresh) = none)
    (clear : ∀ above, above <+: store.place fresh → ¬ store.HasFile above) :
    generation.IsRoomy (beginning store fresh) := by
  have made := isChanged_withDirectories clear
  have sameFile (place : Place) :
      (beginning store fresh).store.HasFile place ↔ store.HasFile place := by
    rw [← not_iff_not, ← fileAt?_eq_none_iff, ← fileAt?_eq_none_iff, ← made.files]
    rfl
  refine
    { coherent := coherent
      tree := isTree_beginning tree
      situated := ?_
      free := fun action place => by rw [beginning, refusal_withDirectories, free]
      room := ⟨?_, ?_⟩ }
  · intro onDisk above upper
    rw [place_beginning] at upper
    exact made.keeps above (situated (made.manner ▸ onDisk) above upper)
  · intro file member above upper _
    obtain ⟨way, -, -, located⟩ := coherent.exists_way member
    rw [located, place_beginning] at upper
    rw [sameFile]
    rcases List.prefix_or_prefix_of_prefix upper (List.prefix_append _ _) with
      inRoot | ⟨behind, rfl⟩
    · exact clear above inRoot
    · rintro ⟨node, found, -⟩
      exact absurd ((tree.vacant_below vacant behind).symm.trans found) (by simp)
  · intro file member directory
    obtain ⟨way, nonempty, -, located⟩ := coherent.exists_way member
    rw [located, place_beginning] at directory
    rcases made.opens _ directory with ⟨node, found, -⟩ | shorter
    · exact absurd ((tree.vacant_below vacant way).symm.trans found) (by simp)
    · have shorter : store.place fresh ++ way <+: store.place fresh := shorter
      exact nonempty (by simpa using shorter.length_le)

namespace MadeAnew

variable
  {generation : Generation}
  {base last : State}
  {fresh : Text}
  {anew : State}
  (made : generation.MadeAnew base last fresh anew)

include made

theorem shows : base.Shows generation.allChanges last :=
  made.roomy.shows made.applied

theorem tree : last.store.IsTree :=
  made.roomy.isTree made.applied

theorem freshRoomy : generation.IsRoomy (beginning last.store fresh) :=
  isRoomy_beginning made.roomy.coherent made.tree (made.roomy.isSituated made.applied)
    (made.roomy.refusal_eq_none made.applied) made.vacant made.clear

theorem freshShows : (beginning last.store fresh).Shows generation.allChanges anew :=
  made.freshRoomy.shows made.freshApplied

theorem place (path : Text) : anew.store.place path = last.store.place path :=
  (made.freshShows.place path).trans (place_beginning _ fresh path)

/-- In the fresh directory there are the generated files, and no others. -/
theorem mem_filesBelow_fresh_iff (file : Text) :
    file ∈ anew.store.filesBelow fresh ↔ file ∈ filesOf generation.allChanges :=
  made.freshRoomy.mem_filesBelow_of_empty made.freshApplied
    (filesBelow_beginning_fresh made.tree made.vacant) file

/-- Once there are generated files below the root, the fresh directory is neither above nor
below. -/
theorem not_above
    {file : Text}
    (generated : file ∈ filesOf generation.allChanges) :
    ¬ base.store.place base.tree.root <+: last.store.place fresh ∧
      ¬ last.store.place fresh <+: base.store.place base.tree.root := by
  have notBelow : ¬ last.store.place fresh <+: base.store.place base.tree.root := by
    rintro ⟨between, shape⟩
    obtain ⟨content, member⟩ := (mem_filesOf_iff _ _).1 generated
    obtain ⟨way, -, -, located⟩ := made.roomy.coherent.exists_way generated
    have present := made.roomy.node?_of_generated made.applied member
    rw [located, ← shape, List.append_assoc, made.tree.vacant_below made.vacant] at present
    exact absurd present (by simp)
  refine ⟨fun above => notBelow ?_, notBelow⟩
  rw [made.outside above]

/-- The fresh generation leaves alone what is at the root and below it. -/
theorem node?_below_root
    {file : Text}
    (generated : file ∈ filesOf generation.allChanges)
    (way : Place) :
    anew.store.node? (base.store.place base.tree.root ++ way) =
      last.store.node? (base.store.place base.tree.root ++ way) := by
  obtain ⟨notAbove, notBelow⟩ := made.not_above generated
  have begun :
      (beginning last.store fresh).store.node? (base.store.place base.tree.root ++ way) =
        last.store.node? (base.store.place base.tree.root ++ way) :=
    node?_withDirectories_of_outside fun shorter =>
      notAbove ((List.prefix_append _ way).trans shorter)
  refine (made.freshShows.node?_of_outside ?_).trans begun
  intro change member below
  have ofRoot := (List.prefix_append _ way).trans below
  have ofFresh := made.freshRoomy.coherent.root_above (beginning last.store fresh) member
  rw [place_beginning] at ofFresh
  rcases List.prefix_or_prefix_of_prefix ofRoot ofFresh with above | above
  · exact notAbove above
  · exact notBelow above

theorem mem_filesBelow_root_iff (file : Text) :
    file ∈ anew.store.filesBelow base.tree.root ↔
      file ∈ base.store.filesBelow base.tree.root ∨ file ∈ filesOf generation.allChanges := by
  rw [← made.roomy.mem_filesBelow_iff made.applied]
  by_cases nothing : generation.allChanges = []
  · have same := made.freshApplied
    rw [nothing, applyAll, Except.ok.injEq] at same
    have outside := made.outside
    rw [← made.shows.place] at outside
    rw [← same]
    exact mem_filesBelow_beginning_iff made.tree made.vacant outside file
  · obtain ⟨change, member⟩ := List.exists_mem_of_ne_nil _ nothing
    obtain ⟨generated, generatedMember⟩ := made.roomy.coherent.exists_generated member
    apply made.tree.listsPlainly.mem_filesBelow_congr
      (made.freshRoomy.isTree made.freshApplied).listsPlainly (made.place _)
    rw [made.shows.place]
    exact made.node?_below_root generatedMember

theorem sharesContent
    {file : Text}
    (generated : file ∈ filesOf generation.allChanges) :
    Comparison.SharesContent anew.store fresh base.tree.root file := by
  obtain ⟨content, member⟩ := (mem_filesOf_iff _ _).1 generated
  obtain ⟨way, -, -, located⟩ := made.roomy.coherent.exists_way generated
  have readable
      {path : Text}
      (reaches : anew.store.Reaches path)
      (found : anew.store.node? (anew.store.place path) = some (.file content)) :
      anew.store.read path = .ok content :=
    (read_eq_ok_iff _ _ _).2
      ⟨made.freshRoomy.refusal_eq_none made.freshApplied _ _, reaches, .file content, found, rfl,
        fun _ => rfl⟩
  refine ⟨content, readable ?_ ?_, readable ?_ ?_⟩
  · have reaches := made.freshRoomy.reaches_generated made.freshApplied member
    rwa [made.freshShows.path] at reaches
  · rw [made.freshShows.place]
    exact made.freshRoomy.node?_of_generated made.freshApplied member
  · have reaches := made.roomy.reaches_generated made.applied member
    rw [made.shows.path] at reaches
    exact made.freshShows.reaches (reaches_beginning reaches fresh)
  · have kept := made.node?_below_root generated way
    rw [← located base] at kept
    rw [made.place, made.shows.place]
    exact kept.trans (made.roomy.node?_of_generated made.applied member)

theorem finds_fresh : anew.store.Finds fresh :=
  .inl (made.freshShows.reaches (reaches_beginning made.reaches fresh))

/-- The root is still found after the fresh generation. -/
theorem finds_root : anew.store.Finds base.tree.root := by
  rcases made.finds with reaches | ⟨missing, vacant⟩
  · exact .inl (made.freshShows.reaches reaches)
  · -- Nothing is at the root, so nothing was generated.
    by_cases nothing : generation.allChanges = []
    · have same := made.freshApplied
      rw [nothing, applyAll, Except.ok.injEq] at same
      rw [← same]
      exact .inr ⟨missing, vacant⟩
    · exfalso
      obtain ⟨change, member⟩ := List.exists_mem_of_ne_nil _ nothing
      obtain ⟨generated, generatedMember⟩ := made.roomy.coherent.exists_generated member
      obtain ⟨content, changed⟩ := (mem_filesOf_iff _ _).1 generatedMember
      obtain ⟨way, -, -, located⟩ := made.roomy.coherent.exists_way generatedMember
      have present := made.roomy.node?_of_generated made.applied changed
      rw [place_beginning, made.shows.place, beginning,
        node?_withDirectories_of_outside (made.not_above generatedMember).1] at vacant
      rw [located, made.tree.vacant_below vacant] at present
      exact absurd present (by simp)

/-- What a comparison with the fresh generation finds. -/
theorem ofTrees_eq (options : NamingOptions) :
    Comparison.ofTrees anew.store fresh base.tree.root options =
      .ok
        { differences := []
          missing := []
          stale :=
            Text.sort ((base.store.filesBelow base.tree.root).filter fun file =>
              !(filesOf generation.allChanges).contains file &&
                Comparison.looksGenerated options file) } := by
  have free := made.freshRoomy.refusal_eq_none made.freshApplied
  have lists := (made.freshRoomy.isTree made.freshApplied).listsPlainly
  obtain ⟨freshFiles, ofFresh, -, foundFresh⟩ :=
    Comparison.exists_filesOf lists (Comparison.isListable_of_finds free made.finds_fresh)
  obtain ⟨rootFiles, ofRoot, once, foundRoot⟩ :=
    Comparison.exists_filesOf lists (Comparison.isListable_of_finds free made.finds_root)
  have inFresh (file : Text) : file ∈ freshFiles ↔ file ∈ filesOf generation.allChanges := by
    rw [foundFresh, lists.findsBelow_iff made.finds_fresh, made.mem_filesBelow_fresh_iff]
  have inRoot (file : Text) :
      file ∈ rootFiles ↔
        file ∈ base.store.filesBelow base.tree.root ∨ file ∈ filesOf generation.allChanges := by
    rw [foundRoot, lists.findsBelow_iff made.finds_root, made.mem_filesBelow_root_iff]
  rw [Comparison.ofTrees_of_included ofFresh ofRoot
    (fun file member => (inRoot file).2 (.inr ((inFresh file).1 member)))
    (fun file member => made.sharesContent ((inFresh file).1 member)) options]
  congr 2
  apply Text.sort_eq_of_perm
  refine (List.perm_ext_iff_of_nodup (once.filter _)
    ((made.roomy.tree.listsPlainly.nodup_filesBelow _).filter _)).2 fun file => ?_
  have sameFresh :
      freshFiles.contains file = (filesOf generation.allChanges).contains file := by
    rw [Bool.eq_iff_iff, List.contains_iff_mem, List.contains_iff_mem, inFresh]
  simp only [List.mem_filter, inRoot, sameFresh, Bool.and_eq_true]
  constructor
  · rintro ⟨old | generated, notGenerated, looks⟩
    · exact ⟨old, notGenerated, looks⟩
    · exact absurd notGenerated (by simp [generated])
  · rintro ⟨old, others⟩
    exact ⟨.inl old, others⟩

end MadeAnew

end UnoBindgen.Generation
