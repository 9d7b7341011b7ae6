import Mathlib
import UnoBindgen.Proofs.FileStore.Walk
import UnoBindgen.Proofs.Generation.Rows

/-!
# Generating again

In a tree with room for its files a generation succeeds, and leaves a tree: what was there, and the
generated files.  There is always room below a place where nothing is.

A generation that is made again, over what it has left, finds nothing to do.
-/

namespace UnoBindgen.Generation

open FileStore
open OutputTree
open OutputTree.State

/-! ## Where the changes are -/

section Coherent

variable
  {generation : Generation}
  (coherent : generation.IsCoherent)

include coherent

theorem IsCoherent.apart_of_ne
    (base : State)
    {first second : Change}
    (firstMember : first ∈ generation.allChanges)
    (secondMember : second ∈ generation.allChanges)
    (differ : first ≠ second) :
    base.Apart first second := by
  have symmetric : Std.Symm base.Apart := ⟨fun _ _ apart => apart.symm⟩
  exact (coherent.pairwise_allChanges base).forall firstMember secondMember differ

/-- The changes are apart from each other, with nothing done before them. -/
theorem IsCoherent.pairwise_from_start (base : State) :
    (generation.allChanges ++ []).Pairwise base.Apart := by
  rw [List.append_nil]
  exact coherent.pairwise_allChanges base

/-- A generated file is below the root by the names of its path. -/
theorem IsCoherent.exists_way
    {file : Text}
    (member : file ∈ filesOf generation.allChanges) :
    ∃ way, way ≠ [] ∧ file = Text.join ['/'] way ∧
      ∀ base : State, base.placeOf file = base.store.place base.tree.root ++ way := by
  obtain ⟨content, changed⟩ := (mem_filesOf_iff _ _).1 member
  obtain ⟨entity, entityMember, ofEntity⟩ := List.mem_flatMap.1 changed
  have checked := coherent.checked entity entityMember
  obtain ⟨artifact, located⟩ :=
    exists_artifact_of_mem_changes ofEntity (Change.isFile_file file content)
  rw [Change.relative_file] at located
  refine ⟨Names.targetSegments generation.context.options entity artifact, ?_, ?_, ?_⟩
  · simp [Names.targetSegments]
  · rw [located, Names.artifactPath_eq_join coherent.wellFormed checked]
  · intro base
    rw [located, placeOf_artifactPath coherent.wellFormed base checked]

/-- The directory of an entity is where its files are. -/
theorem IsCoherent.exists_file
    {relative : Text}
    (member : Change.directory relative ∈ generation.allChanges) :
    ∃ file ∈ filesOf generation.allChanges, ∃ name,
      ∀ base : State, base.placeOf file = base.placeOf relative ++ [name] := by
  obtain ⟨entity, entityMember, ofEntity⟩ := List.mem_flatMap.1 member
  have checked := coherent.checked entity entityMember
  cases composed : Emission.compose generation.context entity with
  | error fault =>
      rw [changes_of_error composed] at ofEntity
      exact absurd ofEntity (by simp)
  | ok texts =>
      have placed := placement_mem_allChanges entityMember composed .declaration
      have relativeIs :
          relative = (Names.ofEntity generation.context.options entity).directory := by
        rw [changes_of_ok composed, placements, List.mem_cons] at ofEntity
        rcases ofEntity with same | isFile
        · exact Change.directory.inj same
        · obtain ⟨artifact, -, same⟩ := List.mem_map.1 isFile
          exact Change.noConfusion same
      refine ⟨_, (mem_filesOf_iff _ _).2 ⟨_, placed⟩,
        entity.name ++ generation.context.options.extension .declaration, fun base => ?_⟩
      rw [relativeIs, placeOf_artifactPath coherent.wellFormed base checked,
        placeOf_directory coherent.wellFormed base checked, Names.targetSegments,
        List.append_assoc]

/-- The changes of a generation are at its root or below it. -/
theorem IsCoherent.root_above
    (base : State)
    {change : Change}
    (member : change ∈ generation.allChanges) :
    base.store.place base.tree.root <+: base.placeOf change.relative := by
  cases change with
  | directory relative =>
      obtain ⟨file, generated, name, placed⟩ := coherent.exists_file member
      obtain ⟨way, nonempty, -, located⟩ := coherent.exists_way generated
      have above : base.store.place base.tree.root <+: base.placeOf relative ++ [name] := by
        rw [← placed, located]
        exact List.prefix_append _ _
      rcases List.prefix_concat_iff.1 above with same | above
      · rw [← placed, located] at same
        exact (nonempty (by simpa using same)).elim
      · exact above
  | file relative content =>
      obtain ⟨way, -, -, located⟩ :=
        coherent.exists_way ((mem_filesOf_iff _ _).2 ⟨content, member⟩)
      rw [Change.relative_file, located]
      exact List.prefix_append _ _

/-- Whoever makes a change generates a file. -/
theorem IsCoherent.exists_generated
    {change : Change}
    (member : change ∈ generation.allChanges) :
    ∃ file, file ∈ filesOf generation.allChanges := by
  cases change with
  | directory relative =>
      obtain ⟨file, generated, -⟩ := coherent.exists_file member
      exact ⟨file, generated⟩
  | file relative content => exact ⟨relative, (mem_filesOf_iff _ _).2 ⟨content, member⟩⟩

end Coherent

/-! ## Runs in a tree with room -/

/-- A state in which a generation can work: a tree that refuses nothing, with room for the files of
the generation. -/
structure IsRoomy (generation : Generation) (base : State) : Prop where
  coherent : generation.IsCoherent
  tree : base.store.IsTree
  situated : base.store.IsSituated
  free : ∀ action place, base.store.refusal action place = none
  room : base.HasRoom (filesOf generation.allChanges)

section Roomy

variable
  {generation : Generation}
  {base : State}
  (roomy : generation.IsRoomy base)

include roomy

theorem IsRoomy.vacant_file
    {relative content : Text}
    (member : Change.file relative content ∈ generation.allChanges) :
    ¬ base.store.HasDirectory (base.placeOf relative) :=
  roomy.room.files relative ((mem_filesOf_iff _ _).2 ⟨content, member⟩)

/-- No file is at a directory of the generation, or above it. -/
theorem IsRoomy.not_hasFile_directory
    {relative : Text}
    (member : Change.directory relative ∈ generation.allChanges)
    {above : Place}
    (upper : above <+: base.placeOf relative) :
    ¬ base.store.HasFile above := by
  obtain ⟨file, fileMember, name, located⟩ := roomy.coherent.exists_file member
  apply roomy.room.directories file fileMember above
  · rw [located]
    exact upper.trans (List.prefix_append _ _)
  · rintro rfl
    rw [located] at upper
    exact not_prefix_of_concat _ _ upper

theorem IsRoomy.not_hasFile_root
    {file : Text}
    (member : file ∈ filesOf generation.allChanges) :
    ¬ base.store.HasFile (base.store.place base.tree.root) := by
  obtain ⟨way, nonempty, -, located⟩ := roomy.coherent.exists_way member
  apply roomy.room.directories file member
  · rw [located]
    exact List.prefix_append _ _
  · rw [located]
    simpa using Ne.symm nonempty

/-- No file is above a place that the generation changes, where a directory has to be made. -/
theorem IsRoomy.not_hasFile_opened
    {place : Place}
    (opened : base.Opened generation.allChanges place) :
    ¬ base.store.HasFile place := by
  obtain ⟨change, member, opens⟩ := opened
  cases change with
  | directory relative => exact roomy.not_hasFile_directory member opens.exposes.above
  | file relative content =>
      intro file
      apply roomy.room.directories relative ((mem_filesOf_iff _ _).2 ⟨content, member⟩) place
        opens.exposes.above _ file
      rintro rfl
      obtain ⟨node, found, -⟩ := file
      rw [Change.relative_file] at opens
      rw [opens.vacant] at found
      exact absurd found (by simp)

variable
  {done : List Change}
  {state : State}
  (shows : base.Shows done state)
  (subset : done ⊆ generation.allChanges)

include shows subset

/-- The files of the state are those that were there and those that were made. -/
theorem IsRoomy.hasFile_iff (place : Place) :
    state.store.HasFile place ↔ base.store.HasFile place ∨ base.Filled done place := by
  by_cases filled : base.Filled done place
  · have isFile : state.store.HasFile place := by
      obtain ⟨change, member, ⟨content, isFile⟩, rfl⟩ := filled
      rw [isFile] at member
      exact ⟨_, shows.files _ _ member,
        standing_of_not_hasDirectory (roomy.vacant_file (subset member))⟩
    simp [isFile, filled]
  · by_cases opened : base.Opened done place
    · have noFile := roomy.not_hasFile_opened (opened.subset subset)
      have directory : state.store.HasDirectory place :=
        ⟨_, shows.opened place filled opened, isDirectory_asDirectory _⟩
      have notFile : ¬ state.store.HasFile place := fun file => file.not_hasDirectory directory
      simp [notFile, noFile, filled]
    · rw [HasFile, HasFile, shows.elsewhere place filled opened]
      simp [filled]

/-- No file comes to be at a directory of the generation, or above it. -/
theorem IsRoomy.not_hasFile_above
    {relative : Text}
    (member : Change.directory relative ∈ generation.allChanges)
    {above : Place}
    (upper : above <+: base.placeOf relative) :
    ¬ state.store.HasFile above := by
  rw [roomy.hasFile_iff shows subset]
  rintro (file | ⟨other, otherMember, isFile, rfl⟩)
  · exact roomy.not_hasFile_directory member upper file
  · have differ : Change.directory relative ≠ other := by
      rintro rfl
      exact Change.not_isFile_directory relative isFile
    exact (roomy.coherent.apart_of_ne base member (subset otherMember) differ).backward isFile upper

theorem IsRoomy.exists_apply_directory
    {relative : Text}
    (member : Change.directory relative ∈ generation.allChanges) :
    ∃ next, state.apply (.directory relative) = .ok next := by
  have free : ∀ action place, state.store.refusal action place = none := by
    rw [shows.refusal]
    exact roomy.free
  apply State.exists_apply_directory free (shows.isSituated roomy.situated)
  intro above upper
  rw [shows.placeOf] at upper
  exact roomy.not_hasFile_above shows subset member upper

/-- A directory that was made is there. -/
theorem IsRoomy.hasDirectory_of_mem
    {relative : Text}
    (member : Change.directory relative ∈ done) :
    state.store.HasDirectory (base.placeOf relative) := by
  have noFile : ¬ state.store.HasFile (base.placeOf relative) :=
    roomy.not_hasFile_above shows subset (subset member) (List.prefix_refl _)
  cases found : state.store.node? (base.placeOf relative) with
  | none =>
      have nonempty : base.placeOf relative ≠ [] := by
        intro root
        rw [root] at found
        exact absurd found (by simp)
      have vacant := shows.node?_eq_none found
      have opened : base.Opened done (base.placeOf relative) :=
        ⟨.directory relative, member, vacant, Exposes.refl _ nonempty⟩
      have unfilled : ¬ base.Filled done (base.placeOf relative) := fun filled =>
        noFile ((roomy.hasFile_iff shows subset _).2 (Or.inr filled))
      rw [shows.opened _ unfilled opened] at found
      exact absurd found (by simp)
  | some node => exact ⟨node, found, isDirectory_of_not_hasFile noFile found⟩

end Roomy

/-! ## Room is enough -/

/-- In a tree with room an entity can be generated after any others. -/
theorem IsRoomy.exists_applyAll_entity
    {generation : Generation}
    {base : State}
    (roomy : generation.IsRoomy base)
    {done : List Change}
    {state : State}
    (shows : base.Shows done state)
    (tree : state.store.IsTree)
    {entity : Entity}
    (entityMember : entity ∈ generation.registry.entities)
    (subset : changes generation.context entity ++ done ⊆ generation.allChanges)
    (apart : (changes generation.context entity ++ done).Pairwise base.Apart) :
    ∃ last, state.applyAll (changes generation.context entity) = .ok last := by
  have wellFormed := roomy.coherent.wellFormed
  have checked := roomy.coherent.checked entity entityMember
  cases composed : Emission.compose generation.context entity with
  | error fault =>
      rw [changes_of_error composed]
      exact ⟨state, rfl⟩
  | ok texts =>
      rw [changes_of_ok composed] at subset apart ⊢
      rw [placements, List.cons_append] at subset apart
      obtain ⟨member, othersSubset⟩ := List.cons_subset.1 subset
      obtain ⟨directoryApart, othersApart⟩ := List.pairwise_cons.1 apart
      have doneSubset : done ⊆ generation.allChanges :=
        fun _ earlier => othersSubset (List.mem_append_right _ earlier)
      -- The directory comes first, and then the files are placed in it.
      obtain ⟨next, applied⟩ := roomy.exists_apply_directory shows doneSubset member
      have noFile {claimed : Prop}
          (isFile : (Change.directory
            (Names.ofEntity generation.context.options entity).directory).IsFile) :
          claimed := (Change.not_isFile_directory _ isFile).elim
      have nextTree := isTree_of_apply tree noFile noFile applied
      have nextShows :=
        shows.cons (fun other earlier => directoryApart other (List.mem_append_right _ earlier))
          (follows_of_apply noFile applied)
      have present := roomy.hasDirectory_of_mem nextShows
        (List.cons_subset.2 ⟨member, doneSubset⟩) List.mem_cons_self
      rw [placements, applyAll, applied]
      apply exists_applyAll_files (by rw [nextShows.refusal]; exact roomy.free) nextTree
        (nextShows.isSituated roomy.situated) present
      · intro change changed
        obtain ⟨artifact, -, rfl⟩ := List.mem_map.1 changed
        refine ⟨Change.isFile_file _ _,
          entity.name ++ generation.context.options.extension artifact, ?_⟩
        rw [nextShows.placeOf, placeOf_directory wellFormed base checked, List.append_assoc]
        exact placeOf_artifactPath wellFormed base checked artifact
      · intro change changed
        obtain ⟨artifact, -, rfl⟩ := List.mem_map.1 changed
        have isFile :
            (placement (Names.ofEntity generation.context.options entity) texts artifact).IsFile :=
          Change.isFile_file _ _
        rw [nextShows.placeOf, HasDirectory, nextShows.node?_of_outside]
        · exact roomy.vacant_file (othersSubset (List.mem_append_left _ changed))
        · intro other otherMember
          rcases List.mem_cons.1 otherMember with rfl | earlier
          · exact (directoryApart _ (List.mem_append_left _ changed)).backward isFile
          · exact ((List.pairwise_append.1 othersApart).2.2 _ changed other earlier).forward isFile
      · refine (List.pairwise_append.1 othersApart).1.imp_of_mem
          fun {first second} firstMember _ separate same => ?_
        rw [nextShows.placeOf, nextShows.placeOf] at same
        obtain ⟨artifact, -, rfl⟩ := List.mem_map.1 firstMember
        exact separate.forward (Change.isFile_file _ _) (same ▸ List.prefix_refl _)

theorem IsRoomy.exists_applyAll_entities
    {generation : Generation}
    {base : State}
    (roomy : generation.IsRoomy base)
    {done : List Change}
    {state : State}
    (shows : base.Shows done state)
    (tree : state.store.IsTree)
    {entities : List Entity}
    (entitiesSubset : entities ⊆ generation.registry.entities)
    (subset : entities.flatMap (changes generation.context) ++ done ⊆ generation.allChanges)
    (apart : (entities.flatMap (changes generation.context) ++ done).Pairwise base.Apart) :
    ∃ last, state.applyAll (entities.flatMap (changes generation.context)) = .ok last := by
  -- What was done grows by the changes of each entity; only their order among the rest differs.
  induction entities generalizing state done with
  | nil => exact ⟨state, rfl⟩
  | cons entity rest induction =>
      rw [List.flatMap_cons, List.append_assoc] at subset apart
      have moved := List.perm_append_comm_assoc (changes generation.context entity)
        (rest.flatMap (changes generation.context)) done
      have movedApart := (moved.pairwise_iff Apart.symm).1 apart
      have movedSubset := List.Subset.trans moved.symm.subset subset
      have hereApart := (List.pairwise_append.1 movedApart).2.1
      have hereSubset := List.Subset.trans (List.subset_append_right _ _) movedSubset
      obtain ⟨next, applied⟩ := roomy.exists_applyAll_entity shows tree
        (entitiesSubset List.mem_cons_self) hereSubset hereApart
      have member {change : Change} (changed : change ∈ changes generation.context entity) :
          change ∈ generation.allChanges := hereSubset (List.mem_append_left _ changed)
      have below : ∀ change ∈ changes generation.context entity, change.IsFile →
          base.placeOf change.relative ≠ [] :=
        fun change changed => roomy.coherent.placeOf_ne_nil base (member changed)
      have vacant : ∀ file ∈ filesOf (changes generation.context entity),
          ¬ base.store.HasDirectory (base.placeOf file) := by
        intro file fileMember
        obtain ⟨content, changed⟩ := (mem_filesOf_iff _ _).1 fileMember
        exact roomy.vacant_file (member changed)
      obtain ⟨last, later⟩ := induction (shows.applyAll below hereApart applied)
        (shows.isTree_of_applyAll tree below hereApart vacant applied)
        (List.subset_of_cons_subset entitiesSubset) movedSubset movedApart
      exact ⟨last, (applyAll_append _ _ _ _).2 ⟨next, applied, later⟩⟩

/-- In a tree with room a generation succeeds. -/
theorem IsRoomy.exists_applyAll
    {generation : Generation}
    {base : State}
    (roomy : generation.IsRoomy base) :
    ∃ last, base.applyAll generation.allChanges = .ok last := by
  apply roomy.exists_applyAll_entities (Shows.refl base) roomy.tree (List.Subset.refl _)
  · rw [List.append_nil]
    exact List.Subset.refl _
  · exact roomy.coherent.pairwise_from_start base

/-! ## What a generation leaves -/

section Left

variable
  {generation : Generation}
  {base last : State}
  (roomy : generation.IsRoomy base)
  (applied : base.applyAll generation.allChanges = .ok last)

include roomy applied

theorem IsRoomy.shows : base.Shows generation.allChanges last := by
  have shows := (Shows.refl base).applyAll (fun _ => roomy.coherent.placeOf_ne_nil base)
    (roomy.coherent.pairwise_from_start base) applied
  rwa [List.append_nil] at shows

theorem IsRoomy.isTree : last.store.IsTree :=
  (Shows.refl base).isTree_of_applyAll roomy.tree (fun _ => roomy.coherent.placeOf_ne_nil base)
    (roomy.coherent.pairwise_from_start base) roomy.room.files applied

theorem IsRoomy.isSituated : last.store.IsSituated :=
  (roomy.shows applied).isSituated roomy.situated

theorem IsRoomy.refusal_eq_none
    (action : FileAction)
    (place : Place) :
    last.store.refusal action place = none := by
  rw [(roomy.shows applied).refusal]
  exact roomy.free action place

/-- What was there is there still, unless a file was generated at its place. -/
theorem IsRoomy.node?_of_present
    {place : Place}
    (unfilled : ¬ base.Filled generation.allChanges place)
    {node : FileNode}
    (present : base.store.node? place = some node) :
    last.store.node? place = some node := by
  by_cases opened : base.Opened generation.allChanges place
  · have isDirectory := isDirectory_of_not_hasFile (roomy.not_hasFile_opened opened) present
    rw [(roomy.shows applied).opened place unfilled opened, present, asDirectory, ← isDirectory]
  · rw [(roomy.shows applied).elsewhere place unfilled opened, present]

/-- What could be read can be read still, unless a file was generated in its stead. -/
theorem IsRoomy.read_of_elsewhere
    {path content : Text}
    (elsewhere : ∀ file ∈ filesOf generation.allChanges, base.placeOf file ≠ base.store.place path)
    (readable : base.store.read path = .ok content) :
    last.store.read path = .ok content := by
  have unfilled : ¬ base.Filled generation.allChanges (base.store.place path) := by
    rw [filled_iff]
    rintro ⟨file, member, same⟩
    exact elsewhere file member same
  obtain ⟨-, reaches, node, present, held, notDirectory⟩ := (read_eq_ok_iff _ _ _).1 readable
  refine (read_eq_ok_iff _ _ _).2
    ⟨roomy.refusal_eq_none applied _ _, (roomy.shows applied).reaches reaches, node, ?_, held, ?_⟩
  · rw [(roomy.shows applied).place]
    exact roomy.node?_of_present applied unfilled present
  · rw [(roomy.shows applied).manner]
    exact notDirectory

theorem IsRoomy.node?_of_generated
    {relative content : Text}
    (member : Change.file relative content ∈ generation.allChanges) :
    last.store.node? (base.placeOf relative) = some (.file content) := by
  rw [(roomy.shows applied).files relative content member,
    standing_of_not_hasDirectory (roomy.vacant_file member), FileNode.file]

/-- A generated file can be reached by its path. -/
theorem IsRoomy.reaches_generated
    {relative content : Text}
    (member : Change.file relative content ∈ generation.allChanges) :
    last.store.Reaches (last.tree.path relative) := by
  have found := roomy.node?_of_generated applied member
  rw [← (roomy.shows applied).placeOf] at found
  have isFile : last.store.HasFile (last.placeOf relative) := ⟨_, found, rfl⟩
  apply reaches_path (roomy.isSituated applied) _ isFile.not_hasDirectory
  apply (roomy.isTree applied).isOpenWay
  rw [List.nil_append, found]
  exact Option.some_ne_none _

theorem IsRoomy.not_hasFile_root_later
    {file : Text}
    (member : file ∈ filesOf generation.allChanges) :
    ¬ last.store.HasFile (base.store.place base.tree.root) := by
  rw [roomy.hasFile_iff (roomy.shows applied) (List.Subset.refl _), filled_iff]
  rintro (isFile | ⟨other, otherMember, same⟩)
  · exact roomy.not_hasFile_root member isFile
  · obtain ⟨way, nonempty, -, located⟩ := roomy.coherent.exists_way otherMember
    rw [located] at same
    exact nonempty (by simpa using same)

/-- The files below the root are those that were there, and the generated ones. -/
theorem IsRoomy.mem_filesBelow_iff (file : Text) :
    file ∈ last.store.filesBelow base.tree.root ↔
      file ∈ base.store.filesBelow base.tree.root ∨ file ∈ filesOf generation.allChanges := by
  have shows := roomy.shows applied
  by_cases nothing : generation.allChanges = []
  · rw [nothing, applyAll, Except.ok.injEq] at applied
    rw [nothing, applied]
    simp [filesOf]
  · obtain ⟨change, member⟩ := List.exists_mem_of_ne_nil _ nothing
    obtain ⟨generated, generatedMember⟩ := roomy.coherent.exists_generated member
    have hasFile_iff := roomy.hasFile_iff shows (List.Subset.refl _)
    have baseNoFile := roomy.not_hasFile_root generatedMember
    have lastNoFile := roomy.not_hasFile_root_later applied generatedMember
    rw [← shows.place] at lastNoFile
    rw [(roomy.isTree applied).mem_filesBelow_iff lastNoFile,
      roomy.tree.mem_filesBelow_iff baseNoFile, shows.place]
    simp only [hasFile_iff, filled_iff]
    constructor
    · rintro ⟨way, nonempty, isFile | ⟨other, otherMember, same⟩, rfl⟩
      · exact Or.inl ⟨way, nonempty, isFile, rfl⟩
      · obtain ⟨otherWay, -, rfl, located⟩ := roomy.coherent.exists_way otherMember
        rw [located] at same
        exact Or.inr (List.append_cancel_left same ▸ otherMember)
    · rintro (⟨way, nonempty, isFile, shown⟩ | isGenerated)
      · exact ⟨way, nonempty, Or.inl isFile, shown⟩
      · obtain ⟨way, nonempty, shown, located⟩ := roomy.coherent.exists_way isGenerated
        exact ⟨way, nonempty, Or.inr ⟨file, isGenerated, located base⟩, shown.symm⟩

/-- Below a root that had no files there are the generated ones. -/
theorem IsRoomy.mem_filesBelow_of_empty
    (empty : base.store.filesBelow base.tree.root = [])
    (file : Text) :
    file ∈ last.store.filesBelow base.tree.root ↔ file ∈ filesOf generation.allChanges := by
  rw [roomy.mem_filesBelow_iff applied, empty]
  simp

/-- A file stays listed below a directory when something is generated, wherever that is. -/
theorem IsRoomy.mem_filesBelow_of_mem
    {path : Text}
    (noFile : ¬ base.store.HasFile (base.store.place path))
    {file : Text}
    (listed : file ∈ base.store.filesBelow path) :
    file ∈ last.store.filesBelow path := by
  have shows := roomy.shows applied
  obtain ⟨way, nonempty, isFile, shown⟩ := (roomy.tree.mem_filesBelow_iff noFile file).1 listed
  have directory : base.store.HasDirectory (base.store.place path) := by
    obtain ⟨node, found, -⟩ := isFile
    apply roomy.tree.hasDirectory_of_below (by simp [found]) (List.prefix_append _ way)
    simpa using nonempty
  have stillDirectory := shows.hasDirectory_of_base directory
  have stillFile :=
    (roomy.hasFile_iff shows (List.Subset.refl _) (base.store.place path ++ way)).2 (.inl isFile)
  rw [← shows.place path] at stillDirectory stillFile
  apply ((roomy.isTree applied).mem_filesBelow_iff _ file).2 ⟨way, nonempty, stillFile, shown⟩
  exact fun isFile => isFile.not_hasDirectory stillDirectory

/-- What was generated is idle when it is generated again. -/
theorem IsRoomy.isIdle
    {change : Change}
    (member : change ∈ generation.allChanges) :
    IsIdle ⟨last.store, .start base.tree.root⟩ change := by
  have shows := roomy.shows applied
  have located (relative : Text) :
      placeOf ⟨last.store, .start base.tree.root⟩ relative = base.placeOf relative :=
    shows.place _
  cases change with
  | directory relative =>
      obtain ⟨node, found, -⟩ :=
        roomy.hasDirectory_of_mem shows (List.Subset.refl _) member
      obtain ⟨next, again⟩ := roomy.exists_apply_directory shows (List.Subset.refl _) member
      obtain ⟨store, made, -⟩ := (apply_directory_eq_ok_iff _ _ _).1 again
      rw [shows.path] at made
      refine .directory ?_ ⟨_, (apply_directory_eq_ok_iff _ _ _).2 ⟨store, made, rfl⟩⟩
      rw [located, found]
      exact Option.some_ne_none node
  | file relative content =>
      have found := roomy.node?_of_generated applied member
      refine .file (shows.path relative ▸ roomy.reaches_generated applied member)
        ((holds_eq_true_iff _ _ _).2
          ⟨roomy.refusal_eq_none applied _ _, .file content, ?_, rfl, fun _ => rfl⟩)
      exact (congrArg last.store.node? (located relative)).trans found

/-- A generation that is made again leaves everything as it is, and notes all of its files as
unchanged. -/
theorem IsRoomy.applyAll_again :
    applyAll ⟨last.store, .start base.tree.root⟩ generation.allChanges =
      .ok ⟨last.store, ⟨base.tree.root, [], (filesOf generation.allChanges).reverse⟩⟩ := by
  rw [applyAll_of_isIdle fun _ => roomy.isIdle applied]
  simp [OutputTree.start]

end Left

end UnoBindgen.Generation
