import Mathlib
import UnoBindgen.Proofs.FileStore.Tree
import UnoBindgen.Proofs.Text.Sort
import UnoBindgen.Proofs.Traversal

/-!
# Walking through a directory

The files below a directory can be told from the nodes of a store alone: they are listed once each,
by paths that determine their places.  A walk goes down from the directory instead, name by name and
in order, and it comes by the same files.
-/

namespace UnoBindgen.FileStore

open Text.SlashPath

/-! ## The files below a directory -/

theorem below?_eq_some_iff
    (directory place way : Place) :
    below? directory place = some way ↔ place = directory ++ way := by
  fun_induction below? directory place with
  | case1 place => simp [eq_comm]
  | case2 name directory => simp
  | case3 name directory place induction => simp [induction]
  | case4 name directory other place differs => simp [Ne.symm differs]

theorem hasFile_iff_mem
    {store : FileStore}
    (nodup : (store.nodes.map Prod.fst).Nodup)
    {place : Place}
    (nonempty : place ≠ []) :
    store.HasFile place ↔ ∃ node, (place, node) ∈ store.nodes ∧ node.isDirectory = false := by
  simp only [HasFile, node?_of_ne_nil store nonempty, lookup_eq_some_iff_mem nodup]

theorem ListsPlainly.isPlain_of_mem_way
    {store : FileStore}
    (lists : store.ListsPlainly)
    {directory way : Place}
    {node : FileNode}
    (listed : (directory ++ way, node) ∈ store.nodes) :
    ∀ segment ∈ way, IsPlain segment :=
  fun segment member =>
    lists.plain _ (List.mem_map.2 ⟨_, listed, rfl⟩) segment (List.mem_append_right _ member)

/-- The path by which a listed place is shown below a directory, if it is a file there. -/
def shownBelow (store : FileStore) (directory : Place) (entry : Place × FileNode) : Option Text :=
  match below? directory entry.1 with
  | some way =>
    if way ≠ [] ∧ entry.2.isDirectory = false ∧ store.isReachable directory way then
      some (Text.join ['/'] way)
    else
      none
  | none => none

theorem shownBelow_eq_some_iff
    (store : FileStore)
    (directory : Place)
    (entry : Place × FileNode)
    (file : Text) :
    store.shownBelow directory entry = some file ↔
      ∃ way, entry.1 = directory ++ way ∧ way ≠ [] ∧ entry.2.isDirectory = false ∧
        store.IsOpenWay directory way ∧ Text.join ['/'] way = file := by
  rw [shownBelow]
  simp only [← below?_eq_some_iff, ← isReachable_eq_true_iff]
  cases below? directory entry.1 with
  | none => simp
  | some way => simp [and_assoc]

/-- The paths of the files below a directory, or of the file itself, by the nodes of the store. -/
def filesBelow (store : FileStore) (path : Text) : List Text :=
  match store.node? (store.place path) with
  | none => []
  | some node =>
    if node.isDirectory then store.nodes.filterMap (store.shownBelow (store.place path))
    else [['.']]

theorem filesBelow_of_directory
    {store : FileStore}
    {path : Text}
    (directory : store.HasDirectory (store.place path)) :
    store.filesBelow path = store.nodes.filterMap (store.shownBelow (store.place path)) := by
  obtain ⟨node, present, isDirectory⟩ := directory
  simp only [filesBelow, present, isDirectory, if_true]

theorem filesBelow_of_vacant
    {store : FileStore}
    {path : Text}
    (vacant : store.node? (store.place path) = none) :
    store.filesBelow path = [] := by
  simp only [filesBelow, vacant]

/-- Where places are listed once, by plain names, so are the files below a directory. -/
theorem ListsPlainly.nodup_filesBelow
    {store : FileStore}
    (lists : store.ListsPlainly)
    (path : Text) :
    (store.filesBelow path).Nodup := by
  cases present : store.node? (store.place path) with
  | none =>
      rw [filesBelow_of_vacant present]
      exact List.nodup_nil
  | some node =>
      by_cases isDirectory : node.isDirectory = true
      · rw [filesBelow_of_directory ⟨node, present, isDirectory⟩, List.Nodup,
          List.pairwise_filterMap]
        refine (List.pairwise_map.1 lists.nodup).imp_of_mem ?_
        rintro ⟨first, _⟩ ⟨second, _⟩ firstListed secondListed differs file shown _ otherShown rfl
        obtain ⟨way, rfl, nonempty, -, -, shown⟩ := (shownBelow_eq_some_iff _ _ _ _).1 shown
        obtain ⟨other, rfl, otherNonempty, -, -, otherShown⟩ :=
          (shownBelow_eq_some_iff _ _ _ _).1 otherShown
        have noSlash {way : Place} {node : FileNode}
            (listed : (store.place path ++ way, node) ∈ store.nodes) :
            ∀ segment ∈ way, '/' ∉ segment :=
          fun segment member => (lists.isPlain_of_mem_way listed segment member).noSlash
        apply differs
        rw [Text.join_injective nonempty otherNonempty (noSlash firstListed)
          (noSlash secondListed) (shown.trans otherShown.symm)]
      · simp only [filesBelow, present, isDirectory]
        exact List.nodup_singleton _

/-! ## Ways to files -/

/-- There is a file at the end of a way, and directories on it. -/
structure IsFileWay
    (store : FileStore)
    (place way : Place) :
    Prop where
  isFile : store.HasFile (place ++ way)
  through : ∀ part, part <+: way → part ≠ way → store.HasDirectory (place ++ part)

theorem isFileWay_nil_iff
    (store : FileStore)
    (place : Place) :
    store.IsFileWay place [] ↔ store.HasFile place := by
  constructor
  · rintro ⟨isFile, -⟩
    rwa [List.append_nil] at isFile
  · intro isFile
    exact ⟨by rwa [List.append_nil], fun part shorter differs =>
      (differs (List.prefix_nil.1 shorter)).elim⟩

theorem isFileWay_cons_iff
    (store : FileStore)
    (place : Place)
    (name : Text)
    (rest : Place) :
    store.IsFileWay place (name :: rest) ↔
      store.HasDirectory place ∧ store.IsFileWay (place ++ [name]) rest := by
  constructor
  · rintro ⟨isFile, through⟩
    refine ⟨?_, by simpa using isFile, fun part shorter differs => ?_⟩
    · have here := through [] List.nil_prefix (by simp)
      rwa [List.append_nil] at here
    · have below := through (name :: part) (List.cons_prefix_cons.2 ⟨rfl, shorter⟩)
        (by simpa using differs)
      simpa using below
  · rintro ⟨here, isFile, through⟩
    refine ⟨by simpa using isFile, fun part shorter differs => ?_⟩
    cases part with
    | nil => rwa [List.append_nil]
    | cons first part =>
        obtain ⟨rfl, inside⟩ := List.cons_prefix_cons.1 shorter
        have below := through part inside (by simpa using differs)
        simpa using below

theorem IsFileWay.present
    {store : FileStore}
    {place way : Place}
    (fileWay : store.IsFileWay place way) :
    store.node? place ≠ none := by
  intro vacant
  cases way with
  | nil =>
      obtain ⟨node, found, -⟩ := (isFileWay_nil_iff store place).1 fileWay
      rw [vacant] at found
      exact absurd found (by simp)
  | cons name rest =>
      exact not_hasDirectory_of_vacant vacant ((isFileWay_cons_iff _ _ _ _).1 fileWay).1

theorem ListsPlainly.isPlain_of_isFileWay
    {store : FileStore}
    (lists : store.ListsPlainly)
    {place way : Place}
    (fileWay : store.IsFileWay place way) :
    ∀ segment ∈ way, IsPlain segment := by
  cases way with
  | nil => simp
  | cons name rest =>
      obtain ⟨node, listed, -⟩ := (hasFile_iff_mem lists.nodup (by simp)).1 fileWay.isFile
      exact lists.isPlain_of_mem_way listed

theorem ofSegments_injective
    {first second : List Text}
    (firstPlain : ∀ segment ∈ first, IsPlain segment)
    (secondPlain : ∀ segment ∈ second, IsPlain segment)
    (same : ofSegments false first = ofSegments false second) :
    first = second := by
  have split {segments : List Text} (plain : ∀ segment ∈ segments, IsPlain segment) :
      resolveSegments false ((ofSegments false segments).splitAt '/') = segments := by
    cases segments with
    | nil => rfl
    | cons segment rest =>
        have shape : ofSegments false (segment :: rest) = Text.join ['/'] (segment :: rest) := rfl
        rw [shape, Text.splitAt_join (List.cons_ne_nil segment rest) fun other member =>
          (plain other member).noSlash]
        exact resolveSegments_of_isPlain false plain
  rw [← split firstPlain, same, split secondPlain]

/-- The files that are told from the nodes are those that one comes by. -/
theorem ListsPlainly.mem_filesBelow_iff
    {store : FileStore}
    (lists : store.ListsPlainly)
    (path file : Text) :
    file ∈ store.filesBelow path ↔
      ∃ way, store.IsFileWay (store.place path) way ∧ ofSegments false way = file := by
  cases present : store.node? (store.place path) with
  | none =>
      rw [filesBelow_of_vacant present]
      constructor
      · intro listed
        exact (List.not_mem_nil listed).elim
      · rintro ⟨way, fileWay, -⟩
        exact (fileWay.present present).elim
  | some node =>
      by_cases isFile : store.HasFile (store.place path)
      · have itself : store.filesBelow path = [['.']] := by
          obtain ⟨other, found, standing⟩ := isFile
          rw [filesBelow]
          simp only [found, standing]
          rfl
        rw [itself, List.mem_singleton]
        constructor
        · rintro rfl
          exact ⟨[], (isFileWay_nil_iff store _).2 isFile, rfl⟩
        · rintro ⟨way, fileWay, rfl⟩
          cases way with
          | nil => rfl
          | cons name rest =>
              exact (isFile.not_hasDirectory ((isFileWay_cons_iff _ _ _ _).1 fileWay).1).elim
      · have directory : store.HasDirectory (store.place path) :=
          ⟨node, present, isDirectory_of_not_hasFile isFile present⟩
        simp only [filesBelow_of_directory directory, List.mem_filterMap, shownBelow_eq_some_iff]
        constructor
        · rintro ⟨⟨place, entry⟩, listed, way, rfl, nonempty, standing, isOpen, rfl⟩
          refine ⟨way, ⟨?_, fun part shorter differs => ?_⟩, ?_⟩
          · rw [hasFile_iff_mem lists.nodup (by simp [nonempty])]
            exact ⟨entry, listed, standing⟩
          · by_cases here : part = []
            · rwa [here, List.append_nil]
            · exact isOpen part here shorter differs
          · cases way with
            | nil => exact (nonempty rfl).elim
            | cons name rest => rfl
        · rintro ⟨way, fileWay, rfl⟩
          have nonempty : way ≠ [] := by
            rintro rfl
            exact isFile ((isFileWay_nil_iff store _).1 fileWay)
          obtain ⟨entry, listed, standing⟩ :=
            (hasFile_iff_mem lists.nodup (by simp [nonempty])).1 fileWay.isFile
          refine ⟨(_, entry), listed, way, rfl, nonempty, standing,
            fun part _ shorter differs => fileWay.through part shorter differs, ?_⟩
          cases way with
          | nil => exact (nonempty rfl).elim
          | cons name rest => rfl

/-- In a tree, a file is listed below a directory when it is there. -/
theorem IsTree.mem_filesBelow_iff
    {store : FileStore}
    (tree : store.IsTree)
    {path : Text}
    (noFile : ¬ store.HasFile (store.place path))
    (file : Text) :
    file ∈ store.filesBelow path ↔
      ∃ way, way ≠ [] ∧ store.HasFile (store.place path ++ way) ∧ Text.join ['/'] way = file := by
  rw [tree.listsPlainly.mem_filesBelow_iff]
  refine exists_congr fun way => ?_
  cases way with
  | nil => simp [isFileWay_nil_iff, noFile]
  | cons name rest =>
      have shape : ofSegments false (name :: rest) = Text.join ['/'] (name :: rest) := rfl
      rw [shape, and_iff_right (List.cons_ne_nil name rest)]
      refine and_congr_left fun _ => ⟨IsFileWay.isFile, fun isFile => ⟨isFile, ?_⟩⟩
      intro part shorter differs
      obtain ⟨node, found, -⟩ := isFile
      apply tree.hasDirectory_of_below (by rw [found]; exact Option.some_ne_none node)
      · exact (List.prefix_append_right_inj _).2 shorter
      · exact fun same => differs (List.append_cancel_left same)

/-- The files below a path depend on what is at its place and below it. -/
theorem ListsPlainly.mem_filesBelow_congr
    {store other : FileStore}
    (lists : store.ListsPlainly)
    (otherLists : other.ListsPlainly)
    {path : Text}
    (samePlace : other.place path = store.place path)
    (same : ∀ way, other.node? (store.place path ++ way) = store.node? (store.place path ++ way))
    (file : Text) :
    file ∈ other.filesBelow path ↔ file ∈ store.filesBelow path := by
  have sameWay (way : Place) :
      other.IsFileWay (store.place path) way ↔ store.IsFileWay (store.place path) way := by
    have sameFile : other.HasFile (store.place path ++ way) ↔
        store.HasFile (store.place path ++ way) := by
      rw [HasFile, HasFile, same]
    have sameDirectory (part : Place) : other.HasDirectory (store.place path ++ part) ↔
        store.HasDirectory (store.place path ++ part) := by
      rw [HasDirectory, HasDirectory, same]
    constructor
    · rintro ⟨isFile, through⟩
      exact ⟨sameFile.1 isFile, fun part shorter differs =>
        (sameDirectory part).1 (through part shorter differs)⟩
    · rintro ⟨isFile, through⟩
      exact ⟨sameFile.2 isFile, fun part shorter differs =>
        (sameDirectory part).2 (through part shorter differs)⟩
  rw [lists.mem_filesBelow_iff, otherLists.mem_filesBelow_iff, samePlace]
  simp only [sameWay]

/-! ## The walk -/

/-- The ways from a place to the files below it, in the order of a walk and as far down as is
given. -/
def walkWays (store : FileStore) : Nat → Place → List Place
  | levels, place =>
    match store.node? place with
    | none => []
    | some node =>
      if node.isDirectory then
        match levels with
        | 0 => []
        | levels + 1 =>
          (store.names place).flatMap fun name =>
            (walkWays store levels (place ++ [name])).map (name :: ·)
      else
        [[]]

theorem walkWays_of_file
    {store : FileStore}
    {place : Place}
    (isFile : store.HasFile place)
    (levels : Nat) :
    store.walkWays levels place = [[]] := by
  obtain ⟨node, found, standing⟩ := isFile
  unfold walkWays
  simp only [found, standing]
  rfl

theorem walkWays_of_directory
    {store : FileStore}
    {place : Place}
    (directory : store.HasDirectory place)
    (levels : Nat) :
    store.walkWays (levels + 1) place =
      (store.names place).flatMap fun name =>
        (store.walkWays levels (place ++ [name])).map (name :: ·) := by
  obtain ⟨node, found, standing⟩ := directory
  rw [walkWays]
  simp only [found, standing, if_true]

theorem walkWays_zero_of_not_hasFile
    {store : FileStore}
    {place : Place}
    (noFile : ¬ store.HasFile place) :
    store.walkWays 0 place = [] := by
  unfold walkWays
  cases found : store.node? place with
  | none => rfl
  | some node =>
      have standing := isDirectory_of_not_hasFile noFile found
      simp only [standing, if_true]

theorem walkWays_of_vacant
    {store : FileStore}
    {place : Place}
    (vacant : store.node? place = none)
    (levels : Nat) :
    store.walkWays levels place = [] := by
  unfold walkWays
  simp only [vacant]

theorem nameBelow?_eq_some_iff
    (directory place : Place)
    (name : Text) :
    nameBelow? directory place = some name ↔ place = directory ++ [name] := by
  rw [← below?_eq_some_iff, nameBelow?]
  cases below? directory place with
  | none => simp
  | some way =>
      cases way with
      | nil => simp
      | cons first rest => cases rest <;> simp

theorem mem_names_iff
    (store : FileStore)
    (directory : Place)
    (name : Text) :
    name ∈ store.names directory ↔ store.node? (directory ++ [name]) ≠ none := by
  rw [names, Text.mem_sort, node?_of_ne_nil store (by simp), ne_eq,
    lookup_eq_none_iff_not_mem, not_not, List.mem_map, List.mem_filterMap]
  simp only [nameBelow?_eq_some_iff]

/-- Where there is no directory, a walk goes no further. -/
theorem not_mem_walkWays_of_not_hasDirectory
    {store : FileStore}
    {place : Place}
    (noDirectory : ¬ store.HasDirectory place)
    (levels : Nat)
    (name : Text)
    (rest : Place) :
    name :: rest ∉ store.walkWays levels place := by
  cases found : store.node? place with
  | none => simp [walkWays_of_vacant found]
  | some node =>
      have isFile : store.HasFile place :=
        ⟨node, found, isDirectory_of_not_hasDirectory noDirectory found⟩
      simp [walkWays_of_file isFile]

theorem mem_walkWays_iff
    (store : FileStore)
    (levels : Nat)
    (place way : Place) :
    way ∈ store.walkWays levels place ↔ store.IsFileWay place way ∧ way.length ≤ levels := by
  induction levels generalizing place way with
  | zero =>
      by_cases isFile : store.HasFile place
      · rw [walkWays_of_file isFile, List.mem_singleton, Nat.le_zero, List.length_eq_zero_iff]
        constructor
        · rintro rfl
          exact ⟨(isFileWay_nil_iff store place).2 isFile, rfl⟩
        · exact And.right
      · rw [walkWays_zero_of_not_hasFile isFile, Nat.le_zero, List.length_eq_zero_iff]
        constructor
        · intro listed
          exact absurd listed List.not_mem_nil
        · rintro ⟨fileWay, rfl⟩
          exact (isFile ((isFileWay_nil_iff store place).1 fileWay)).elim
  | succ levels induction =>
      cases way with
      | nil =>
          rw [isFileWay_nil_iff]
          by_cases isFile : store.HasFile place
          · simp [walkWays_of_file isFile, isFile]
          · cases found : store.node? place with
            | none => simp [walkWays_of_vacant found, isFile]
            | some node =>
                rw [walkWays_of_directory ⟨node, found, isDirectory_of_not_hasFile isFile found⟩]
                simp [isFile]
      | cons name rest =>
          rw [isFileWay_cons_iff]
          by_cases directory : store.HasDirectory place
          · rw [walkWays_of_directory directory]
            simp only [List.mem_flatMap, List.mem_map, List.cons.injEq, induction,
              List.length_cons, Nat.add_le_add_iff_right]
            constructor
            · rintro ⟨_, -, _, ⟨fileWay, bound⟩, rfl, rfl⟩
              exact ⟨⟨directory, fileWay⟩, bound⟩
            · rintro ⟨⟨-, fileWay⟩, bound⟩
              exact ⟨name, (mem_names_iff ..).2 fileWay.present, rest, ⟨fileWay, bound⟩, rfl, rfl⟩
          · have none := not_mem_walkWays_of_not_hasDirectory directory (levels + 1) name rest
            simp [none, directory]

/-- A store is no deeper than its longest way down. -/
theorem length_le_depth
    {store : FileStore}
    {place : Place}
    (found : store.node? place ≠ none) :
    place.length ≤ store.depth := by
  have longest :
      ∀ (nodes : List (Place × FileNode)) (least : Nat),
        least ≤ nodes.foldl (fun longest entry => max longest entry.1.length) least ∧
          ∀ entry ∈ nodes,
            entry.1.length ≤
              nodes.foldl (fun longest entry => max longest entry.1.length) least := by
    intro nodes
    induction nodes with
    | nil => simp
    | cons entry rest induction =>
        intro least
        obtain ⟨above, others⟩ := induction (max least entry.1.length)
        refine ⟨le_trans (le_max_left _ _) above, fun other member => ?_⟩
        rcases List.mem_cons.1 member with rfl | later
        · exact le_trans (le_max_right _ _) above
        · exact others other later
  by_cases root : place = []
  · simp [root]
  · rw [node?_of_ne_nil store root, ne_eq, lookup_eq_none_iff_not_mem, not_not] at found
    obtain ⟨entry, member, rfl⟩ := List.mem_map.1 found
    exact (longest store.nodes 0).2 entry member

/-- A walk that goes down as far as there is anything comes by every file. -/
theorem mem_walkWays_depth_iff
    (store : FileStore)
    (place way : Place) :
    way ∈ store.walkWays store.depth place ↔ store.IsFileWay place way := by
  rw [mem_walkWays_iff]
  refine and_iff_left_of_imp fun fileWay => ?_
  obtain ⟨node, found, -⟩ := fileWay.isFile
  have bound : (place ++ way).length ≤ store.depth :=
    length_le_depth (by rw [found]; exact Option.some_ne_none node)
  rw [List.length_append] at bound
  omega

theorem ListsPlainly.nodup_names
    {store : FileStore}
    (lists : store.ListsPlainly)
    (directory : Place) :
    (store.names directory).Nodup := by
  rw [names, (Text.sort_perm _).nodup_iff, List.Nodup, List.pairwise_filterMap]
  refine (List.pairwise_map.1 lists.nodup).imp ?_
  rintro ⟨first, _⟩ ⟨second, _⟩ differs name shown other otherShown rfl
  rw [nameBelow?_eq_some_iff] at shown otherShown
  exact differs (shown.trans otherShown.symm)

theorem ListsPlainly.nodup_walkWays
    {store : FileStore}
    (lists : store.ListsPlainly)
    (levels : Nat)
    (place : Place) :
    (store.walkWays levels place).Nodup := by
  induction levels generalizing place with
  | zero =>
      by_cases isFile : store.HasFile place
      · rw [walkWays_of_file isFile]
        exact List.nodup_singleton _
      · rw [walkWays_zero_of_not_hasFile isFile]
        exact List.nodup_nil
  | succ levels induction =>
      by_cases directory : store.HasDirectory place
      · rw [walkWays_of_directory directory, List.nodup_flatMap]
        refine ⟨fun name _ => (induction _).map fun _ _ same => (List.cons.inj same).2, ?_⟩
        refine (lists.nodup_names place).imp fun {first second} differs way one other => ?_
        obtain ⟨rest, -, rfl⟩ := List.mem_map.1 one
        obtain ⟨otherRest, -, same⟩ := List.mem_map.1 other
        exact differs (List.cons.inj same).1.symm
      · cases found : store.node? place with
        | none =>
            rw [walkWays_of_vacant found]
            exact List.nodup_nil
        | some node =>
            rw [walkWays_of_file ⟨node, found, isDirectory_of_not_hasDirectory directory found⟩]
            exact List.nodup_singleton _

/-- The path of what is at the end of a way, as a walk spells it. -/
def pathBelow (path : Text) : Place → Text
  | [] => path
  | name :: rest => pathBelow (join [path, name]) rest

/-- The path of a file, seen from where the walk began, is its way. -/
theorem relative?_pathBelow
    (root : Text)
    {way : Place}
    (plain : ∀ segment ∈ way, IsPlain segment) :
    relative? root (pathBelow root way) = some (ofSegments false way) := by
  have spelled (path : Text) :
      isRooted (pathBelow path way) = isRooted path ∧
        segments (pathBelow path way) = segments path ++ way := by
    induction way generalizing path with
    | nil => exact ⟨rfl, (List.append_nil _).symm⟩
    | cons name rest induction =>
        have alone : ∀ segment ∈ [name], IsPlain segment := by
          intro segment member
          exact plain segment (by simp [List.mem_singleton.1 member])
        obtain ⟨sameRoot, split⟩ :=
          induction (fun segment member => plain segment (List.mem_cons_of_mem name member))
            (join [path, name])
        have step := segments_join path (List.cons_ne_nil name []) alone
        rw [Text.join_singleton] at step
        rw [pathBelow, sameRoot, split, step.1, step.2, List.append_assoc]
        exact ⟨rfl, rfl⟩
  exact relative?_of_segments (spelled root).1 (spelled root).2

/-- Where everything can be listed, a walk gives the paths of the files it comes by. -/
theorem walkFrom_eq
    {store : FileStore}
    {place : Place}
    (allowed : ∀ way, store.refusal .list (place ++ way) = none)
    (present : store.node? place ≠ none)
    (levels : Nat)
    (path : Text) :
    store.walkFrom levels path place =
      .ok ((store.walkWays levels place).map (pathBelow path)) := by
  have here := allowed []
  rw [List.append_nil] at here
  induction levels generalizing place path with
  | zero =>
      rw [walkFrom, walkWays]
      cases found : store.node? place with
      | none => exact (present found).elim
      | some node => cases standing : node.isDirectory <;> simp [here, pathBelow, standing]
  | succ levels induction =>
      rw [walkFrom, walkWays]
      cases found : store.node? place with
      | none => exact (present found).elim
      | some node =>
          cases standing : node.isDirectory with
          | false => simp [pathBelow, standing]
          | true =>
              have below :
                  (store.names place).mapM (fun name =>
                      store.walkFrom levels (join [path, name]) (place ++ [name])) =
                    .ok ((store.names place).map fun name =>
                      (store.walkWays levels (place ++ [name])).map
                        (pathBelow (join [path, name]))) := by
                rw [mapM_eq_ok_iff, List.forall₂_map_right_iff, List.forall₂_same]
                intro name listed
                apply induction
                · intro way
                  rw [List.append_assoc]
                  exact allowed _
                · exact (mem_names_iff store place name).1 listed
                · exact allowed [name]
              simp only [standing, if_true, here, below, List.map_flatMap, List.map_map]
              rfl

theorem walk_eq
    {store : FileStore}
    {path : Text}
    (reaches : store.Reaches path)
    (present : store.node? (store.place path) ≠ none)
    (allowed : ∀ way, store.refusal .list (store.place path ++ way) = none) :
    store.walk path =
      .ok ((store.walkWays store.depth (store.place path)).map (pathBelow path)) := by
  obtain ⟨node, found⟩ := Option.ne_none_iff_exists'.1 present
  rw [walk, (find_eq_ok_iff store "lstat" path node).2 ⟨reaches, found⟩]
  exact walkFrom_eq allowed present store.depth path

/-! ## What a walk comes by -/

/-- From a path one comes by a file with this relative path. -/
def FindsBelow (store : FileStore) (path file : Text) : Prop :=
  store.Reaches path ∧
    ∃ way, store.IsFileWay (store.place path) way ∧ ofSegments false way = file

/-- A path leads to its place, or to nothing where nothing is. -/
def Finds (store : FileStore) (path : Text) : Prop :=
  store.Reaches path ∨
    store.hindrance? path = some .missing ∧ store.node? (store.place path) = none

instance (store : FileStore) (path : Text) : Decidable (store.Finds path) :=
  inferInstanceAs (Decidable (_ ∨ _))

/-- From a path that leads to its place one comes by the files that are told from the nodes. -/
theorem ListsPlainly.findsBelow_iff
    {store : FileStore}
    (lists : store.ListsPlainly)
    {path : Text}
    (finds : store.Finds path)
    (file : Text) :
    store.FindsBelow path file ↔ file ∈ store.filesBelow path := by
  rw [lists.mem_filesBelow_iff, FindsBelow]
  rcases finds with reaches | ⟨-, vacant⟩
  · exact and_iff_right reaches
  · have nothing :
        ¬ ∃ way, store.IsFileWay (store.place path) way ∧ ofSegments false way = file := by
      rintro ⟨way, fileWay, -⟩
      exact fileWay.present vacant
    simp [nothing]

/-- Where a file that one comes by is, there is a file to be read. -/
theorem ListsPlainly.exists_read
    {store : FileStore}
    (lists : store.ListsPlainly)
    {path file : Text}
    (found : store.FindsBelow path file)
    (allowed : ∀ way, store.refusal .read (store.place path ++ way) = none) :
    ∃ content, store.read (join [path, file]) = .ok content := by
  obtain ⟨reaches, way, fileWay, rfl⟩ := found
  obtain ⟨node, present, standing⟩ := fileWay.isFile
  refine ⟨node.content, (read_eq_ok_iff _ _ _).2 ?_⟩
  by_cases empty : way = []
  · subst empty
    have itself : ofSegments false [] = ['.'] := rfl
    rw [List.append_nil] at present
    have here := allowed []
    rw [List.append_nil] at here
    rw [itself, place_join_same]
    exact ⟨here, reaches.join_same, node, present, rfl, fun _ => standing⟩
  · have plain := lists.isPlain_of_isFileWay fileWay
    have directory : store.HasDirectory (store.place path) := by
      have here := fileWay.through [] List.nil_prefix (Ne.symm empty)
      rwa [List.append_nil] at here
    have shape : ofSegments false way = Text.join ['/'] way := by
      cases way with
      | nil => exact (empty rfl).elim
      | cons name rest => rfl
    rw [shape, place_join store path plain]
    exact ⟨allowed way, reaches.below directory empty plain fun part _ shorter differs =>
      fileWay.through part shorter differs, node, present, rfl, fun _ => standing⟩

end UnoBindgen.FileStore
