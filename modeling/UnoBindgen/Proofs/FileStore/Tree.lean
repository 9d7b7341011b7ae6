import Mathlib
import UnoBindgen.Proofs.Association
import UnoBindgen.Proofs.FileStore.Access
import UnoBindgen.Proofs.FileStore.Places

/-!
# Stores that are trees

A store that has always been changed through its operations is a tree: what is at a place has a
directory above it, no place is listed twice, and all names are plain.  Making directories and
writing files keeps it so.
-/

namespace UnoBindgen.FileStore

open Text.SlashPath

/-- A store in which everything has a directory above it, is listed once, and has plain names. -/
structure IsTree (store : FileStore) : Prop where
  above : ∀ place name, store.node? (place ++ [name]) ≠ none → store.HasDirectory place
  nodup : (store.nodes.map Prod.fst).Nodup
  plain : ∀ place ∈ store.nodes.map Prod.fst, ∀ segment ∈ place, IsPlain segment
  origin : ∀ segment ∈ store.workingDirectory, '/' ∉ segment

/-- In a tree there are only directories on the way to a node. -/
theorem IsTree.hasDirectory_of_below
    {store : FileStore}
    (tree : store.IsTree)
    {place : Place}
    (found : store.node? place ≠ none)
    {above : Place}
    (shorter : above <+: place)
    (differs : above ≠ place) :
    store.HasDirectory above := by
  induction place using List.reverseRecOn with
  | nil => exact (differs (List.prefix_nil.1 shorter)).elim
  | append_singleton place name induction =>
      have directory := tree.above place name found
      rcases List.prefix_concat_iff.1 shorter with same | upper
      · exact (differs same).elim
      · by_cases same : above = place
        · rw [same]
          exact directory
        · obtain ⟨node, present, -⟩ := directory
          exact induction (by simp [present]) upper same

theorem IsTree.isOpenWay
    {store : FileStore}
    (tree : store.IsTree)
    {above way : Place}
    (found : store.node? (above ++ way) ≠ none) :
    store.IsOpenWay above way := by
  intro part _ shorter differs
  apply tree.hasDirectory_of_below found
  · exact (List.prefix_append_right_inj above).2 shorter
  · exact fun same => differs (List.append_cancel_left same)

/-- In a tree the way to a place is open once its directory is there. -/
theorem IsTree.isOpenWay_of_hasDirectory
    {store : FileStore}
    (tree : store.IsTree)
    {above : Place}
    (directory : store.HasDirectory above)
    (name : Text) :
    store.IsOpenWay [] (above ++ [name]) := by
  intro part _ shorter differs
  rw [List.nil_append]
  rcases List.prefix_concat_iff.1 shorter with here | upper
  · exact absurd here differs
  · by_cases same : part = above
    · rw [same]
      exact directory
    · obtain ⟨node, found, -⟩ := directory
      exact tree.hasDirectory_of_below (by simp [found]) upper same

/-- Nothing is below a place where nothing is. -/
theorem IsTree.vacant_below
    {store : FileStore}
    (tree : store.IsTree)
    {above : Place}
    (vacant : store.node? above = none)
    (way : Place) :
    store.node? (above ++ way) = none := by
  by_contra found
  have differs : above ≠ above ++ way := fun same => found (same ▸ vacant)
  obtain ⟨node, present, -⟩ :=
    tree.hasDirectory_of_below found (List.prefix_append above way) differs
  rw [vacant] at present
  exact absurd present (by simp)

theorem IsTree.isPlain_of_mem_place
    {store : FileStore}
    (tree : store.IsTree)
    (path : Text) :
    ∀ segment ∈ store.place path, IsPlain segment := by
  rw [place_eq]
  apply isPlain_of_mem_resolveSegments
  intro segment member
  rcases List.mem_append.1 member with inOrigin | inPath
  · cases rooted : isRooted path with
    | true => simp [rooted] at inOrigin
    | false =>
        rw [rooted, start_false] at inOrigin
        exact tree.origin segment inOrigin
  · exact Text.not_mem_of_mem_splitAt inPath

/-! ## Listed places -/

/-- To be a tree is a matter of the listed places. -/
theorem isTree_iff_listed (store : FileStore) :
    store.IsTree ↔
      (∀ place ∈ store.nodes.map Prod.fst, place ≠ [] → store.HasDirectory place.dropLast) ∧
        (store.nodes.map Prod.fst).Nodup ∧
        (∀ place ∈ store.nodes.map Prod.fst, ∀ segment ∈ place, IsPlain segment) ∧
        ∀ segment ∈ store.workingDirectory, '/' ∉ segment := by
  have listed_iff (place : Place) (name : Text) :
      store.node? (place ++ [name]) ≠ none ↔ place ++ [name] ∈ store.nodes.map Prod.fst := by
    rw [node?_of_ne_nil store (by simp), ne_eq, lookup_eq_none_iff_not_mem, not_not]
  constructor
  · intro tree
    refine ⟨fun place listed nonempty => ?_, tree.nodup, tree.plain, tree.origin⟩
    apply tree.above place.dropLast (place.getLast nonempty)
    rwa [listed_iff, List.dropLast_append_getLast]
  · rintro ⟨above, nodup, plain, origin⟩
    refine ⟨fun place name found => ?_, nodup, plain, origin⟩
    have directory := above _ ((listed_iff place name).1 found) (by simp)
    rwa [List.dropLast_concat] at directory

instance (store : FileStore) : Decidable store.IsTree :=
  decidable_of_iff _ (isTree_iff_listed store).symm

/-- Putting a node at a place lists the place if it was not listed. -/
theorem map_fst_put
    (store : FileStore)
    (place : Place)
    (node : FileNode) :
    (store.put place node).nodes.map Prod.fst =
      if place ∈ store.nodes.map Prod.fst then store.nodes.map Prod.fst
      else store.nodes.map Prod.fst ++ [place] := by
  rw [put]
  cases found : store.nodes.lookup place with
  | none =>
      rw [if_neg ((lookup_eq_none_iff_not_mem _ _).1 found)]
      simp
  | some existing =>
      have listed : place ∈ store.nodes.map Prod.fst := by
        by_contra missing
        rw [(lookup_eq_none_iff_not_mem _ _).2 missing] at found
        exact absurd found (by simp)
      have replaced :
          (store.nodes.map fun entry => if entry.1 == place then (place, node) else entry).map
              Prod.fst = store.nodes.map Prod.fst := by
        rw [List.map_map]
        refine List.map_congr_left fun entry _ => ?_
        by_cases same : entry.1 = place <;> simp [same]
      rw [if_pos listed]
      simpa using replaced

/-- The places of a store are listed once, by plain names. -/
structure ListsPlainly (store : FileStore) : Prop where
  nodup : (store.nodes.map Prod.fst).Nodup
  plain : ∀ place ∈ store.nodes.map Prod.fst, ∀ segment ∈ place, IsPlain segment

theorem IsTree.listsPlainly
    {store : FileStore}
    (tree : store.IsTree) :
    store.ListsPlainly :=
  ⟨tree.nodup, tree.plain⟩

theorem ListsPlainly.put
    {store : FileStore}
    (lists : store.ListsPlainly)
    {place : Place}
    (plain : ∀ segment ∈ place, IsPlain segment)
    (node : FileNode) :
    (store.put place node).ListsPlainly := by
  by_cases listed : place ∈ store.nodes.map Prod.fst
  · exact ⟨by rw [map_fst_put, if_pos listed]; exact lists.nodup,
      by rw [map_fst_put, if_pos listed]; exact lists.plain⟩
  · constructor
    · rw [map_fst_put, if_neg listed]
      refine List.nodup_append.2 ⟨lists.nodup, List.nodup_singleton place, ?_⟩
      intro other member new isNew same
      rw [List.mem_singleton.1 isNew] at same
      exact listed (same ▸ member)
    · rw [map_fst_put, if_neg listed]
      intro other member
      rcases List.mem_append.1 member with earlier | new
      · exact lists.plain other earlier
      · rw [List.mem_singleton.1 new]
        exact plain

theorem ListsPlainly.adopt
    {store : FileStore}
    (lists : store.ListsPlainly)
    {names : Place}
    (plain : ∀ segment ∈ names, IsPlain segment) :
    (adopt names store).ListsPlainly := by
  fun_induction FileStore.adopt names store with
  | case1 => exact lists
  | case2 =>
      exact lists.put (fun segment member => plain segment (List.mem_reverse.1 member)) _
  | case3 _ _ _ _ _ induction =>
      exact induction
        (lists.put (fun segment member => plain segment (List.mem_reverse.1 member)) _)
        fun segment member => plain segment (List.mem_cons_of_mem _ member)

theorem ListsPlainly.withDirectories
    {store : FileStore}
    (lists : store.ListsPlainly)
    {created : Place}
    (plain : ∀ segment ∈ created, IsPlain segment) :
    (store.withDirectories created).ListsPlainly := by
  rw [FileStore.withDirectories]
  split
  · exact lists
  · exact lists.adopt fun segment member => plain segment (List.mem_reverse.1 member)

theorem ListsPlainly.withContent
    {store : FileStore}
    (lists : store.ListsPlainly)
    {created : Place}
    (plain : ∀ segment ∈ created, IsPlain segment)
    (content : Text) :
    (store.withContent created content).ListsPlainly := by
  rw [FileStore.withContent]
  split
  · exact lists.put plain _
  · exact (lists.put plain _).adopt fun segment member =>
      plain segment (List.dropLast_subset created (List.mem_reverse.1 member))

/-! ## Changes keep a tree -/

/-- What is opened on the way to a place is opened all the way up. -/
theorem opens_parent
    {store : FileStore}
    {created above : Place}
    {name : Text}
    (vacant : store.node? created = none)
    (below : above ++ [name] <+: created)
    (gap :
      ∀ between, above ++ [name] <+: between → between <+: created →
        store.node? between = none)
    (nonempty : above ≠ []) :
    store.Opens created above where
  vacant := vacant
  exposes :=
    { nonempty := nonempty
      above := (List.prefix_append above [name]).trans below
      gap := by
        intro between lower upper differs
        apply gap between _ upper
        rcases List.prefix_or_prefix_of_prefix below upper with inside | shorter
        · exact inside
        · rcases List.prefix_concat_iff.1 shorter with rfl | upwards
          · exact List.prefix_refl _
          · exact (differs (upwards.eq_of_length
              (Nat.le_antisymm upwards.length_le lower.length_le))).elim }

theorem Opens.parent
    {store : FileStore}
    {created above : Place}
    {name : Text}
    (opened : store.Opens created (above ++ [name]))
    (vacant : store.node? (above ++ [name]) = none)
    (nonempty : above ≠ []) :
    store.Opens created above := by
  apply opens_parent opened.vacant opened.exposes.above _ nonempty
  intro between lower upper
  by_cases same : between = above ++ [name]
  · rw [same]
    exact vacant
  · exact opened.exposes.gap between lower upper same

theorem IsTree.withDirectories
    {store : FileStore}
    (tree : store.IsTree)
    {created : Place}
    (plain : ∀ segment ∈ created, IsPlain segment) :
    (store.withDirectories created).IsTree where
  above := by
    intro place name found
    by_cases root : place = []
    · rw [root]
      exact hasDirectory_root _
    · rw [HasDirectory, node?_withDirectories]
      by_cases opened : store.Opens created place
      · rw [if_pos opened]
        exact ⟨_, rfl, isDirectory_asDirectory _⟩
      · rw [if_neg opened]
        apply tree.above place name
        intro vacant
        rw [node?_withDirectories] at found
        split at found
        · rename_i openedBelow
          exact opened (openedBelow.parent vacant root)
        · exact found vacant
  nodup := (tree.listsPlainly.withDirectories plain).nodup
  plain := (tree.listsPlainly.withDirectories plain).plain
  origin := by
    rw [workingDirectory_withDirectories]
    exact tree.origin

theorem IsTree.withContent
    {store : FileStore}
    (tree : store.IsTree)
    {created : Place}
    (nonempty : created ≠ [])
    (plain : ∀ segment ∈ created, IsPlain segment)
    (notDirectory : ¬ store.HasDirectory created)
    (content : Text) :
    (store.withContent created content).IsTree where
  above := by
    intro place name found
    by_cases root : place = []
    · rw [root]
      exact hasDirectory_root _
    · rw [HasDirectory, node?_withContent _ nonempty]
      have openedBelow (vacant : store.node? (place ++ [name]) = none) :
          store.Opens created place := by
        rw [node?_withContent _ nonempty] at found
        split at found
        · rename_i here
          subst here
          refine opens_parent vacant (List.prefix_refl _) ?_ root
          intro between lower upper
          rw [upper.eq_of_length (Nat.le_antisymm upper.length_le lower.length_le)]
          exact vacant
        · split at found
          · rename_i opened
            exact opened.parent vacant root
          · exact (found vacant).elim
      by_cases here : place = created
      · -- Nothing is below the file: it was no directory, and it is not on the way to itself.
        exfalso
        cases present : store.node? (place ++ [name]) with
        | some node =>
            exact notDirectory (here ▸ tree.above place name (by simp [present]))
        | none =>
            rw [node?_withContent _ nonempty, if_neg] at found
            · split at found
              · rename_i opened
                rw [← here] at opened
                exact not_prefix_of_concat place name opened.exposes.above
              · exact found present
            · rw [← here]
              simp
      · rw [if_neg here]
        by_cases opened : store.Opens created place
        · rw [if_pos opened]
          exact ⟨_, rfl, isDirectory_asDirectory _⟩
        · rw [if_neg opened]
          exact tree.above place name fun vacant => opened (openedBelow vacant)
  nodup := (tree.listsPlainly.withContent plain content).nodup
  plain := (tree.listsPlainly.withContent plain content).plain
  origin := by
    rw [workingDirectory_withContent]
    exact tree.origin

end UnoBindgen.FileStore
