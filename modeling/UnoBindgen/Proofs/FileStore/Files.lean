import Mathlib
import UnoBindgen.Proofs.FileStore.Tree

/-!
# The files of a store

The files of a store are its contents by place.  Removing, renaming and writing change them at the
places they name and nowhere else, and the only directories that come into being are above a file
that is written.  `IsChanged` says so of any number of such changes, and `IsEdited` besides that they
leave a tree.
-/

namespace UnoBindgen.FileStore

open Text
open Text.SlashPath

/-- The content of the file at a place, if there is one. -/
def fileAt? (store : FileStore) (place : Place) : Option Text :=
  match store.node? place with
  | some node => if node.isDirectory then none else some node.content
  | none => none

theorem fileAt?_eq_some_iff
    (store : FileStore)
    (place : Place)
    (content : Text) :
    store.fileAt? place = some content ↔ store.node? place = some (.file content) := by
  rw [fileAt?]
  cases store.node? place with
  | none => simp
  | some node =>
      obtain ⟨inside, isDirectory⟩ := node
      cases isDirectory <;> simp [FileNode.file]

theorem fileAt?_eq_none_iff
    (store : FileStore)
    (place : Place) :
    store.fileAt? place = none ↔ ¬ store.HasFile place := by
  rw [fileAt?, HasFile]
  cases store.node? place with
  | none => simp
  | some node => simp

/-- What is at a place that has no directory is its file. -/
theorem node?_of_not_hasDirectory
    {store : FileStore}
    {place : Place}
    (noDirectory : ¬ store.HasDirectory place) :
    store.node? place = (store.fileAt? place).map .file := by
  rw [fileAt?]
  cases found : store.node? place with
  | none => rfl
  | some node =>
      obtain ⟨inside, isDirectory⟩ := node
      have standing : isDirectory = false := isDirectory_of_not_hasDirectory noDirectory found
      subst standing
      rfl

theorem ne_nil_of_not_hasDirectory
    {store : FileStore}
    {place : Place}
    (noDirectory : ¬ store.HasDirectory place) :
    place ≠ [] := by
  rintro rfl
  exact noDirectory (hasDirectory_root store)

/-! ## Taking away -/

theorem node?_erase
    (store : FileStore)
    {place : Place}
    (nonempty : place ≠ [])
    (other : Place) :
    (store.erase place).node? other = if other = place then none else store.node? other := by
  by_cases root : other = []
  · subst root
    rw [if_neg (Ne.symm nonempty), node?_root, node?_root]
  · rw [node?_of_ne_nil _ root, node?_of_ne_nil _ root, erase]
    induction store.nodes with
    | nil => simp
    | cons entry rest induction =>
        obtain ⟨key, node⟩ := entry
        by_cases here : key = place
        · subst here
          rw [List.filter_cons_of_neg (by simp), induction]
          by_cases same : other = key
          · simp [same]
          · have differs : (other == key) = false := by simpa using same
            rw [if_neg same, if_neg same, List.lookup_cons, differs]
        · rw [List.filter_cons_of_pos (by simpa using here), List.lookup_cons, List.lookup_cons,
            induction]
          by_cases same : other = key
          · subst same
            simp [here]
          · have differs : (other == key) = false := by simpa using same
            rw [differs]

/-! ## Changes -/

/-- A store after some changes: these are its files, and the directories it did not have before are
at or above a place. -/
structure IsChanged
    (store : FileStore)
    (above : Place)
    (files : Place → Option Text)
    (after : FileStore) : Prop where
  manner : after.manner = store.manner
  workingDirectory : after.workingDirectory = store.workingDirectory
  refusal : after.refusal = store.refusal
  remnant : after.remnant = store.remnant
  files : after.fileAt? = files
  keeps : ∀ place, store.HasDirectory place → after.HasDirectory place
  opens : ∀ place, after.HasDirectory place → store.HasDirectory place ∨ place <+: above

namespace IsChanged

theorem refl
    (store : FileStore)
    (above : Place) :
    store.IsChanged above store.fileAt? store where
  manner := rfl
  workingDirectory := rfl
  refusal := rfl
  remnant := rfl
  files := rfl
  keeps _ directory := directory
  opens _ directory := Or.inl directory

theorem trans
    {store middle after : FileStore}
    {above : Place}
    {files last : Place → Option Text}
    (first : store.IsChanged above files middle)
    (second : middle.IsChanged above last after) :
    store.IsChanged above last after where
  manner := second.manner.trans first.manner
  workingDirectory := second.workingDirectory.trans first.workingDirectory
  refusal := second.refusal.trans first.refusal
  remnant := second.remnant.trans first.remnant
  files := second.files
  keeps place directory := second.keeps place (first.keeps place directory)
  opens place directory :=
    (second.opens place directory).elim (first.opens place) Or.inr

end IsChanged

/-- A store after some changes that left it a tree. -/
structure IsEdited
    (store : FileStore)
    (above : Place)
    (files : Place → Option Text)
    (after : FileStore) : Prop extends store.IsChanged above files after where
  tree : after.IsTree

namespace IsEdited

theorem refl
    {store : FileStore}
    (tree : store.IsTree)
    (above : Place) :
    store.IsEdited above store.fileAt? store :=
  ⟨.refl store above, tree⟩

theorem trans
    {store middle after : FileStore}
    {above : Place}
    {files last : Place → Option Text}
    (first : store.IsEdited above files middle)
    (second : middle.IsEdited above last after) :
    store.IsEdited above last after :=
  ⟨first.toIsChanged.trans second.toIsChanged, second.tree⟩

theorem place
    {store after : FileStore}
    {above : Place}
    {files : Place → Option Text}
    (edited : store.IsEdited above files after)
    (path : Text) :
    after.place path = store.place path := by
  rw [FileStore.place, FileStore.place, edited.workingDirectory]

theorem reaches
    {store after : FileStore}
    {above : Place}
    {files : Place → Option Text}
    (edited : store.IsEdited above files after)
    {path : Text}
    (reached : store.Reaches path) :
    after.Reaches path :=
  reached.mono edited.manner edited.workingDirectory fun _ _ _ => edited.keeps _

end IsEdited

/-- Changes of the node at one place, which is a file or nothing before and after. -/
theorem isChanged_of_node?
    {store after : FileStore}
    (manner : after.manner = store.manner)
    (workingDirectory : after.workingDirectory = store.workingDirectory)
    (refusal : after.refusal = store.refusal)
    (remnant : after.remnant = store.remnant)
    {place : Place}
    (noDirectory : ¬ store.HasDirectory place)
    (content? : Option Text)
    (nodes :
      ∀ other, after.node? other =
        if other = place then content?.map .file else store.node? other)
    (above : Place) :
    store.IsChanged above (Function.update store.fileAt? place content?) after where
  manner := manner
  workingDirectory := workingDirectory
  refusal := refusal
  remnant := remnant
  files := by
    funext other
    rw [fileAt?, nodes]
    by_cases here : other = place
    · subst here
      rw [if_pos rfl, Function.update_self]
      cases content? <;> rfl
    · rw [if_neg here, Function.update_of_ne here, fileAt?]
  keeps other := by
    rintro ⟨node, found, isDirectory⟩
    have elsewhere : other ≠ place := by
      rintro rfl
      exact noDirectory ⟨node, found, isDirectory⟩
    exact ⟨node, by rw [nodes, if_neg elsewhere, found], isDirectory⟩
  opens other := by
    rintro ⟨node, found, isDirectory⟩
    rw [nodes] at found
    split at found
    · obtain ⟨content, -, rfl⟩ := Option.map_eq_some_iff.1 found
      exact absurd isDirectory (by simp [FileNode.file])
    · exact Or.inl ⟨node, found, isDirectory⟩

theorem IsTree.erase
    {store : FileStore}
    (tree : store.IsTree)
    {place : Place}
    (noDirectory : ¬ store.HasDirectory place) :
    (store.erase place).IsTree where
  above := by
    intro other name found
    have nonempty := ne_nil_of_not_hasDirectory noDirectory
    rw [node?_erase _ nonempty] at found
    have present : store.node? (other ++ [name]) ≠ none := by
      split at found
      · exact absurd rfl found
      · exact found
    obtain ⟨node, there, isDirectory⟩ := tree.above other name present
    have elsewhere : other ≠ place := by
      rintro rfl
      exact noDirectory ⟨node, there, isDirectory⟩
    exact ⟨node, by rw [node?_erase _ nonempty, if_neg elsewhere, there], isDirectory⟩
  nodup := tree.nodup.sublist (List.filter_sublist.map _)
  plain other listed := tree.plain other ((List.filter_sublist.map _).subset listed)
  origin := tree.origin

theorem hasDirectory_erase_iff
    {store : FileStore}
    {place : Place}
    (noDirectory : ¬ store.HasDirectory place)
    (other : Place) :
    (store.erase place).HasDirectory other ↔ store.HasDirectory other := by
  rw [HasDirectory, HasDirectory, node?_erase _ (ne_nil_of_not_hasDirectory noDirectory)]
  by_cases here : other = place
  · subst here
    rw [if_pos rfl]
    constructor
    · rintro ⟨node, found, -⟩
      exact absurd found (by simp)
    · exact fun directory => absurd directory noDirectory
  · rw [if_neg here]

theorem isEdited_erase
    {store : FileStore}
    (tree : store.IsTree)
    {place : Place}
    (noDirectory : ¬ store.HasDirectory place)
    (above : Place) :
    store.IsEdited above (Function.update store.fileAt? place none) (store.erase place) where
  toIsChanged := by
    refine isChanged_of_node? ?_ ?_ ?_ ?_ noDirectory none ?_ above
    · rfl
    · rfl
    · rfl
    · rfl
    · exact node?_erase store (ne_nil_of_not_hasDirectory noDirectory)
  tree := tree.erase noDirectory

/-! ## Placing -/

theorem IsTree.put
    {store : FileStore}
    (tree : store.IsTree)
    {place : Place}
    (plain : ∀ segment ∈ place, IsPlain segment)
    (noDirectory : ¬ store.HasDirectory place)
    (parent : store.HasDirectory place.dropLast)
    (content : Text) :
    (store.put place (.file content)).IsTree where
  above := by
    intro other name found
    have nonempty := ne_nil_of_not_hasDirectory noDirectory
    rw [node?_put _ nonempty] at found
    have directory : store.HasDirectory other := by
      split at found
      · rename_i here
        rw [← here, List.dropLast_concat] at parent
        exact parent
      · exact tree.above other name found
    obtain ⟨node, there, isDirectory⟩ := directory
    have elsewhere : other ≠ place := by
      rintro rfl
      exact noDirectory ⟨node, there, isDirectory⟩
    exact ⟨node, by rw [node?_put _ nonempty, if_neg elsewhere, there], isDirectory⟩
  nodup := (tree.listsPlainly.put plain _).nodup
  plain := (tree.listsPlainly.put plain _).plain
  origin := by
    rw [workingDirectory_put]
    exact tree.origin

theorem isEdited_put
    {store : FileStore}
    (tree : store.IsTree)
    {place : Place}
    (plain : ∀ segment ∈ place, IsPlain segment)
    (noDirectory : ¬ store.HasDirectory place)
    (parent : store.HasDirectory place.dropLast)
    (content : Text)
    (above : Place) :
    store.IsEdited above (Function.update store.fileAt? place (some content))
      (store.put place (.file content)) where
  toIsChanged :=
    isChanged_of_node? (manner_put ..) (workingDirectory_put ..) (refusal_put ..)
      (remnant_put ..) noDirectory (some content)
      (node?_put store (ne_nil_of_not_hasDirectory noDirectory) _) above
  tree := tree.put plain noDirectory parent content

/-- Renaming a file moves its content. -/
theorem isEdited_rename
    {store : FileStore}
    (tree : store.IsTree)
    {source target : Place}
    (plain : ∀ segment ∈ target, IsPlain segment)
    (noSource : ¬ store.HasDirectory source)
    (noTarget : ¬ store.HasDirectory target)
    (parent : store.HasDirectory target.dropLast)
    (content : Text)
    (above : Place) :
    store.IsEdited above
      (Function.update (Function.update store.fileAt? source none) target (some content))
      ((store.erase source).put target (.file content)) := by
  have erased := isEdited_erase tree noSource above
  rw [← erased.files]
  refine erased.trans (isEdited_put erased.tree plain ?_ ?_ content above)
  · rwa [hasDirectory_erase_iff noSource]
  · rwa [hasDirectory_erase_iff noSource]

/-! ## Writing -/

/-- Making directories takes none away. -/
theorem hasDirectory_withDirectories
    {store : FileStore}
    {place : Place}
    (directory : store.HasDirectory place)
    (created : Place) :
    (store.withDirectories created).HasDirectory place := by
  rw [HasDirectory, node?_withDirectories]
  split
  · exact ⟨_, rfl, isDirectory_asDirectory _⟩
  · exact directory

/-- A directory that is made is there. -/
theorem hasDirectory_made
    {store : FileStore}
    {created : Place}
    (noFile : ¬ store.HasFile created) :
    (store.withDirectories created).HasDirectory created := by
  cases found : store.node? created with
  | some node =>
      exact hasDirectory_withDirectories
        ⟨node, found, isDirectory_of_not_hasFile noFile found⟩ created
  | none =>
      have nonempty : created ≠ [] := by
        rintro rfl
        exact absurd found (by simp)
      have opened : store.Opens created created := ⟨found, Exposes.refl store nonempty⟩
      rw [HasDirectory, node?_withDirectories, if_pos opened]
      exact ⟨_, rfl, isDirectory_asDirectory _⟩

/-- Making a directory changes nothing but what is at it and above it. -/
theorem node?_withDirectories_of_outside
    {store : FileStore}
    {created place : Place}
    (outside : ¬ place <+: created) :
    (store.withDirectories created).node? place = store.node? place := by
  rw [node?_withDirectories, if_neg fun opened => outside opened.exposes.above]

/-- Making directories where no file is in the way leaves everything that is there. -/
theorem node?_withDirectories_of_present
    {store : FileStore}
    {created : Place}
    (clear : ∀ above, above <+: created → ¬ store.HasFile above)
    {place : Place}
    {node : FileNode}
    (present : store.node? place = some node) :
    (store.withDirectories created).node? place = some node := by
  rw [node?_withDirectories]
  split
  · rename_i opened
    have standing := isDirectory_of_not_hasFile (clear place opened.exposes.above) present
    rw [present, asDirectory, ← standing]
  · exact present

/-- Making directories changes no file, if none is in the way. -/
theorem isChanged_withDirectories
    {store : FileStore}
    {created : Place}
    (clear : ∀ above, above <+: created → ¬ store.HasFile above) :
    store.IsChanged created store.fileAt? (store.withDirectories created) where
  manner := manner_withDirectories store created
  workingDirectory := workingDirectory_withDirectories store created
  refusal := refusal_withDirectories store created
  remnant := remnant_withDirectories store created
  files := by
    funext place
    by_cases opened : store.Opens created place
    · rw [(fileAt?_eq_none_iff _ _).2 (clear place opened.exposes.above), fileAt?,
        node?_withDirectories, if_pos opened]
      simp
    · rw [fileAt?, node?_withDirectories, if_neg opened, fileAt?]
  keeps _ directory := hasDirectory_withDirectories directory created
  opens place := by
    rintro ⟨node, found, isDirectory⟩
    rw [node?_withDirectories] at found
    split at found
    · rename_i opened
      exact Or.inr opened.exposes.above
    · exact Or.inl ⟨node, found, isDirectory⟩

/-- When directories cannot be made, some of those that are needed may be there after all, and no
file has changed. -/
theorem isChanged_of_makeDirectories
    {store after : FileStore}
    (situated : store.manner = .disk → ∀ above, above <+: store.place [] → store.HasDirectory above)
    {path : Text}
    {fault : Fault}
    (failed : store.makeDirectories path = (after, some fault)) :
    store.IsChanged (store.place path) store.fileAt? after := by
  simp only [makeDirectories] at failed
  split at failed
  · rename_i ancestor reason stopped
    obtain ⟨onDisk, member, stops, part, inside, named, earlier⟩ :=
      exists_part_of_firstStop? stopped
    have located : store.place ancestor = store.passed path part := by
      rw [named, place_ofSegments_of_above store inside]
    -- A directory would not have stopped it, so the first stop is no place above the start.
    have upper : store.place ancestor <+: store.place path := by
      refine (place_ancestor store member).resolve_right fun above => ?_
      obtain ⟨node, found, standing⟩ := situated onDisk _ above
      rw [stop?, found] at stops
      simp [standing] at stops
    have clear (above : Place) (shorter : above <+: (store.place ancestor).dropLast) :
        ¬ store.HasFile above := by
      intro isFile
      have whole := shorter.trans (List.dropLast_prefix _)
      rw [located] at whole
      rcases store.exists_passed_of_above path
          (fun _ listed => (solid_of_mem_segments path (inside.subset listed)).2) whole with
        atStart | ⟨first, firstInside, rfl⟩
      · exact isFile.not_hasDirectory
          (situated onDisk _ (atStart.trans (store.passed_nil_above path)))
      · by_cases empty : first = []
        · rw [empty] at isFile
          exact isFile.not_hasDirectory (situated onDisk _ (store.passed_nil_above path))
        · refine earlier first empty firstInside ?_ isFile
          rintro rfl
          rw [located] at shorter
          have lengths := shorter.length_le
          rw [List.length_dropLast] at lengths
          have nonempty := List.length_pos_iff.2 isFile.ne_nil
          omega
    obtain ⟨rfl, -⟩ := Prod.mk.inj failed
    have changed := isChanged_withDirectories clear
    exact { changed with
      opens := fun place directory =>
        (changed.opens place directory).imp_right fun above =>
          above.trans ((List.dropLast_prefix _).trans upper) }
  · obtain ⟨rfl, -⟩ := Prod.mk.inj failed
    exact .refl _ _
  · exact absurd failed (by simp)

theorem isEdited_withDirectories
    {store : FileStore}
    (tree : store.IsTree)
    {created : Place}
    (plain : ∀ segment ∈ created, IsPlain segment)
    (clear : ∀ above, above <+: created → ¬ store.HasFile above) :
    store.IsEdited created store.fileAt? (store.withDirectories created) :=
  ⟨isChanged_withDirectories clear, tree.withDirectories plain⟩

/-- Writing a file changes that file alone, if no file is in the way. -/
theorem isChanged_withContent
    {store : FileStore}
    {above : Place}
    {name : Text}
    (noDirectory : ¬ store.HasDirectory (above ++ [name]))
    (clear : ∀ place, place <+: above → ¬ store.HasFile place)
    (content : Text) :
    store.IsChanged above (Function.update store.fileAt? (above ++ [name]) (some content))
      (store.withContent (above ++ [name]) content) := by
  have nonempty : above ++ [name] ≠ [] := by simp
  have upper {place : Place} (elsewhere : place ≠ above ++ [name])
      (opened : store.Opens (above ++ [name]) place) : place <+: above := by
    rcases List.prefix_concat_iff.1 opened.exposes.above with here | shorter
    · exact absurd here elsewhere
    · exact shorter
  refine
    { manner := manner_withContent store _ content
      workingDirectory := workingDirectory_withContent store _ content
      refusal := refusal_withContent store _ content
      remnant := remnant_withContent store _ content
      files := ?_
      keeps := ?_
      opens := ?_ }
  · funext place
    rw [fileAt?, node?_withContent _ nonempty]
    by_cases here : place = above ++ [name]
    · subst here
      rw [if_pos rfl, Function.update_self, standing_of_not_hasDirectory noDirectory]
      rfl
    · rw [if_neg here, Function.update_of_ne here]
      by_cases opened : store.Opens (above ++ [name]) place
      · rw [if_pos opened, (fileAt?_eq_none_iff _ _).2 (clear place (upper here opened))]
        simp
      · rw [if_neg opened, fileAt?]
  · rintro place ⟨node, found, isDirectory⟩
    have elsewhere : place ≠ above ++ [name] := by
      rintro rfl
      exact noDirectory ⟨node, found, isDirectory⟩
    rw [HasDirectory, node?_withContent _ nonempty, if_neg elsewhere]
    split
    · exact ⟨_, rfl, isDirectory_asDirectory _⟩
    · exact ⟨node, found, isDirectory⟩
  · rintro place ⟨node, found, isDirectory⟩
    rw [node?_withContent _ nonempty] at found
    split at found
    · rw [standing_of_not_hasDirectory noDirectory, Option.some.injEq] at found
      exact absurd isDirectory (by rw [← found]; simp)
    · rename_i elsewhere
      split at found
      · rename_i opened
        exact Or.inr (upper elsewhere opened)
      · exact Or.inl ⟨node, found, isDirectory⟩

theorem isEdited_withContent
    {store : FileStore}
    (tree : store.IsTree)
    {above : Place}
    {name : Text}
    (plain : ∀ segment ∈ above ++ [name], IsPlain segment)
    (noDirectory : ¬ store.HasDirectory (above ++ [name]))
    (clear : ∀ place, place <+: above → ¬ store.HasFile place)
    (content : Text) :
    store.IsEdited above (Function.update store.fileAt? (above ++ [name]) (some content))
      (store.withContent (above ++ [name]) content) :=
  ⟨isChanged_withContent noDirectory clear content,
    tree.withContent (by simp) plain noDirectory content⟩

/-! ## Paths that end in a name -/

theorem eq_append_lastPart (path : Text) :
    ∃ front, path = front ++ lastPart path ∧ directory path = clean front ∧
      (front = [] ∨ ∃ before, front = before ++ ['/']) := by
  refine ⟨(path.reverse.dropWhile (· != '/')).reverse, ?_, rfl, ?_⟩
  · rw [lastPart, ← List.reverse_append, List.takeWhile_append_dropWhile, List.reverse_reverse]
  · cases kept : path.reverse.dropWhile (· != '/') with
    | nil => exact Or.inl rfl
    | cons first rest =>
        have stopped := List.head?_dropWhile_not (· != '/') path.reverse
        rw [kept] at stopped
        have slash : first = '/' := by simpa using stopped
        exact Or.inr ⟨rest.reverse, by rw [slash, List.reverse_cons]⟩

/-- A name behind a directory is at the place of the directory. -/
theorem place_append_of_isPlain
    (store : FileStore)
    {front : Text}
    (ends : front = [] ∨ ∃ before, front = before ++ ['/'])
    {name : Text}
    (plain : IsPlain name) :
    store.place (front ++ name) = store.place front ++ [name] := by
  have alone : ∀ segment ∈ [name], IsPlain segment := by
    intro segment member
    rw [List.mem_singleton.1 member]
    exact plain
  rcases ends with rfl | ⟨before, rfl⟩
  · have relative : isRooted name = false := isRooted_join_eq_false plain.nonempty plain.noSlash []
    rw [List.nil_append, place_nil, place_eq, relative, start_false,
      Text.splitAt_of_not_mem plain.noSlash, resolveSegments_append_of_isPlain true _ alone]
  · have rooted : isRooted (before ++ '/' :: name) = isRooted (before ++ ['/']) := by
      cases before <;> simp [isRooted_cons]
    rw [List.append_assoc, List.singleton_append, place_eq, place_eq, rooted, Text.splitAt_append,
      Text.splitAt_append, Text.splitAt_of_not_mem plain.noSlash, ← List.append_assoc,
      resolveSegments_append_of_isPlain true _ alone, ← List.append_assoc]
    congr 1
    exact (resolveSegments_append_idle true _ (Or.inl rfl)).symm

/-- Whether a name behind a directory can be reached does not depend on the name. -/
theorem reaches_append_iff
    (store : FileStore)
    {front : Text}
    (ends : front = [] ∨ ∃ before, front = before ++ ['/'])
    {name : Text}
    (plain : IsPlain name) :
    store.Reaches (front ++ name) ↔
      (store.manner = .disk →
        ∀ part, part <+: (front.splitAt '/').dropLast →
          store.HasDirectory (store.passed front part)) := by
  obtain ⟨sameFront, sameRoot⟩ :
      (front ++ name).splitAt '/' = (front.splitAt '/').dropLast ++ [name] ∧
        isRooted (front ++ name) = isRooted front := by
    rcases ends with rfl | ⟨before, rfl⟩
    · rw [List.nil_append, Text.splitAt_of_not_mem plain.noSlash]
      exact ⟨rfl, isRooted_join_eq_false plain.nonempty plain.noSlash []⟩
    · constructor
      · rw [List.append_assoc, List.singleton_append, Text.splitAt_append, Text.splitAt_append,
          Text.splitAt_of_not_mem plain.noSlash, Text.splitAt_of_not_mem List.not_mem_nil,
          List.dropLast_concat]
      · cases before <;> simp [isRooted_cons]
  have nonempty : front ++ name ≠ [] := by simp [plain.nonempty]
  have samePassed (part : List Text) :
      store.passed (front ++ name) part = store.passed front part := by
    rw [passed, passed, sameRoot]
  rw [Reaches]
  refine imp_congr_right fun _ => ?_
  rw [and_iff_right nonempty, sameFront]
  simp only [samePassed]
  constructor
  · intro clear part shorter
    refine clear part (shorter.trans (List.prefix_append _ _)) ?_
    rintro rfl
    exact not_prefix_of_concat _ name shorter
  · intro clear part shorter differs
    exact clear part ((List.prefix_concat_iff.1 shorter).resolve_left differs)

end UnoBindgen.FileStore
