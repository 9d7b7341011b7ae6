import Mathlib
import UnoBindgen.FileStore

/-!
# What changes do to the nodes of a store

A store is seen through `node?`.  Making a directory and writing a file both create something at
one place, and whatever is missing above that place comes into being on the way up, until the first
node that is already there.  `Opens` names the places that this touches, in terms of the store
before the change alone, and the equations for `withDirectories` and `withContent` are stated with
it.
-/

namespace UnoBindgen.FileStore

/-! ## Single nodes -/

/-- Two stores that answer every question alike. -/
structure Agrees (left right : FileStore) : Prop where
  manner : left.manner = right.manner
  workingDirectory : left.workingDirectory = right.workingDirectory
  refusal : left.refusal = right.refusal
  remnant : left.remnant = right.remnant
  nodes : ∀ place, left.node? place = right.node? place

/-- A directory is at a place. -/
def HasDirectory (store : FileStore) (place : Place) : Prop :=
  ∃ node, store.node? place = some node ∧ node.isDirectory = true

/-- A file is at a place. -/
def HasFile (store : FileStore) (place : Place) : Prop :=
  ∃ node, store.node? place = some node ∧ node.isDirectory = false

instance (store : FileStore) (place : Place) : Decidable (store.HasDirectory place) :=
  decidable_of_iff ((store.node? place).any fun node => node.isDirectory)
    (by rw [HasDirectory]; cases store.node? place <;> simp)

instance (store : FileStore) (place : Place) : Decidable (store.HasFile place) :=
  decidable_of_iff ((store.node? place).any fun node => !node.isDirectory)
    (by rw [HasFile]; cases store.node? place <;> simp)

@[simp]
theorem node?_root (store : FileStore) :
    store.node? [] = some .directory := rfl

theorem hasDirectory_root (store : FileStore) :
    store.HasDirectory [] :=
  ⟨.directory, rfl, rfl⟩

theorem node?_of_ne_nil
    (store : FileStore)
    {place : Place}
    (nonempty : place ≠ []) :
    store.node? place = store.nodes.lookup place := by
  cases place with
  | nil => exact (nonempty rfl).elim
  | cons name rest => rfl

theorem HasFile.ne_nil
    {store : FileStore}
    {place : Place}
    (file : store.HasFile place) :
    place ≠ [] := by
  rintro rfl
  obtain ⟨node, found, standing⟩ := file
  rw [node?_root] at found
  rw [← Option.some.inj found] at standing
  exact Bool.noConfusion standing

theorem HasFile.not_hasDirectory
    {store : FileStore}
    {place : Place}
    (file : store.HasFile place) :
    ¬ store.HasDirectory place := by
  rintro ⟨node, found, directory⟩
  obtain ⟨other, otherFound, notDirectory⟩ := file
  rw [found] at otherFound
  rw [Option.some.inj otherFound, notDirectory] at directory
  exact Bool.noConfusion directory

theorem not_hasDirectory_of_vacant
    {store : FileStore}
    {place : Place}
    (vacant : store.node? place = none) :
    ¬ store.HasDirectory place := by
  rintro ⟨node, found, -⟩
  rw [vacant] at found
  exact absurd found (by simp)

theorem isDirectory_of_not_hasFile
    {store : FileStore}
    {place : Place}
    (noFile : ¬ store.HasFile place)
    {node : FileNode}
    (found : store.node? place = some node) :
    node.isDirectory = true := by
  by_contra isFile
  exact noFile ⟨node, found, by simpa using isFile⟩

theorem isDirectory_of_not_hasDirectory
    {store : FileStore}
    {place : Place}
    (noDirectory : ¬ store.HasDirectory place)
    {node : FileNode}
    (found : store.node? place = some node) :
    node.isDirectory = false := by
  by_contra isDirectory
  exact noDirectory ⟨node, found, by simpa using isDirectory⟩

@[simp]
theorem manner_put (store : FileStore) (place : Place) (node : FileNode) :
    (store.put place node).manner = store.manner := by
  rw [put]
  split <;> rfl

@[simp]
theorem workingDirectory_put (store : FileStore) (place : Place) (node : FileNode) :
    (store.put place node).workingDirectory = store.workingDirectory := by
  rw [put]
  split <;> rfl

@[simp]
theorem refusal_put (store : FileStore) (place : Place) (node : FileNode) :
    (store.put place node).refusal = store.refusal := by
  rw [put]
  split <;> rfl

@[simp]
theorem remnant_put (store : FileStore) (place : Place) (node : FileNode) :
    (store.put place node).remnant = store.remnant := by
  rw [put]
  split <;> rfl

theorem lookup_map_replace
    (nodes : List (Place × FileNode))
    (place : Place)
    (node : FileNode)
    (other : Place) :
    (nodes.map fun entry => if entry.1 == place then (place, node) else entry).lookup other =
      if other = place then (nodes.lookup place).map fun _ => node else nodes.lookup other := by
  induction nodes with
  | nil => simp
  | cons entry rest induction =>
      obtain ⟨key, value⟩ := entry
      rw [List.map_cons]
      by_cases here : key = place
      · subst here
        by_cases same : other = key
        · simp [same]
        · have differs : (other == key) = false := by simpa using same
          rw [if_neg same] at induction
          simp only [beq_self_eq_true, if_true, List.lookup_cons, differs, if_neg same]
          exact induction
      · have elsewhere : (key == place) = false := by simpa using here
        have fromPlace : (place == key) = false := by simpa using Ne.symm here
        simp only [elsewhere, Bool.false_eq_true, if_false, List.lookup_cons, fromPlace]
        cases found : other == key with
        | false => exact induction
        | true =>
            have same : other = key := by simpa using found
            simp [same, here]

/-- Putting a node at a place changes what is at that place and nothing else. -/
theorem node?_put
    (store : FileStore)
    {place : Place}
    (nonempty : place ≠ [])
    (node : FileNode)
    (other : Place) :
    (store.put place node).node? other =
      if other = place then some node else store.node? other := by
  by_cases root : other = []
  · subst root
    rw [if_neg (Ne.symm nonempty)]
    rfl
  · rw [node?_of_ne_nil _ root, node?_of_ne_nil _ root, put]
    cases found : store.nodes.lookup place with
    | some existing =>
        simp only [Option.isSome_some, if_true, lookup_map_replace, found, Option.map_some]
    | none =>
        simp only [Option.isSome_none, Bool.false_eq_true, if_false, List.lookup_append]
        by_cases same : other = place
        · simp [same, found]
        · have differs : (other == place) = false := by simpa using same
          simp [same, List.lookup_cons, differs]

/-! ## Places that come into being -/

/-- The node at a place once it has to be a directory. -/
def asDirectory : Option FileNode → FileNode
  | some node => { node with isDirectory := true }
  | none => .directory

/-- Whether something at a place is a directory, when the place keeps its standing. -/
def standing : Option FileNode → Bool
  | some node => node.isDirectory
  | none => false

theorem standing_of_not_hasDirectory
    {store : FileStore}
    {place : Place}
    (noDirectory : ¬ store.HasDirectory place) :
    standing (store.node? place) = false := by
  cases found : store.node? place with
  | none => rfl
  | some node => exact isDirectory_of_not_hasDirectory noDirectory found

@[simp]
theorem isDirectory_asDirectory (node? : Option FileNode) :
    (asDirectory node?).isDirectory = true := by
  cases node? <;> rfl

@[simp]
theorem asDirectory_asDirectory (node? : Option FileNode) :
    asDirectory (some (asDirectory node?)) = asDirectory node? := by
  cases node? <;> rfl

/-- The places that have to be directories for something to be at `below`, as far as one has to
look: from `below` upwards to the first node that is there. -/
structure Exposes (store : FileStore) (below place : Place) : Prop where
  nonempty : place ≠ []
  above : place <+: below
  gap :
    ∀ between, place <+: between → between <+: below → between ≠ place →
      store.node? between = none

/-- The places that are touched when something is created at a place where nothing is. -/
structure Opens (store : FileStore) (created place : Place) : Prop where
  vacant : store.node? created = none
  exposes : store.Exposes created place

theorem not_opens_of_node?
    {store : FileStore}
    {created place : Place}
    {node : FileNode}
    (found : store.node? created = some node) :
    ¬ store.Opens created place := by
  intro opened
  rw [opened.vacant] at found
  exact absurd found (by simp)

theorem not_prefix_of_concat
    (place : Place)
    (name : Text) :
    ¬ place ++ [name] <+: place := by
  intro longer
  have bound := longer.length_le
  simp at bound

theorem Exposes.refl
    (store : FileStore)
    {place : Place}
    (nonempty : place ≠ []) :
    store.Exposes place place where
  nonempty := nonempty
  above := List.prefix_refl place
  gap _ lower upper differs :=
    (differs (upper.eq_of_length (Nat.le_antisymm upper.length_le lower.length_le))).elim

theorem exposes_concat_iff
    (store : FileStore)
    {above : Place}
    {name : Text}
    (vacant : store.node? (above ++ [name]) = none)
    {place : Place}
    (elsewhere : place ≠ above ++ [name]) :
    store.Exposes (above ++ [name]) place ↔ store.Exposes above place := by
  constructor
  · intro exposed
    refine ⟨exposed.nonempty, ?_, fun between below upper differs => ?_⟩
    · rcases List.prefix_concat_iff.1 exposed.above with same | shorter
      · exact (elsewhere same).elim
      · exact shorter
    · exact exposed.gap between below (upper.trans (List.prefix_append above [name])) differs
  · intro exposed
    refine ⟨exposed.nonempty, exposed.above.trans (List.prefix_append above [name]),
      fun between below upper differs => ?_⟩
    rcases List.prefix_concat_iff.1 upper with rfl | shorter
    · exact vacant
    · exact exposed.gap between below shorter differs

theorem Exposes.congr
    {store other : FileStore}
    {below place : Place}
    (same : ∀ between, between <+: below → other.node? between = store.node? between) :
    other.Exposes below place ↔ store.Exposes below place := by
  constructor
  · intro exposed
    refine ⟨exposed.nonempty, exposed.above, fun between lower upper differs => ?_⟩
    rw [← same between upper]
    exact exposed.gap between lower upper differs
  · intro exposed
    refine ⟨exposed.nonempty, exposed.above, fun between lower upper differs => ?_⟩
    rw [same between upper]
    exact exposed.gap between lower upper differs

@[simp]
theorem manner_adopt (names : Place) (store : FileStore) :
    (adopt names store).manner = store.manner := by
  fun_induction adopt names store <;> simp_all

@[simp]
theorem workingDirectory_adopt (names : Place) (store : FileStore) :
    (adopt names store).workingDirectory = store.workingDirectory := by
  fun_induction adopt names store <;> simp_all

@[simp]
theorem refusal_adopt (names : Place) (store : FileStore) :
    (adopt names store).refusal = store.refusal := by
  fun_induction adopt names store <;> simp_all

@[simp]
theorem remnant_adopt (names : Place) (store : FileStore) :
    (adopt names store).remnant = store.remnant := by
  fun_induction adopt names store <;> simp_all

open Classical in
/-- Adopting a place makes directories of the exposed places, and of no others. -/
theorem node?_adopt
    (names : Place)
    (store : FileStore)
    (place : Place) :
    (adopt names store).node? place =
      if store.Exposes names.reverse place then some (asDirectory (store.node? place))
      else store.node? place := by
  -- The induction goes up from the innermost name; the store changes on the way.
  induction names generalizing store with
  | nil =>
      have notExposed : ¬ store.Exposes [] place :=
        fun exposed => exposed.nonempty (List.prefix_nil.1 exposed.above)
      rw [List.reverse_nil, if_neg notExposed]
      rfl
  | cons name above induction =>
      have nonempty : above.reverse ++ [name] ≠ [] := by simp
      rw [adopt, List.reverse_cons]
      cases found : store.node? (above.reverse ++ [name]) with
      | some node =>
          have exposed : store.Exposes (above.reverse ++ [name]) place ↔
              place = above.reverse ++ [name] := by
            constructor
            · intro exposed
              by_contra differs
              have missing := exposed.gap _ exposed.above (List.prefix_refl _) (Ne.symm differs)
              rw [found] at missing
              exact absurd missing (by simp)
            · rintro rfl
              exact Exposes.refl store nonempty
          simp only [node?_put _ nonempty, exposed]
          by_cases here : place = above.reverse ++ [name]
          · simp [here, found, asDirectory]
          · simp [here]
      | none =>
          simp only [induction]
          have unchanged :
              ∀ between, between <+: above.reverse →
                (store.put (above.reverse ++ [name]) .directory).node? between =
                  store.node? between := by
            intro between shorter
            rw [node?_put _ nonempty, if_neg]
            rintro rfl
            exact not_prefix_of_concat _ _ shorter
          rw [Exposes.congr unchanged, node?_put _ nonempty]
          by_cases here : place = above.reverse ++ [name]
          · have notAbove : ¬ store.Exposes above.reverse place := by
              intro exposed
              rw [here] at exposed
              exact not_prefix_of_concat _ _ exposed.above
            have exposed : store.Exposes (above.reverse ++ [name]) place := by
              rw [here]
              exact Exposes.refl store nonempty
            rw [if_neg notAbove, if_pos here, if_pos exposed, here, found]
            rfl
          · rw [exposes_concat_iff store found here, if_neg here]

/-! ## Directories and files -/

@[simp]
theorem manner_withDirectories (store : FileStore) (place : Place) :
    (store.withDirectories place).manner = store.manner := by
  rw [withDirectories]
  split <;> simp

@[simp]
theorem workingDirectory_withDirectories (store : FileStore) (place : Place) :
    (store.withDirectories place).workingDirectory = store.workingDirectory := by
  rw [withDirectories]
  split <;> simp

@[simp]
theorem refusal_withDirectories (store : FileStore) (place : Place) :
    (store.withDirectories place).refusal = store.refusal := by
  rw [withDirectories]
  split <;> simp

@[simp]
theorem remnant_withDirectories (store : FileStore) (place : Place) :
    (store.withDirectories place).remnant = store.remnant := by
  rw [withDirectories]
  split <;> simp

@[simp]
theorem manner_withContent (store : FileStore) (place : Place) (content : Text) :
    (store.withContent place content).manner = store.manner := by
  rw [withContent]
  split <;> simp

@[simp]
theorem workingDirectory_withContent (store : FileStore) (place : Place) (content : Text) :
    (store.withContent place content).workingDirectory = store.workingDirectory := by
  rw [withContent]
  split <;> simp

@[simp]
theorem refusal_withContent (store : FileStore) (place : Place) (content : Text) :
    (store.withContent place content).refusal = store.refusal := by
  rw [withContent]
  split <;> simp

@[simp]
theorem remnant_withContent (store : FileStore) (place : Place) (content : Text) :
    (store.withContent place content).remnant = store.remnant := by
  rw [withContent]
  split <;> simp

open Classical in
theorem node?_withDirectories
    (store : FileStore)
    (created place : Place) :
    (store.withDirectories created).node? place =
      if store.Opens created place then some (asDirectory (store.node? place))
      else store.node? place := by
  rw [withDirectories]
  cases found : store.node? created with
  | some node =>
      rw [if_neg (not_opens_of_node? found)]
  | none =>
      have opened : store.Opens created place ↔ store.Exposes created place :=
        ⟨fun opened => opened.exposes, fun exposed => ⟨found, exposed⟩⟩
      simp only [node?_adopt, List.reverse_reverse, opened]

open Classical in
theorem node?_withContent
    (store : FileStore)
    {created : Place}
    (nonempty : created ≠ [])
    (content : Text)
    (place : Place) :
    (store.withContent created content).node? place =
      if place = created then some ⟨content, standing (store.node? created)⟩
      else if store.Opens created place then some (asDirectory (store.node? place))
      else store.node? place := by
  rw [withContent]
  cases found : store.node? created with
  | some node =>
      simp only [node?_put _ nonempty, if_neg (not_opens_of_node? found)]
      rfl
  | none =>
      obtain ⟨above, name, rfl⟩ : ∃ above name, created = above ++ [name] :=
        ⟨created.dropLast, created.getLast nonempty, (List.dropLast_append_getLast nonempty).symm⟩
      have unchanged :
          ∀ between, between <+: above →
            (store.put (above ++ [name]) (.file content)).node? between =
              store.node? between := by
        intro between shorter
        rw [node?_put _ nonempty, if_neg]
        rintro rfl
        exact not_prefix_of_concat _ _ shorter
      simp only [List.dropLast_concat, node?_adopt, List.reverse_reverse,
        Exposes.congr unchanged, node?_put _ nonempty]
      by_cases here : place = above ++ [name]
      · have notExposed : ¬ store.Exposes above place := by
          intro exposed
          rw [here] at exposed
          exact not_prefix_of_concat _ _ exposed.above
        rw [if_neg notExposed, if_pos here, if_pos here]
        rfl
      · have opened : store.Opens (above ++ [name]) place ↔ store.Exposes above place := by
          rw [← exposes_concat_iff store found here]
          exact ⟨fun opened => opened.exposes, fun exposed => ⟨found, exposed⟩⟩
        simp only [if_neg here, opened]

end UnoBindgen.FileStore
