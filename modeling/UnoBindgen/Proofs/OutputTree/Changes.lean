import Mathlib
import UnoBindgen.OutputTree
import UnoBindgen.Proofs.FileStore.Access
import UnoBindgen.Proofs.FileStore.Places

/-!
# Changes of an output tree

Placing an entity is a row of changes: a directory is made, and files are brought to their
contents.  `Follows` says what one change does to a state.  `Shows` describes a state by the state
at the start and the changes since then, without saying in which order they were made; it is kept
by every further change that is apart from the earlier ones.

A change that succeeds early on also succeeds after further changes apart from it.
-/

namespace UnoBindgen.OutputTree

open FileStore

/-- Something that is brought about below the root of a tree. -/
inductive Change where
  | directory (relative : Text)
  | file (relative content : Text)
  deriving DecidableEq

namespace Change

/-- The path of what is changed, below the root. -/
def relative : Change → Text
  | .directory relative => relative
  | .file relative _ => relative

@[simp]
theorem relative_directory (relative : Text) :
    (Change.directory relative).relative = relative := rfl

@[simp]
theorem relative_file (relative content : Text) :
    (Change.file relative content).relative = relative := rfl

/-- Whether a file is brought to a content. -/
def IsFile (change : Change) : Prop :=
  ∃ content, change = .file change.relative content

theorem isFile_file (relative content : Text) :
    (Change.file relative content).IsFile :=
  ⟨content, rfl⟩

theorem not_isFile_directory (relative : Text) :
    ¬ (Change.directory relative).IsFile := by
  rintro ⟨content, same⟩
  exact Change.noConfusion same

end Change

namespace State

/-- The place of a path below the root. -/
def placeOf (state : State) (relative : Text) : Place :=
  state.store.place (state.tree.path relative)

/-- Try to bring about a change. -/
def attempt (state : State) : Change → State × Option Fault
  | .directory relative =>
    match state.store.makeDirectories (state.tree.path relative) with
    | (store, some fault) =>
      (⟨store, state.tree⟩, some (.within ("failed to create " ++ state.tree.path relative) fault))
    | (store, none) => (⟨store, state.tree⟩, none)
  | .file relative content => state.writeFile relative content

/-- What an attempt comes to, if it succeeds. -/
def settled : State × Option Fault → Except Fault State
  | (next, none) => .ok next
  | (_, some fault) => .error fault

theorem settled_eq_ok_iff
    (outcome : State × Option Fault)
    (next : State) :
    settled outcome = .ok next ↔ outcome = (next, none) := by
  obtain ⟨left, fault?⟩ := outcome
  cases fault? <;> simp [settled]

theorem settled_eq_error_iff
    (outcome : State × Option Fault)
    (fault : Fault) :
    settled outcome = .error fault ↔ ∃ left, outcome = (left, some fault) := by
  obtain ⟨left, fault?⟩ := outcome
  cases fault? <;> simp [settled]

/-- Bring about a change. -/
def apply (state : State) (change : Change) : Except Fault State :=
  settled (state.attempt change)

/-- Bring about changes one after the other, up to the first that fails. -/
def applyAll (state : State) : List Change → Except Fault State
  | [] => .ok state
  | change :: rest =>
    match state.apply change with
    | .error fault => .error fault
    | .ok next => next.applyAll rest

/-- Whether a file has a content already, and may be looked at. -/
def holds (state : State) (relative content : Text) : Bool :=
  match state.store.refusal .read (state.placeOf relative),
      state.store.node? (state.placeOf relative) with
  | none, some node =>
    node.content == content && !(state.store.manner == .disk && node.isDirectory)
  | _, _ => false

/-- The files of the changes that have their contents already, or those that do not. -/
def filesHeld (state : State) (held : Bool) (changes : List Change) : List Text :=
  changes.filterMap fun change =>
    match change with
    | .directory _ => none
    | .file relative content => if state.holds relative content = held then some relative else none

theorem filesHeld_cons
    (state : State)
    (held : Bool)
    (change : Change)
    (changes : List Change) :
    state.filesHeld held (change :: changes) =
      state.filesHeld held [change] ++ state.filesHeld held changes :=
  List.filterMap_append (l := [change])

/-! ## One change -/

open Classical in
/-- What a change does to a state. -/
structure Follows (state : State) (change : Change) (next : State) : Prop where
  manner : next.store.manner = state.store.manner
  workingDirectory : next.store.workingDirectory = state.store.workingDirectory
  refusal : next.store.refusal = state.store.refusal
  remnant : next.store.remnant = state.store.remnant
  root : next.tree.root = state.tree.root
  nodes :
    ∀ place, (change.IsFile → place ≠ state.placeOf change.relative) →
      next.store.node? place =
        if state.store.Opens (state.placeOf change.relative) place then
          some (asDirectory (state.store.node? place))
        else
          state.store.node? place
  content :
    ∀ relative content, change = .file relative content →
      next.store.node? (state.placeOf relative) =
        some ⟨content, standing (state.store.node? (state.placeOf relative))⟩
  written : next.tree.written = state.filesHeld false [change] ++ state.tree.written
  unchanged : next.tree.unchanged = state.filesHeld true [change] ++ state.tree.unchanged

theorem holds_eq_true_iff
    (state : State)
    (relative content : Text) :
    state.holds relative content = true ↔
      state.store.refusal .read (state.placeOf relative) = none ∧
        ∃ node, state.store.node? (state.placeOf relative) = some node ∧
          node.content = content ∧ (state.store.manner = .disk → node.isDirectory = false) := by
  rw [holds]
  cases state.store.refusal .read (state.placeOf relative) with
  | some fault => simp
  | none =>
      cases state.store.node? (state.placeOf relative) with
      | none => simp
      | some node => cases state.store.manner <;> simp

/-- A file is read with its content where its path can be followed. -/
theorem read_eq_ok_iff_holds
    (state : State)
    (relative content : Text) :
    state.store.read (state.tree.path relative) = .ok content ↔
      state.store.Reaches (state.tree.path relative) ∧ state.holds relative content = true := by
  rw [read_eq_ok_iff, holds_eq_true_iff, placeOf]
  exact and_left_comm

theorem overwrite_eq_ok_iff
    (state : State)
    (relative content : Text)
    (next : State) :
    state.overwrite relative content = (next, none) ↔
      ∃ store, state.store.write (state.tree.path relative) content = (store, none) ∧
        next = ⟨store, state.tree.noteWritten relative⟩ := by
  rw [overwrite]
  obtain ⟨store, fault?⟩ := state.store.write (state.tree.path relative) content
  cases fault? with
  | some fault => simp
  | none => simp [eq_comm (a := next)]

theorem overwrite_eq_error_iff
    (state : State)
    (relative content : Text)
    (left : State)
    (fault : Fault) :
    state.overwrite relative content = (left, some fault) ↔
      left.tree = state.tree ∧
        ∃ reason,
          state.store.write (state.tree.path relative) content = (left.store, some reason) ∧
            fault = .within ("failed to write " ++ state.tree.path relative) reason := by
  obtain ⟨leftStore, leftTree⟩ := left
  rw [overwrite]
  obtain ⟨store, fault?⟩ := state.store.write (state.tree.path relative) content
  cases fault? with
  | none => simp
  | some reason =>
      simp only [Prod.mk.injEq, State.mk.injEq, Option.some.injEq, and_assoc]
      constructor
      · rintro ⟨rfl, rfl, rfl⟩
        exact ⟨rfl, reason, rfl, rfl, rfl⟩
      · rintro ⟨rfl, other, rfl, rfl, rfl⟩
        exact ⟨rfl, rfl, rfl⟩

/-- A file is left alone when it has its content, and else it is written; reading it may fail only
because it is not there. -/
theorem writeFile_eq_ok_iff
    (state : State)
    (relative content : Text)
    (next : State) :
    state.writeFile relative content = (next, none) ↔
      (state.store.Reaches (state.tree.path relative) ∧ state.holds relative content = true ∧
        next = ⟨state.store, state.tree.noteUnchanged relative⟩) ∨
      (state.holds relative content = false ∧
        (∀ fault, state.store.read (state.tree.path relative) = .error fault →
          fault.isMissingFile = true) ∧
        ∃ store, state.store.write (state.tree.path relative) content = (store, none) ∧
          next = ⟨store, state.tree.noteWritten relative⟩) := by
  have held := state.read_eq_ok_iff_holds relative content
  rw [← overwrite_eq_ok_iff]
  simp only [writeFile]
  cases read : state.store.read (state.tree.path relative) with
  | error fault =>
      rw [read] at held
      have notHeld (reaches : state.store.Reaches (state.tree.path relative)) :
          state.holds relative content = false := by
        by_contra holds
        exact absurd (held.2 ⟨reaches, by simpa using holds⟩) (by simp)
      constructor
      · intro outcome
        cases missing : fault.isMissingFile with
        | false => simp [missing] at outcome
        | true =>
            simp only [missing, if_true] at outcome
            obtain ⟨store, written, -⟩ := (overwrite_eq_ok_iff _ _ _ _).1 outcome
            -- What is written can be reached, so the read failed because the file is not held.
            have reaches := ((write_eq_ok_iff _ _ _ _).1 written).2.1
            refine Or.inr ⟨notHeld reaches, fun other same => ?_, outcome⟩
            rwa [← Except.error.inj same]
      · rintro (⟨reaches, holds, -⟩ | ⟨-, missing, outcome⟩)
        · rw [notHeld reaches] at holds
          exact absurd holds (by simp)
        · simpa only [missing fault rfl, if_true] using outcome
  | ok existing =>
      have reaches := ((read_eq_ok_iff _ _ _).1 read).2.1
      rw [read] at held
      by_cases same : existing = content
      · obtain ⟨-, holds⟩ := held.1 (congrArg Except.ok same)
        simp [same, reaches, holds, eq_comm (a := next)]
      · have notHeld : state.holds relative content = false := by
          by_contra holds
          exact same (Except.ok.inj (held.2 ⟨reaches, by simpa using holds⟩))
        simp [same, notHeld]

/-- A file is not brought to its content when it cannot be read, or else cannot be written, and the
report says which of the two. -/
theorem exists_reason_of_writeFile
    {state left : State}
    {relative content : Text}
    {fault : Fault}
    (failed : state.writeFile relative content = (left, some fault)) :
    (left = state ∧
      ∃ reason, state.store.read (state.tree.path relative) = .error reason ∧
        fault = .within ("failed to read " ++ state.tree.path relative) reason) ∨
    (left.tree = state.tree ∧
      ∃ reason,
        state.store.write (state.tree.path relative) content = (left.store, some reason) ∧
          fault = .within ("failed to write " ++ state.tree.path relative) reason) := by
  rw [← overwrite_eq_error_iff]
  simp only [writeFile] at failed
  split at failed
  · split at failed
    · exact absurd failed (by simp)
    · exact Or.inr failed
  · rename_i reason refused
    split at failed
    · exact Or.inr failed
    · obtain ⟨rfl, same⟩ := Prod.mk.inj failed
      exact Or.inl ⟨rfl, reason, refused, (Option.some.inj same).symm⟩

theorem apply_directory_eq_ok_iff
    (state : State)
    (relative : Text)
    (next : State) :
    state.apply (.directory relative) = .ok next ↔
      ∃ store, state.store.makeDirectories (state.tree.path relative) = (store, none) ∧
        next = ⟨store, state.tree⟩ := by
  rw [apply, settled_eq_ok_iff, attempt]
  obtain ⟨store, fault?⟩ := state.store.makeDirectories (state.tree.path relative)
  cases fault? with
  | some fault => simp
  | none => simp [eq_comm]

theorem apply_file_eq_ok_iff
    (state : State)
    (relative content : Text)
    (next : State) :
    state.apply (.file relative content) = .ok next ↔
      (state.store.Reaches (state.tree.path relative) ∧ state.holds relative content = true ∧
        next = ⟨state.store, state.tree.noteUnchanged relative⟩) ∨
      (state.holds relative content = false ∧
        (∀ fault, state.store.read (state.tree.path relative) = .error fault →
          fault.isMissingFile = true) ∧
        ∃ store, state.store.write (state.tree.path relative) content = (store, none) ∧
          next = ⟨store, state.tree.noteWritten relative⟩) := by
  rw [apply, settled_eq_ok_iff, ← writeFile_eq_ok_iff]
  rfl

/-- A file that is left alone is at its place, with its content. -/
theorem node?_of_holds
    {state : State}
    {relative content : Text}
    (held : state.holds relative content = true) :
    state.store.node? (state.placeOf relative) =
      some ⟨content, standing (state.store.node? (state.placeOf relative))⟩ := by
  obtain ⟨-, node, found, rfl, -⟩ := (holds_eq_true_iff _ _ _).1 held
  rw [found]
  rfl

theorem follows_of_apply
    {state : State}
    {change : Change}
    {next : State}
    (below : change.IsFile → state.placeOf change.relative ≠ [])
    (applied : state.apply change = .ok next) :
    state.Follows change next := by
  cases change with
  | directory relative =>
      obtain ⟨store, made, rfl⟩ := (apply_directory_eq_ok_iff state relative next).1 applied
      obtain ⟨-, -, rfl⟩ := (makeDirectories_eq_ok_iff _ _ _).1 made
      exact
        { manner := by simp
          workingDirectory := by simp
          refusal := by simp
          remnant := by simp
          root := rfl
          nodes := fun place _ => node?_withDirectories _ _ place
          content := fun _ _ same => Change.noConfusion same
          written := rfl
          unchanged := rfl }
  | file relative content =>
      rcases (apply_file_eq_ok_iff state relative content next).1 applied with
        ⟨-, held, rfl⟩ | ⟨notHeld, -, store, written, rfl⟩
      · have found := node?_of_holds held
        exact
          { manner := rfl
            workingDirectory := rfl
            refusal := rfl
            remnant := rfl
            root := rfl
            nodes := fun place _ => (if_neg (not_opens_of_node? found)).symm
            content := fun _ _ same => by
              obtain ⟨rfl, rfl⟩ := Change.file.inj same
              exact found
            written := by simp [filesHeld, held, noteUnchanged]
            unchanged := by simp [filesHeld, held, noteUnchanged] }
      · obtain ⟨-, -, -, rfl⟩ := (write_eq_ok_iff _ _ _ _).1 written
        have nodes :=
          node?_withContent state.store (below (Change.isFile_file relative content)) content
        exact
          { manner := by simp
            workingDirectory := by simp
            refusal := by simp
            remnant := by simp
            root := rfl
            nodes := fun place elsewhere => by
              have differs := elsewhere (Change.isFile_file relative content)
              exact (nodes place).trans (if_neg differs)
            content := fun _ _ same => by
              obtain ⟨rfl, rfl⟩ := Change.file.inj same
              exact (nodes _).trans (if_pos rfl)
            written := by simp [filesHeld, notHeld, noteWritten]
            unchanged := by simp [filesHeld, notHeld, noteWritten] }

/-! ## Many changes -/

/-- A file of the changes is at a place. -/
def Filled (base : State) (changes : List Change) (place : Place) : Prop :=
  ∃ change ∈ changes, change.IsFile ∧ base.placeOf change.relative = place

/-- A place has to be a directory for the changes. -/
def Opened (base : State) (changes : List Change) (place : Place) : Prop :=
  ∃ change ∈ changes, base.store.Opens (base.placeOf change.relative) place

/-- A state that comes from another by changes, in whatever order they were made. -/
structure Shows (base : State) (changes : List Change) (state : State) : Prop where
  manner : state.store.manner = base.store.manner
  workingDirectory : state.store.workingDirectory = base.store.workingDirectory
  refusal : state.store.refusal = base.store.refusal
  remnant : state.store.remnant = base.store.remnant
  root : state.tree.root = base.tree.root
  files :
    ∀ relative content, Change.file relative content ∈ changes →
      state.store.node? (base.placeOf relative) =
        some ⟨content, standing (base.store.node? (base.placeOf relative))⟩
  opened :
    ∀ place, ¬ base.Filled changes place → base.Opened changes place →
      state.store.node? place = some (asDirectory (base.store.node? place))
  elsewhere :
    ∀ place, ¬ base.Filled changes place → ¬ base.Opened changes place →
      state.store.node? place = base.store.node? place
  written : state.tree.written.Perm (base.filesHeld false changes ++ base.tree.written)
  unchanged : state.tree.unchanged.Perm (base.filesHeld true changes ++ base.tree.unchanged)

/-- Changes that do not get in each other's way: no file of theirs is where the other has a file
or a directory. -/
structure Apart (base : State) (first second : Change) : Prop where
  forward :
    first.IsFile → ¬ base.placeOf first.relative <+: base.placeOf second.relative
  backward :
    second.IsFile → ¬ base.placeOf second.relative <+: base.placeOf first.relative

theorem Apart.symm
    {base : State}
    {first second : Change}
    (apart : base.Apart first second) :
    base.Apart second first :=
  ⟨apart.backward, apart.forward⟩

theorem filled_cons_iff
    (base : State)
    (change : Change)
    (changes : List Change)
    (place : Place) :
    base.Filled (change :: changes) place ↔
      (change.IsFile ∧ base.placeOf change.relative = place) ∨ base.Filled changes place := by
  simp [Filled]

theorem Filled.subset
    {base : State}
    {few many : List Change}
    {place : Place}
    (filled : base.Filled few place)
    (subset : few ⊆ many) :
    base.Filled many place := by
  obtain ⟨change, member, located⟩ := filled
  exact ⟨change, subset member, located⟩

theorem Opened.subset
    {base : State}
    {few many : List Change}
    {place : Place}
    (opened : base.Opened few place)
    (subset : few ⊆ many) :
    base.Opened many place := by
  obtain ⟨change, member, located⟩ := opened
  exact ⟨change, subset member, located⟩

theorem Shows.refl (base : State) :
    base.Shows [] base where
  manner := rfl
  workingDirectory := rfl
  refusal := rfl
  remnant := rfl
  root := rfl
  files := by simp
  opened place _ opened := by
    obtain ⟨change, member, -⟩ := opened
    exact absurd member (by simp)
  elsewhere _ _ _ := rfl
  written := List.Perm.refl _
  unchanged := List.Perm.refl _

variable
  {base state : State}
  {changes : List Change}

/-- The order of the changes does not matter. -/
theorem Shows.perm
    (shows : base.Shows changes state)
    {others : List Change}
    (perm : changes.Perm others) :
    base.Shows others state where
  manner := shows.manner
  workingDirectory := shows.workingDirectory
  refusal := shows.refusal
  remnant := shows.remnant
  root := shows.root
  files relative content member := shows.files relative content (perm.mem_iff.2 member)
  opened place unfilled opened :=
    shows.opened place (fun filled => unfilled (filled.subset perm.subset))
      (opened.subset perm.symm.subset)
  elsewhere place unfilled unopened :=
    shows.elsewhere place (fun filled => unfilled (filled.subset perm.subset))
      fun opened => unopened (opened.subset perm.subset)
  written := shows.written.trans ((perm.filterMap _).append_right _)
  unchanged := shows.unchanged.trans ((perm.filterMap _).append_right _)

/-- Two states that show the same changes answer alike. -/
theorem Shows.agrees
    (shows : base.Shows changes state)
    {other : State}
    (otherShows : base.Shows changes other) :
    state.store.Agrees other.store where
  manner := shows.manner.trans otherShows.manner.symm
  workingDirectory := shows.workingDirectory.trans otherShows.workingDirectory.symm
  refusal := shows.refusal.trans otherShows.refusal.symm
  remnant := shows.remnant.trans otherShows.remnant.symm
  nodes place := by
    by_cases filled : base.Filled changes place
    · obtain ⟨change, member, ⟨content, isFile⟩, rfl⟩ := filled
      rw [isFile] at member
      rw [shows.files _ _ member, otherShows.files _ _ member]
    · by_cases opened : base.Opened changes place
      · rw [shows.opened place filled opened, otherShows.opened place filled opened]
      · rw [shows.elsewhere place filled opened, otherShows.elsewhere place filled opened]

theorem Shows.path
    (shows : base.Shows changes state)
    (relative : Text) :
    state.tree.path relative = base.tree.path relative := by
  rw [OutputTree.path, OutputTree.path, shows.root]

theorem Shows.place
    (shows : base.Shows changes state)
    (path : Text) :
    state.store.place path = base.store.place path := by
  rw [FileStore.place, FileStore.place, shows.workingDirectory]

theorem Shows.placeOf
    (shows : base.Shows changes state)
    (relative : Text) :
    state.placeOf relative = base.placeOf relative := by
  rw [State.placeOf, State.placeOf, shows.path, shows.place]

/-- Nothing that was there is gone. -/
theorem Shows.node?_eq_none
    (shows : base.Shows changes state)
    {place : Place}
    (vacant : state.store.node? place = none) :
    base.store.node? place = none := by
  by_cases filled : base.Filled changes place
  · obtain ⟨change, member, ⟨content, isFile⟩, rfl⟩ := filled
    rw [isFile] at member
    rw [shows.files _ _ member] at vacant
    exact absurd vacant (by simp)
  · by_cases opened : base.Opened changes place
    · rw [shows.opened place filled opened] at vacant
      exact absurd vacant (by simp)
    · rwa [shows.elsewhere place filled opened] at vacant

/-- What came into being and is no file of the changes had to be a directory for them. -/
theorem Shows.opened_of_new
    (shows : base.Shows changes state)
    {place : Place}
    (unfilled : ¬ base.Filled changes place)
    (new : base.store.node? place = none)
    (found : state.store.node? place ≠ none) :
    base.Opened changes place := by
  by_contra unopened
  rw [shows.elsewhere place unfilled unopened] at found
  exact found new

/-- A way that was open for one change is open for any change on it. -/
theorem opens_of_above
    {store : FileStore}
    {created between other place : Place}
    (exposed : store.Exposes created place)
    (inside : place <+: between)
    (above : between <+: created)
    (opened : store.Opens other between) :
    store.Opens other place where
  vacant := opened.vacant
  exposes :=
    { nonempty := exposed.nonempty
      above := inside.trans opened.exposes.above
      gap := by
        intro next lower upper differs
        -- Both are on the way to `other`, so one of them is above the other.
        rcases List.prefix_or_prefix_of_prefix upper opened.exposes.above with shorter | longer
        · exact exposed.gap next lower (shorter.trans above) differs
        · by_cases same : next = between
          · subst same
            exact exposed.gap next lower above differs
          · exact opened.exposes.gap next longer upper same }

/-- What a further change has to open, on top of what was opened already, can be told from the
state at the start. -/
theorem Shows.opened_cons_iff
    (shows : base.Shows changes state)
    {change : Change}
    (clear :
      ∀ other ∈ changes, other.IsFile →
        ¬ base.placeOf other.relative <+: base.placeOf change.relative)
    (place : Place) :
    base.Opened (change :: changes) place ↔
      state.store.Opens (base.placeOf change.relative) place ∨ base.Opened changes place := by
  have unfilled : ∀ between, between <+: base.placeOf change.relative →
      ¬ base.Filled changes between := by
    rintro between above ⟨other, member, isFile, rfl⟩
    exact clear other member isFile above
  have split : base.Opened (change :: changes) place ↔
      base.store.Opens (base.placeOf change.relative) place ∨ base.Opened changes place := by
    simp [Opened]
  rw [split]
  constructor
  · rintro (opened | opened)
    · by_cases stillOpens : state.store.Opens (base.placeOf change.relative) place
      · exact Or.inl stillOpens
      · right
        -- Something on the way has come into being, and it was opened by an earlier change.
        obtain ⟨between, inside, above, vacant, found⟩ :
            ∃ between, place <+: between ∧ between <+: base.placeOf change.relative ∧
              base.store.node? between = none ∧ state.store.node? between ≠ none := by
          by_contra nothing
          push Not at nothing
          apply stillOpens
          refine
            ⟨nothing _ opened.exposes.above (List.prefix_refl _) opened.vacant,
              opened.exposes.nonempty, opened.exposes.above, ?_⟩
          intro between inside above differs
          exact nothing between inside above (opened.exposes.gap between inside above differs)
        obtain ⟨other, member, otherOpens⟩ :=
          shows.opened_of_new (unfilled between above) vacant found
        exact ⟨other, member, opens_of_above opened.exposes inside above otherOpens⟩
    · exact Or.inr opened
  · rintro (opened | opened)
    · left
      refine ⟨shows.node?_eq_none opened.vacant, opened.exposes.nonempty, opened.exposes.above, ?_⟩
      intro between inside above differs
      exact shows.node?_eq_none (opened.exposes.gap between inside above differs)
    · exact Or.inr opened

/-- A place that none of the changes is at or below is as it was. -/
theorem Shows.node?_of_outside
    (shows : base.Shows changes state)
    {place : Place}
    (outside : ∀ other ∈ changes, ¬ place <+: base.placeOf other.relative) :
    state.store.node? place = base.store.node? place := by
  apply shows.elsewhere place
  · rintro ⟨other, member, -, rfl⟩
    exact outside other member (List.prefix_refl _)
  · rintro ⟨other, member, opened⟩
    exact outside other member opened.exposes.above

theorem Shows.holds
    (shows : base.Shows changes state)
    {relative : Text}
    (outside : ∀ other ∈ changes, ¬ base.placeOf relative <+: base.placeOf other.relative)
    (content : Text) :
    state.holds relative content = base.holds relative content := by
  rw [Bool.eq_iff_iff, holds_eq_true_iff, holds_eq_true_iff, shows.placeOf, shows.refusal,
    shows.manner, shows.node?_of_outside outside]

/-- A file that nothing was changed at or above is held as at the start. -/
theorem Shows.filesHeld_eq
    (shows : base.Shows changes state)
    {change : Change}
    (outside :
      change.IsFile →
        ∀ other ∈ changes, ¬ base.placeOf change.relative <+: base.placeOf other.relative)
    (held : Bool) :
    state.filesHeld held [change] = base.filesHeld held [change] := by
  cases change with
  | directory relative => rfl
  | file relative content =>
      have same := shows.holds (outside (Change.isFile_file relative content)) content
      rw [Change.relative_file] at same
      simp only [filesHeld, List.filterMap_cons, List.filterMap_nil, same]

/-- One more change, apart from the earlier ones. -/
theorem Shows.cons
    (shows : base.Shows changes state)
    {change : Change}
    {next : State}
    (apart : ∀ other ∈ changes, base.Apart change other)
    (follows : state.Follows change next) :
    base.Shows (change :: changes) next := by
  have opened_iff := shows.opened_cons_iff fun other member => (apart other member).backward
  have nodes := follows.nodes
  rw [shows.placeOf] at nodes
  have outside (isFile : change.IsFile) :
      ∀ other ∈ changes, ¬ base.placeOf change.relative <+: base.placeOf other.relative :=
    fun other member => (apart other member).forward isFile
  have notHere {place : Place} (unfilled : ¬ base.Filled (change :: changes) place) :
      change.IsFile → place ≠ base.placeOf change.relative := by
    rintro isFile rfl
    exact unfilled ((filled_cons_iff _ _ _ _).2 (Or.inl ⟨isFile, rfl⟩))
  have sameHeld := shows.filesHeld_eq outside
  refine
    { manner := follows.manner.trans shows.manner
      workingDirectory := follows.workingDirectory.trans shows.workingDirectory
      refusal := follows.refusal.trans shows.refusal
      remnant := follows.remnant.trans shows.remnant
      root := follows.root.trans shows.root
      files := ?_
      opened := ?_
      elsewhere := ?_
      written := ?_
      unchanged := ?_ }
  · intro relative content member
    rcases List.mem_cons.1 member with rfl | earlier
    · have placed := follows.content relative content rfl
      rw [shows.placeOf] at placed
      have asBefore := shows.node?_of_outside (outside (Change.isFile_file relative content))
      rw [Change.relative_file] at asBefore
      rw [placed, asBefore]
    · have notAbove := (apart _ earlier).backward (Change.isFile_file relative content)
      have elsewhere : change.IsFile → base.placeOf relative ≠ base.placeOf change.relative := by
        intro _ same
        exact notAbove (same ▸ List.prefix_refl _)
      rw [nodes _ elsewhere, if_neg fun opened => notAbove opened.exposes.above]
      exact shows.files relative content earlier
  · intro place unfilled opened
    rw [nodes place (notHere unfilled)]
    rw [filled_cons_iff, not_or] at unfilled
    by_cases before : base.Opened changes place
    · rw [shows.opened place unfilled.2 before]
      split
      · rw [asDirectory_asDirectory]
      · rfl
    · rw [opened_iff] at opened
      rw [if_pos (opened.resolve_right before), shows.elsewhere place unfilled.2 before]
  · intro place unfilled unopened
    rw [nodes place (notHere unfilled)]
    rw [filled_cons_iff, not_or] at unfilled
    rw [opened_iff, not_or] at unopened
    rw [if_neg unopened.1, shows.elsewhere place unfilled.2 unopened.2]
  · rw [follows.written, sameHeld, filesHeld_cons base _ change changes,
      List.append_assoc]
    exact shows.written.append_left _
  · rw [follows.unchanged, sameHeld, filesHeld_cons base _ change changes,
      List.append_assoc]
    exact shows.unchanged.append_left _

end State

end UnoBindgen.OutputTree
