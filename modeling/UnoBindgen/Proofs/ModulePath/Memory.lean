import UnoBindgen.ModulePath.Memory
import UnoBindgen.Proofs.ModulePath

/-!
# Module paths are left as they are

The segments that are given out, the child of a path and its parent all stand in an array that is
new, so a path that is in memory reads the same afterwards.  The arrays of the paths at hand are
never those of the copies, and only copies are assigned to.  Hence a program that works on slices
sees what it would see if paths were values.
-/

namespace UnoBindgen

namespace Memory

variable {memory before after : Memory} {slice path : Slice}

/-- The array of the slice has the room that the slice counts on. -/
structure Holds (memory : Memory) (slice : Slice) : Prop where
  length_le : slice.length ≤ slice.capacity
  capacity_le : slice.capacity ≤ (memory.array slice.array).length

theorem holds_empty (memory : Memory) : memory.Holds Slice.empty :=
  ⟨le_refl _, Nat.zero_le _⟩

/-- A slice that is held has an array, unless it has no room. -/
theorem Holds.lt_of_capacity
    (held : memory.Holds slice)
    (room : slice.capacity ≠ 0) :
    slice.array < memory.arrays.length := by
  by_contra outside
  have enough := held.capacity_le
  rw [array, List.getElem?_eq_none (Nat.le_of_not_lt outside)] at enough
  exact room (Nat.le_zero.1 enough)

theorem Holds.length_read (held : memory.Holds slice) :
    (memory.read slice).length = slice.length := by
  rw [read, List.length_take]
  exact min_eq_left (held.length_le.trans held.capacity_le)

/-! ## Memories with more arrays -/

theorem array_eq_of_grown
    (grown : before.arrays <+: after.arrays)
    {index : Nat}
    (inside : index < before.arrays.length) :
    after.array index = before.array index := by
  obtain ⟨more, arrays⟩ := grown
  rw [array, array, ← arrays, List.getElem?_append_left inside]

/-- A slice that is held shows the same elements when only new arrays were made. -/
theorem Holds.of_grown
    (held : before.Holds slice)
    (grown : before.arrays <+: after.arrays) :
    after.Holds slice ∧ after.path slice = before.path slice := by
  by_cases room : slice.capacity = 0
  · have short : slice.length = 0 := Nat.le_zero.1 (room ▸ held.length_le)
    refine ⟨⟨held.length_le, room ▸ Nat.zero_le _⟩, ModulePath.ext_segments ?_⟩
    simp only [path, read, short, List.take_zero]
  · have same := array_eq_of_grown grown (held.lt_of_capacity room)
    refine ⟨⟨held.length_le, same ▸ held.capacity_le⟩, ModulePath.ext_segments ?_⟩
    simp only [path, read, same]

section Allocating

variable (memory) (elements : List Text)

theorem prefix_allocate : memory.arrays <+: (memory.allocate elements).2.arrays :=
  List.prefix_append ..

theorem array_allocate :
    (memory.allocate elements).2.array (memory.allocate elements).1.array = elements := by
  simp [allocate, array]

theorem holds_allocate : (memory.allocate elements).2.Holds (memory.allocate elements).1 :=
  ⟨le_refl _, by rw [array_allocate]; exact le_refl _⟩

theorem path_allocate :
    (memory.allocate elements).2.path (memory.allocate elements).1 = ⟨elements⟩ := by
  refine ModulePath.ext_segments ?_
  rw [path, read, array_allocate]
  exact List.take_length ..

end Allocating

/-! ## What the operations make -/

/-- Making a slice and copying another one into it is to allocate the elements shown, with what
room is left behind them. -/
theorem copy_make
    (held : memory.Holds slice)
    (room : Nat) :
    (memory.make slice.length (slice.length + room)).2.copy
        (memory.make slice.length (slice.length + room)).1 slice =
      ⟨memory.arrays ++ [memory.read slice ++ List.replicate room []]⟩ := by
  have grown :
      memory.arrays <+: (memory.make slice.length (slice.length + room)).2.arrays :=
    List.prefix_append ..
  have shown :
      (memory.make slice.length (slice.length + room)).2.read slice = memory.read slice :=
    congrArg ModulePath.segments (held.of_grown grown).2
  have whole : (memory.read slice).take slice.length = memory.read slice :=
    List.take_of_length_le (le_of_eq held.length_read)
  rw [copy, shown]
  simp only [make, whole, held.length_read, withArray, array, List.getElem?_concat_length,
    Option.getD_some, List.drop_replicate, Nat.add_sub_cancel_left]
  rw [List.set_append_right _ _ (le_refl _), Nat.sub_self, List.set_cons_zero]

theorem segments_eq_allocate (held : memory.Holds path) :
    memory.segments path = memory.allocate (memory.read path) := by
  have copied := copy_make held 0
  rw [List.replicate_zero, List.append_nil, Nat.add_zero] at copied
  simp only [segments, allocate, held.length_read]
  exact Prod.ext rfl copied

theorem child_eq_allocate
    (held : memory.Holds path)
    (segment : Text) :
    memory.child path segment = memory.allocate (memory.read path ++ [segment]) := by
  have copied := copy_make held 1
  have appended :
      (memory.read path ++ List.replicate 1 []).set path.length segment =
        memory.read path ++ [segment] := by
    rw [List.set_append_right _ _ (le_of_eq held.length_read), held.length_read, Nat.sub_self]
    rfl
  simp only [child, append]
  rw [copied]
  simp only [make, Nat.lt_succ_self, if_true, withArray, array, List.getElem?_concat_length,
    Option.getD_some, appended, List.set_append_right _ _ (le_refl _), Nat.sub_self,
    List.set_cons_zero, allocate, List.length_append, held.length_read, List.length_singleton]

/-- What an operation on a path makes: a slice that is held, in a memory where nothing that was
held has changed, with an array of its own or the slice of the path itself. -/
structure Makes (memory : Memory) (path : Slice) (made : Slice × Memory) (shown : ModulePath) :
    Prop where
  grown : memory.arrays <+: made.2.arrays
  held : made.2.Holds made.1
  shows : made.2.path made.1 = shown
  apart : made.1 = path ∨ made.1.array = memory.arrays.length

theorem makes_allocate
    (memory : Memory)
    (path : Slice)
    (elements : List Text) :
    memory.Makes path (memory.allocate elements) ⟨elements⟩ :=
  ⟨prefix_allocate memory elements, holds_allocate memory elements,
    path_allocate memory elements, Or.inr rfl⟩

theorem makes_segments (held : memory.Holds path) :
    memory.Makes path (memory.segments path) (memory.path path) := by
  rw [segments_eq_allocate held]
  exact makes_allocate memory path (memory.read path)

theorem makes_child
    (held : memory.Holds path)
    (segment : Text) :
    memory.Makes path (memory.child path segment) ((memory.path path).child segment) := by
  rw [child_eq_allocate held]
  exact makes_allocate memory path (memory.read path ++ [segment])

theorem makes_parent (held : memory.Holds path) :
    memory.Makes path (memory.parent path) (memory.path path).parent := by
  have count := held.length_read
  by_cases short : path.length = 0
  · have nothing : memory.read path = [] := List.eq_nil_of_length_eq_zero (count.trans short)
    rw [parent, if_pos short]
    refine ⟨List.prefix_rfl, held, ModulePath.ext_segments ?_, Or.inl rfl⟩
    simp only [Memory.path, ModulePath.parent, nothing, List.dropLast_nil]
  · rw [parent, if_neg short, segments_eq_allocate held]
    have allocated := makes_allocate memory path (memory.read path)
    refine ⟨allocated.grown, ⟨?_, allocated.held.capacity_le⟩, ModulePath.ext_segments ?_,
      Or.inr rfl⟩
    · simp only [allocate, count]
      exact Nat.sub_le ..
    · rw [Memory.path, read]
      simp only [allocate, array, List.getElem?_concat_length, Option.getD_some]
      rw [← count, ← List.dropLast_eq_take]
      rfl

/-- The path of a child, of a parent or of a copy is there, and every path that was in memory, the
one it was made of among them, is as it was. -/
theorem Makes.keeps
    {made : Slice × Memory}
    {shown : ModulePath}
    (makes : memory.Makes path made shown)
    {earlier : Slice}
    (held : memory.Holds earlier) :
    made.2.Holds earlier ∧ made.2.path earlier = memory.path earlier :=
  held.of_grown makes.grown

/-- A path that was read is shown by the slice it stands in. -/
theorem holds_store (memory : Memory) (path : ModulePath) :
    (memory.store path).2.Holds (memory.store path).1 ∧
      (memory.store path).2.path (memory.store path).1 = path := by
  rw [store]
  by_cases root : path.isRoot = true
  · rw [if_pos root]
    exact ⟨holds_empty memory, ModulePath.ext_segments (List.isEmpty_iff.1 root).symm⟩
  · rw [if_neg root]
    exact ⟨holds_allocate memory path.segments, path_allocate memory path.segments⟩

/-! ## Assigning to a copy -/

/-- A path that has another array than the copy reads the same.  Without room there is nothing to
read, or nothing to assign to. -/
theorem path_assign
    {copy : Slice}
    (held : memory.Holds path)
    (copyHeld : memory.Holds copy)
    (apart : path.capacity ≠ 0 → copy.capacity ≠ 0 → path.array ≠ copy.array)
    (position : Nat)
    (segment : Text) :
    (memory.assign copy position segment).path path = memory.path path := by
  rw [assign]
  split
  · rename_i inside
    refine ModulePath.ext_segments ?_
    by_cases room : path.capacity = 0
    · have short : path.length = 0 := Nat.le_zero.1 (room ▸ held.length_le)
      simp only [Memory.path, read, short, List.take_zero]
    · have copyRoom : copy.capacity ≠ 0 :=
        Nat.ne_of_gt (lt_of_le_of_lt (Nat.zero_le _) (inside.trans_le copyHeld.length_le))
      simp only [Memory.path, read, withArray, array,
        List.getElem?_set_ne (Ne.symm (apart room copyRoom))]
  · rfl

theorem length_array_assign
    (memory : Memory)
    (copy : Slice)
    (position : Nat)
    (segment : Text)
    (index : Nat) :
    ((memory.assign copy position segment).array index).length = (memory.array index).length := by
  rw [assign]
  split
  · by_cases same : copy.array = index
    · subst same
      simp only [withArray, array, List.getElem?_set_self']
      cases memory.arrays[copy.array]? <;> simp
    · simp only [withArray, array, List.getElem?_set_ne same]
  · rfl

theorem Holds.assign
    (held : memory.Holds slice)
    (copy : Slice)
    (position : Nat)
    (segment : Text) :
    (memory.assign copy position segment).Holds slice :=
  ⟨held.length_le, by rw [length_array_assign]; exact held.capacity_le⟩

end Memory

/-! ## Programs -/

namespace PathTable

open Memory

variable {table : PathTable}

/-- The paths and the copies at hand are held, and no copy looks into the array of a path. -/
structure IsSound (table : PathTable) : Prop where
  pathsHeld : ∀ path ∈ table.paths, table.memory.Holds path
  copiesHeld : ∀ copy ∈ table.copies, table.memory.Holds copy
  apart : ∀ path ∈ table.paths, ∀ copy ∈ table.copies,
    path.capacity ≠ 0 → copy.capacity ≠ 0 → path.array ≠ copy.array

theorem shown_getElem? (table : PathTable) (position : Nat) :
    table.shown[position]? = table.paths[position]?.map table.memory.path :=
  List.getElem?_map ..

/-- What is made of a path leaves the paths and the copies sound, and the paths shown as they
were. -/
theorem IsSound.of_makes
    (sound : table.IsSound)
    {path : Slice}
    (member : path ∈ table.paths)
    {made : Slice × Memory}
    {value : ModulePath}
    (makes : table.memory.Makes path made value) :
    (table.withPath made).IsSound ∧ (table.withPath made).shown = table.shown ++ [value] := by
  constructor
  · refine ⟨?_, fun copy given => (makes.keeps (sound.copiesHeld copy given)).1, ?_⟩
    · simp only [withPath, List.forall_mem_append, List.forall_mem_singleton]
      exact ⟨fun path member => (makes.keeps (sound.pathsHeld path member)).1, makes.held⟩
    · simp only [withPath, List.forall_mem_append, List.forall_mem_singleton]
      refine ⟨sound.apart, fun copy given room copyRoom => ?_⟩
      rcases makes.apart with same | fresh
      · exact same ▸ sound.apart path member copy given (same ▸ room) copyRoom
      · have older := (sound.copiesHeld copy given).lt_of_capacity copyRoom
        omega
  · simp only [shown, withPath, List.map_append, List.map_singleton, makes.shows]
    congr 1
    exact List.map_congr_left fun earlier member =>
      (makes.keeps (sound.pathsHeld earlier member)).2

/-- A copy of the segments leaves the paths and the copies sound, and the paths shown as they
were. -/
theorem IsSound.of_segments
    (sound : table.IsSound)
    {path : Slice}
    (member : path ∈ table.paths) :
    (table.withCopy (table.memory.segments path)).IsSound ∧
      (table.withCopy (table.memory.segments path)).shown = table.shown := by
  have makes := makes_segments (sound.pathsHeld path member)
  have fresh : (table.memory.segments path).1.array = table.memory.arrays.length := rfl
  constructor
  · refine ⟨fun path member => (makes.keeps (sound.pathsHeld path member)).1, ?_, ?_⟩
    · simp only [withCopy, List.forall_mem_append, List.forall_mem_singleton]
      exact ⟨fun copy given => (makes.keeps (sound.copiesHeld copy given)).1, makes.held⟩
    · simp only [withCopy, List.forall_mem_append, List.forall_mem_singleton]
      refine fun path member => ⟨sound.apart path member, fun room _ => ?_⟩
      have older := (sound.pathsHeld path member).lt_of_capacity room
      omega
  · exact List.map_congr_left fun path member => (makes.keeps (sound.pathsHeld path member)).2

/-- An assignment to a copy leaves the paths and the copies sound, and the paths shown as they
were. -/
theorem IsSound.of_assign
    (sound : table.IsSound)
    {copy : Slice}
    (given : copy ∈ table.copies)
    (position : Nat)
    (segment : Text) :
    IsSound { table with memory := table.memory.assign copy position segment } ∧
      shown { table with memory := table.memory.assign copy position segment } =
        table.shown := by
  constructor
  · exact ⟨fun path member => (sound.pathsHeld path member).assign copy position segment,
      fun copy' given => (sound.copiesHeld copy' given).assign copy position segment,
      sound.apart⟩
  · refine List.map_congr_left fun path member => ?_
    exact path_assign (sound.pathsHeld path member) (sound.copiesHeld copy given)
      (sound.apart path member copy given) position segment

/-- One operation does to the paths shown what it does to paths that are values. -/
theorem IsSound.perform
    (sound : table.IsSound)
    (operation : PathOperation) :
    (table.perform operation).IsSound ∧
      (table.perform operation).shown = operation.onPaths table.shown := by
  cases operation with
  | child position segment =>
      rw [PathTable.perform, PathOperation.onPaths, shown_getElem?]
      cases found : table.paths[position]? with
      | none => exact ⟨sound, (List.append_nil _).symm⟩
      | some path =>
          have member := List.mem_of_getElem? found
          exact sound.of_makes member (makes_child (sound.pathsHeld path member) segment)
  | parent position =>
      rw [PathTable.perform, PathOperation.onPaths, shown_getElem?]
      cases found : table.paths[position]? with
      | none => exact ⟨sound, (List.append_nil _).symm⟩
      | some path =>
          have member := List.mem_of_getElem? found
          exact sound.of_makes member (makes_parent (sound.pathsHeld path member))
  | segments position =>
      rw [PathTable.perform, PathOperation.onPaths]
      cases found : table.paths[position]? with
      | none => exact ⟨sound, rfl⟩
      | some path => exact sound.of_segments (List.mem_of_getElem? found)
  | assign copy position segment =>
      rw [PathTable.perform, PathOperation.onPaths]
      cases found : table.copies[copy]? with
      | none => exact ⟨sound, rfl⟩
      | some copy => exact sound.of_assign (List.mem_of_getElem? found) position segment

/-- A program that works on slices sees what it would see if paths were values. -/
theorem IsSound.performAll
    (sound : table.IsSound)
    (operations : List PathOperation) :
    (operations.foldl PathTable.perform table).IsSound ∧
      (operations.foldl PathTable.perform table).shown =
        operations.foldl (fun paths operation => operation.onPaths paths) table.shown := by
  induction operations generalizing table with
  | nil => exact ⟨sound, rfl⟩
  | cons operation rest induction =>
      obtain ⟨performed, shown⟩ := sound.perform operation
      rw [List.foldl_cons, List.foldl_cons, ← shown]
      exact induction performed

theorem prefix_onPaths (operation : PathOperation) (paths : List ModulePath) :
    paths <+: operation.onPaths paths := by
  cases operation with
  | child => exact List.prefix_append ..
  | parent => exact List.prefix_append ..
  | segments => exact List.prefix_rfl
  | assign => exact List.prefix_rfl

theorem prefix_foldl_onPaths (operations : List PathOperation) (paths : List ModulePath) :
    paths <+: operations.foldl (fun paths operation => operation.onPaths paths) paths := by
  induction operations generalizing paths with
  | nil => exact List.prefix_rfl
  | cons operation rest induction =>
      exact (prefix_onPaths operation paths).trans (induction (operation.onPaths paths))

theorem isSound_ofPath (path : ModulePath) :
    (ofPath path).IsSound ∧ (ofPath path).shown = [path] := by
  have stored := holds_store (Memory.mk []) path
  refine ⟨⟨?_, by simp [ofPath], by simp [ofPath]⟩, ?_⟩
  · simpa [ofPath] using stored.1
  · simpa [ofPath, shown] using stored.2

end PathTable

end UnoBindgen
