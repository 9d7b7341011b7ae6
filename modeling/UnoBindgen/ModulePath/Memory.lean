import UnoBindgen.ModulePath

/-!
# Module paths in memory

A module path keeps its segments in a slice, a window of an array that other slices may look into
as well.  Going down to a child copies the segments before it appends one, and whoever asks for
the segments is given a copy, so that nobody writes into the array of a path.

A `PathTable` holds the paths and the copies that a program has at hand.  `PathOperation` lists
what can be done with them: the operations of module paths, and assignments to a copy.
-/

namespace UnoBindgen

/-- The arrays of texts, in the order in which they were made. -/
structure Memory where
  arrays : List (List Text)
  deriving DecidableEq, Repr

/-- A slice that begins where its array begins.  It shows `length` elements and has room for
`capacity`; a slice without room has no array. -/
structure Slice where
  array : Nat
  length : Nat
  capacity : Nat
  deriving DecidableEq, Repr

/-- The slice that has never been assigned. -/
def Slice.empty : Slice := ⟨0, 0, 0⟩

namespace Memory

def array (memory : Memory) (index : Nat) : List Text :=
  memory.arrays[index]?.getD []

def withArray (memory : Memory) (index : Nat) (elements : List Text) : Memory :=
  ⟨memory.arrays.set index elements⟩

/-- The elements that a slice shows. -/
def read (memory : Memory) (slice : Slice) : List Text :=
  (memory.array slice.array).take slice.length

/-- A slice of a new array that holds the elements. -/
def allocate (memory : Memory) (elements : List Text) : Slice × Memory :=
  (⟨memory.arrays.length, elements.length, elements.length⟩, ⟨memory.arrays ++ [elements]⟩)

/-- A slice of a new array of empty texts. -/
def make (memory : Memory) (length capacity : Nat) : Slice × Memory :=
  (⟨memory.arrays.length, length, capacity⟩,
    ⟨memory.arrays ++ [List.replicate capacity []]⟩)

/-- Overwrite the first elements of a slice with those of another, as many as both show. -/
def copy (memory : Memory) (target source : Slice) : Memory :=
  let elements := (memory.read source).take target.length
  memory.withArray target.array
    (elements ++ (memory.array target.array).drop elements.length)

/-- The slice with an element behind it: in the same array while there is room, and else in a
new one. -/
def append (memory : Memory) (slice : Slice) (element : Text) : Slice × Memory :=
  if slice.length < slice.capacity then
    ({ slice with length := slice.length + 1 },
      memory.withArray slice.array ((memory.array slice.array).set slice.length element))
  else
    memory.allocate (memory.read slice ++ [element])

/-- Overwrite one of the elements that a slice shows. -/
def assign (memory : Memory) (slice : Slice) (position : Nat) (element : Text) : Memory :=
  if position < slice.length then
    memory.withArray slice.array ((memory.array slice.array).set position element)
  else
    memory

/-! ## The operations of module paths -/

/-- The path whose segments a slice shows. -/
def path (memory : Memory) (segments : Slice) : ModulePath :=
  ⟨memory.read segments⟩

/-- The segments of a path that has been read, in an array of their own.  The root has none. -/
def store (memory : Memory) (path : ModulePath) : Slice × Memory :=
  if path.isRoot then (Slice.empty, memory) else memory.allocate path.segments

/-- A copy of the segments. -/
def segments (memory : Memory) (path : Slice) : Slice × Memory :=
  let (copied, memory) := memory.make path.length path.length
  (copied, memory.copy copied path)

/-- The path of a module, or of an entity, inside the module. -/
def child (memory : Memory) (path : Slice) (segment : Text) : Slice × Memory :=
  let (copied, memory) := memory.make path.length (path.length + 1)
  (memory.copy copied path).append copied segment

/-- The enclosing module.  The root itself is given back, and a part of a copy otherwise. -/
def parent (memory : Memory) (path : Slice) : Slice × Memory :=
  if path.length = 0 then
    (path, memory)
  else
    let (copied, memory) := memory.segments path
    ({ copied with length := path.length - 1 }, memory)

end Memory

/-! ## Programs that use module paths -/

/-- The paths at hand and the copies of segments that were given out, each in the order in which
they were made. -/
structure PathTable where
  memory : Memory
  paths : List Slice
  copies : List Slice

/-- What a program does with one of its paths, or with one of its copies. -/
inductive PathOperation where
  | child (path : Nat) (segment : Text)
  | parent (path : Nat)
  | segments (path : Nat)
  | assign (copy position : Nat) (segment : Text)

namespace PathTable

/-- The paths at hand, as they read now. -/
def shown (table : PathTable) : List ModulePath :=
  table.paths.map table.memory.path

def withPath (table : PathTable) (made : Slice × Memory) : PathTable :=
  { table with memory := made.2, paths := table.paths ++ [made.1] }

def withCopy (table : PathTable) (made : Slice × Memory) : PathTable :=
  { table with memory := made.2, copies := table.copies ++ [made.1] }

/-- One operation.  There is nothing to do with a path or a copy that is not there. -/
def perform (table : PathTable) : PathOperation → PathTable
  | .child path segment =>
    match table.paths[path]? with
    | some path => table.withPath (table.memory.child path segment)
    | none => table
  | .parent path =>
    match table.paths[path]? with
    | some path => table.withPath (table.memory.parent path)
    | none => table
  | .segments path =>
    match table.paths[path]? with
    | some path => table.withCopy (table.memory.segments path)
    | none => table
  | .assign copy position segment =>
    match table.copies[copy]? with
    | some copy => { table with memory := table.memory.assign copy position segment }
    | none => table

/-- The table of a program that has read one path. -/
def ofPath (path : ModulePath) : PathTable :=
  let (stored, memory) := (Memory.mk []).store path
  ⟨memory, [stored], []⟩

end PathTable

/-- What an operation adds to the paths at hand, when paths are values. -/
def PathOperation.onPaths (operation : PathOperation) (paths : List ModulePath) :
    List ModulePath :=
  match operation with
  | .child path segment => paths ++ (paths[path]?.map fun path => path.child segment).toList
  | .parent path => paths ++ (paths[path]?.map ModulePath.parent).toList
  | .segments _ => paths
  | .assign _ _ _ => paths

end UnoBindgen
