import UnoBindgen.FileStore
import UnoBindgen.Log
import UnoBindgen.Naming

/-!
# The tree of generated files

An output tree places the three artifacts of each entity below its root, and remembers which files
it wrote and which it found as they should be.  A file whose content is right is not touched.
-/

namespace UnoBindgen

/-- The generated files below a root, with what happened to them so far, the latest first. -/
structure OutputTree where
  root : Text
  written : List Text
  unchanged : List Text
  deriving DecidableEq, Repr

namespace OutputTree

/-- A tree in which nothing has happened. -/
def start (root : Text) : OutputTree := ⟨root, [], []⟩

/-- The path of a file of the tree. -/
def path (tree : OutputTree) (relative : Text) : Text :=
  Text.SlashPath.join [tree.root, relative]

/-- The written files, sorted. -/
def sortedWritten (tree : OutputTree) : List Text :=
  Text.sort tree.written

/-- The files that were left alone, sorted. -/
def sortedUnchanged (tree : OutputTree) : List Text :=
  Text.sort tree.unchanged

/-- Note that a file was written. -/
def noteWritten (tree : OutputTree) (relative : Text) : OutputTree :=
  { tree with written := relative :: tree.written }

/-- Note that a file was left alone. -/
def noteUnchanged (tree : OutputTree) (relative : Text) : OutputTree :=
  { tree with unchanged := relative :: tree.unchanged }

/-- A store and a tree inside of it. -/
structure State where
  store : FileStore
  tree : OutputTree

/-- Write one file, and note it once it has its content. -/
def State.overwrite (state : State) (relative content : Text) : State × Option Fault :=
  let path := state.tree.path relative
  match state.store.write path content with
  | (store, some fault) => (⟨store, state.tree⟩, some (.within ("failed to write " ++ path) fault))
  | (store, none) => (⟨store, state.tree.noteWritten relative⟩, none)

/-- Bring one file to its content: read it, compare, and write it unless it is right. -/
def State.writeFile (state : State) (relative content : Text) : State × Option Fault :=
  let path := state.tree.path relative
  match state.store.read path with
  | .ok existing =>
    if existing = content then (⟨state.store, state.tree.noteUnchanged relative⟩, none)
    else state.overwrite relative content
  | .error fault =>
    if fault.isMissingFile then state.overwrite relative content
    else (state, some (.within ("failed to read " ++ path) fault))

/-- Bring the files of the remaining artifacts to their contents, up to the first that fails.
What was done before stays done. -/
def State.writeArtifacts (names : Names) (texts : Texts) :
    List Artifact → State → State × Option Fault
  | [], state => (state, none)
  | artifact :: rest, state =>
    match state.writeFile (names.artifactPath artifact) (texts.get artifact) with
    | (left, some fault) => (left, some fault)
    | (next, none) => State.writeArtifacts names texts rest next

/-- The outcome of placing an entity: the state it leaves, and the paths or what went wrong. -/
structure Outcome where
  state : State
  result : Except Fault (List Text)

/-- Make the directory of an entity, unless there is nothing to place in it. -/
def State.prepare (state : State) (names : Names) (texts : Texts) : State × Option Fault :=
  if texts.isEmpty then
    (state, some (.assertion ("entity " ++ names.fullName ++ " produced no artifacts")))
  else
    let directory := state.tree.path names.directory
    match state.store.makeDirectories directory with
    | (store, some fault) =>
      (⟨store, state.tree⟩, some (.within ("failed to create " ++ directory) fault))
    | (store, none) => (⟨store, state.tree⟩, none)

/-- Place the artifacts of an entity.  Their directory is made first. -/
def State.write (state : State) (names : Names) (texts : Texts) : Outcome :=
  match state.prepare names texts with
  | (left, some fault) => ⟨left, .error fault⟩
  | (prepared, none) =>
    match State.writeArtifacts names texts Artifact.all prepared with
    | (next, some fault) => ⟨next, .error fault⟩
    | (next, none) => ⟨next, .ok (Artifact.all.map names.artifactPath)⟩

/-- What is logged about an entity that was placed. -/
def placedRecord (tree : OutputTree) (names : Names) : Log.Record :=
  Log.plainRecord .debug "Wrote entity artifacts"
    [ ("entity".toList, .text names.fullName),
      ("output".toList, .text (tree.path names.directory)) ]

end OutputTree

end UnoBindgen
