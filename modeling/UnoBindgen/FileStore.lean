import UnoBindgen.Fault
import UnoBindgen.Text.SlashPath

/-!
# File stores

A file store is a tree of files and directories as a value.  Every change gives a new store, so
what an operation leaves alone can be stated as an equation.

There are two manners of answering.  A store in memory never lacks a directory: whatever a file
needs above it comes into being, and a file that is given entries becomes a directory.  A store on
disk refuses what the operating system would refuse; it follows a path name by name, so that every
directory on the way has to be there, even when the next name is a step upwards.  On top of that any
operation at any place may be refused by `refusal`, which is how read-only views and failing devices
are described.

An operation that changes a store gives the store it leaves, also when it fails: a write may fail
after the file was emptied, and directories are made one after the other from the top.
-/

namespace UnoBindgen

/-- A place in the tree: the names on the way down from the root. -/
abbrev Place : Type := List Text

/-- A file or a directory. -/
structure FileNode where
  content : Text
  isDirectory : Bool
  deriving DecidableEq, Repr

/-- A file with a content. -/
def FileNode.file (content : Text) : FileNode := ⟨content, false⟩

/-- A directory. -/
def FileNode.directory : FileNode := ⟨[], true⟩

/-- How a store answers. -/
inductive Manner where
  | memory
  | disk
  deriving DecidableEq, Repr

/-- What is done at a place. -/
inductive FileAction where
  | read
  | list
  | write
  | makeDirectory
  | remove
  | rename
  deriving DecidableEq, Repr

/-- A tree of files and directories. -/
structure FileStore where
  manner : Manner
  /-- Where relative paths start. -/
  workingDirectory : Place
  nodes : List (Place × FileNode)
  /-- Why an action at a place is refused, if it is. -/
  refusal : FileAction → Place → Option Fault
  /-- What a refused write leaves in the file at a place, if it came as far as to open it. -/
  remnant : Place → Option Text

namespace FileStore

/-- An empty store that refuses nothing. -/
def empty (manner : Manner) (workingDirectory : Place) : FileStore :=
  ⟨manner, workingDirectory, [], fun _ _ => none, fun _ => none⟩

/-- The place that a path names, as far as its text tells: whether a path can be followed there is a
matter of `hindrance?`. -/
def place (store : FileStore) (path : Text) : Place :=
  if Text.SlashPath.isRooted path then
    Text.SlashPath.resolveSegments true (path.splitAt '/')
  else
    Text.SlashPath.resolveSegments true (store.workingDirectory ++ path.splitAt '/')

/-- What is at a place.  The root is always a directory. -/
def node? (store : FileStore) (place : Place) : Option FileNode :=
  match place with
  | [] => some .directory
  | _ => store.nodes.lookup place

/-- Put a node at a place. -/
def put (store : FileStore) (place : Place) (node : FileNode) : FileStore :=
  if (store.nodes.lookup place).isSome then
    { store with
      nodes := store.nodes.map fun entry => if entry.1 == place then (place, node) else entry }
  else
    { store with nodes := store.nodes ++ [(place, node)] }

/-- Take away what is at a place. -/
def erase (store : FileStore) (place : Place) : FileStore :=
  { store with nodes := store.nodes.filter fun entry => !(entry.1 == place) }

/-! ## Refusals of the operating system -/

/-- The path as an error names it: a store in memory shows it cleaned. -/
def shownPath (store : FileStore) (path : Text) : Text :=
  match store.manner with
  | .memory => Text.SlashPath.clean path
  | .disk => path

/-- An action on a path that failed for a reason. -/
def failure (store : FileStore) (action path reason : Text) (missing : Bool) : Fault :=
  .external (action ++ " " ++ store.shownPath path ++ ": " ++ reason) missing

/-- A file that is not there. -/
def absence (store : FileStore) (action path : Text) : Fault :=
  match store.manner with
  | .memory => store.failure action path "file does not exist" true
  | .disk => store.failure action path "no such file or directory" true

/-! ## Following paths -/

/-- Why a path leads nowhere. -/
inductive Hindrance where
  /-- A directory on the way is not there, or the path is empty. -/
  | missing
  /-- Something on the way is a file. -/
  | noDirectory
  deriving DecidableEq, Repr

/-- Where a segment of a path leads from a place. -/
def follow (above : Place) (segment : Text) : Place :=
  Text.SlashPath.resolveSegments true (above ++ [segment])

/-- What is met first on the way from a place that one cannot go on from. -/
def obstacle? (store : FileStore) : Place → List Text → Option Hindrance
  | _, [] => none
  | above, segment :: rest =>
    match store.node? above with
    | none => some .missing
    | some node =>
      if node.isDirectory then obstacle? store (follow above segment) rest else some .noDirectory

/-- Where a path is followed from: the root, or the working directory. -/
def origin (store : FileStore) (path : Text) : Place :=
  if Text.SlashPath.isRooted path then [] else store.place []

/-- Why a path cannot be followed, if it cannot.  In memory a path is its place. -/
def hindrance? (store : FileStore) (path : Text) : Option Hindrance :=
  match store.manner with
  | .memory => none
  | .disk =>
    if path.isEmpty then some .missing else store.obstacle? (store.origin path) (path.splitAt '/')

/-- A path that could not be followed. -/
def hindered (store : FileStore) (action path : Text) : Hindrance → Fault
  | .missing => store.absence action path
  | .noDirectory => store.failure action path "not a directory" false

/-- What a path leads to. -/
def find (store : FileStore) (action path : Text) : Except Fault FileNode :=
  match store.hindrance? path, store.node? (store.place path) with
  | some hindrance, _ => .error (store.hindered action path hindrance)
  | none, none => .error (store.absence action path)
  | none, some node => .ok node

/-! ## Reading -/

/-- The content of a file. -/
def read (store : FileStore) (path : Text) : Except Fault Text :=
  match store.refusal .read (store.place path) with
  | some fault => .error fault
  | none =>
    match store.find "open" path with
    | .error fault => .error fault
    | .ok node =>
      if store.manner = .disk ∧ node.isDirectory then
        .error (store.failure "read" path "is a directory" false)
      else
        .ok node.content

/-- What is at a path, without looking into it. -/
def stat (store : FileStore) (path : Text) : Except Fault FileNode :=
  store.find "stat" path

/-- Whether something is at a path.  It is not known when the way to it leads through a file. -/
def contains (store : FileStore) (path : Text) : Except Fault Bool :=
  match store.stat path with
  | .ok _ => .ok true
  | .error fault => if fault.isMissingFile then .ok false else .error fault

/-- Whether all names on the way down to a place lead through directories. -/
def isReachable (store : FileStore) : Place → Place → Bool
  | _, [] => true
  | _, [_] => true
  | above, name :: rest =>
    match store.node? (above ++ [name]) with
    | some node => node.isDirectory && isReachable store (above ++ [name]) rest
    | none => false

/-! ## Walking -/

/-- The way from a directory down to a place below it. -/
def below? : Place → Place → Option Place
  | [], place => some place
  | _ :: _, [] => none
  | name :: directory, other :: place =>
    if name = other then below? directory place else none

/-- The name of a place that is right below a directory. -/
def nameBelow? (directory place : Place) : Option Text :=
  match below? directory place with
  | some [name] => some name
  | _ => none

/-- The names of what is right below a directory, sorted. -/
def names (store : FileStore) (directory : Place) : List Text :=
  Text.sort (store.nodes.filterMap fun (place, _) => nameBelow? directory place)

/-- The length of the longest way down from the root. -/
def depth (store : FileStore) : Nat :=
  store.nodes.foldl (fun longest (place, _) => max longest place.length) 0

/-- The paths of the files at a place and below it, as far down as is given.  The first directory
that cannot be listed ends the walk. -/
def walkFrom (store : FileStore) : Nat → Text → Place → Except Fault (List Text)
  | levels, path, place =>
    match store.node? place with
    | none => .error (store.absence "lstat" path)
    | some node =>
      if node.isDirectory then
        match store.refusal .list place with
        | some fault => .error fault
        | none =>
          match levels with
          | 0 => .ok []
          | levels + 1 => do
            let files ← (store.names place).mapM fun name =>
              walkFrom store levels (Text.SlashPath.join [path, name]) (place ++ [name])
            return files.flatten
      else
        .ok [path]

/-- The paths of the files at a path and below it. -/
def walk (store : FileStore) (path : Text) : Except Fault (List Text) :=
  match store.find "lstat" path with
  | .error fault => .error fault
  | .ok _ => store.walkFrom store.depth path (store.place path)

/-! ## Writing -/

/-- See to it that a place, given by its reversed names, is a directory; what is missing above
it comes into being too. -/
def adopt : Place → FileStore → FileStore
  | [], store => store
  | name :: above, store =>
    let place := (name :: above).reverse
    match store.node? place with
    | some node => store.put place { node with isDirectory := true }
    | none => adopt above (store.put place .directory)

/-- Why a file cannot be opened for writing. -/
def writeObstacle? (store : FileStore) (path : Text) : Option Fault :=
  match store.hindrance? path with
  | some hindrance => some (store.hindered "open" path hindrance)
  | none =>
    match store.manner, store.node? (store.place path) with
    | .disk, some node =>
      if node.isDirectory then some (store.failure "open" path "is a directory" false) else none
    | _, _ => none

/-- The store with a file written.  What was at its place keeps its standing. -/
def withContent (store : FileStore) (place : Place) (content : Text) : FileStore :=
  match store.node? place with
  | some node => store.put place { node with content := content }
  | none => adopt place.dropLast.reverse (store.put place (.file content))

/-- What an attempt at a change comes to: the store that it leaves, and why it failed if it did. -/
abbrev Attempt : Type := FileStore × Option Fault

/-- Write a file.  A write that is refused may have opened the file before. -/
def write (store : FileStore) (path content : Text) : Attempt :=
  let place := store.place path
  match store.refusal .write place, store.writeObstacle? path with
  | none, none => (store.withContent place content, none)
  | none, some fault => (store, some fault)
  | some fault, some _ => (store, some fault)
  | some fault, none =>
    match store.remnant place with
    | none => (store, some fault)
    | some rest => (store.withContent place rest, some fault)

/-- The paths of a directory and of all that are above it, from the top down. -/
def ancestors (path : Text) : List Text :=
  let rooted := Text.SlashPath.isRooted path
  let names := Text.SlashPath.segments path
  (List.range names.length).map fun count =>
    Text.SlashPath.ofSegments rooted (names.take (count + 1))

/-- The store with a directory, and all that are above it. -/
def withDirectories (store : FileStore) (place : Place) : FileStore :=
  match store.node? place with
  | some _ => store
  | none => adopt place.reverse store

/-- Whether a directory stops the making of directories, and why: a file is there, or nothing is and
it cannot be made. -/
def stop? (store : FileStore) (path : Text) : Option Fault :=
  match store.node? (store.place path) with
  | some node =>
    if node.isDirectory then none else some (store.failure "mkdir" path "not a directory" false)
  | none => store.refusal .makeDirectory (store.place path)

/-- The first of the directories above a path, from the top down, at which the making of directories
stops.  In memory it never does. -/
def firstStop? (store : FileStore) (path : Text) : Option (Text × Fault) :=
  match store.manner with
  | .memory => none
  | .disk => (ancestors path).findSome? fun ancestor => (store.stop? ancestor).map (ancestor, ·)

/-- Make a directory and all that are above it.  A directory that is there is fine.  On disk they are
made one after the other, and a failure leaves those that were made before it. -/
def makeDirectories (store : FileStore) (path : Text) : Attempt :=
  let place := store.place path
  match store.firstStop? path, store.refusal .makeDirectory place with
  | some (ancestor, fault), _ =>
    (store.withDirectories (store.place ancestor).dropLast, some fault)
  | none, some fault => (store, some fault)
  | none, none => (store.withDirectories place, none)

/-- Make one directory.  Its place has to be free, and on disk what is above it has to be there. -/
def makeDirectory (store : FileStore) (path : Text) : Attempt :=
  let place := store.place path
  match store.hindrance? path, store.node? place, store.refusal .makeDirectory place with
  | some hindrance, _, _ => (store, some (store.hindered "mkdir" path hindrance))
  | none, some _, _ => (store, some (store.failure "mkdir" path "file exists" false))
  | none, none, some fault => (store, some fault)
  | none, none, none => (store.withDirectories place, none)

/-- Remove a file. -/
def remove (store : FileStore) (path : Text) : Attempt :=
  match store.refusal .remove (store.place path), store.find "remove" path with
  | some fault, _ => (store, some fault)
  | none, .error fault => (store, some fault)
  | none, .ok _ => (store.erase (store.place path), none)

/-- Give a file another name; what had that name before is gone. -/
def rename (store : FileStore) (source target : Text) : Attempt :=
  let lost (fault : Fault) : Fault :=
    .external
      ("rename " ++ source ++ " " ++ target ++
        if fault.isMissingFile then ": no such file or directory" else ": not a directory")
      fault.isMissingFile
  match store.refusal .rename (store.place source), store.find "rename" source,
      store.hindrance? target with
  | some fault, _, _ => (store, some fault)
  | none, .error fault, _ => (store, some (lost fault))
  | none, .ok _, some hindrance => (store, some (lost (store.hindered "rename" target hindrance)))
  | none, .ok node, none =>
    ((store.erase (store.place source)).put (store.place target) node, none)

/-! ## Views -/

/-- What a read-only store answers to every change. -/
def notPermitted : Fault := .external "operation not permitted" false

/-- The same files, with every change refused. -/
def readOnly (store : FileStore) : FileStore :=
  { store with
    refusal := fun action _ =>
      match action with
      | .read => none
      | .list => none
      | _ => some notPermitted
    remnant := fun _ => none }

/-- The paths and contents of all files that can be reached. -/
def allFiles (store : FileStore) : List (Text × Text) :=
  store.nodes.filterMap fun (place, node) =>
    if node.isDirectory = false ∧ store.isReachable [] place then
      some ('/' :: Text.join ['/'] place, node.content)
    else
      none

end FileStore

end UnoBindgen
