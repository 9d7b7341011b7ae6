import UnoBindgen.FileStore
import UnoBindgen.Settings.File
import UnoBindgen.Settings.Lenient

/-!
# Layers of settings

Settings come from several places, later ones overriding earlier ones: the defaults, the file of
the system, the file of the user, the file of the project, and the environment.  The project's file
is the nearest one upwards from the working directory.  A file that cannot be read or has no
meaning is passed over.

Keys are dotted and compared in lower case.  Values are found by key: in the environment first,
then in the merged files, then among the defaults.  A plain value under the start of a dotted key
hides everything below that start in the layers under it.
-/

namespace UnoBindgen

/-- What the program finds around it. -/
structure Surroundings where
  store : FileStore
  /-- The directory of the user. -/
  home : Text
  /-- The environment variables and their contents. -/
  environment : List (Text × Text)

namespace Settings

/-! ## Dotted keys -/

/-- A key below an outer one. -/
def keyBelow (outer key : Text) : Text :=
  if outer.isEmpty then key else outer ++ "." ++ key

mutual

/-- The values in a value that are no tables, by their dotted keys. -/
def leavesOfValue (key : Text) : Toml.Value → List (Text × Toml.Value)
  | .table entries => leaves key entries
  | value => [(key, value)]

/-- The values in a table that are no tables, by their dotted keys. -/
def leaves (outer : Text) : List (Text × Toml.Value) → List (Text × Toml.Value)
  | [] => []
  | (key, value) :: rest => leavesOfValue (keyBelow outer key) value ++ leaves outer rest

end

/-- The dotted keys of the values in a table. -/
def leafKeys (table : Toml.Table) : List Text :=
  (leaves [] table).map Prod.fst

/-- The proper starts of a dotted key, the shortest first. -/
def properStarts (path : List Text) : List Text :=
  (List.range (path.length - 1)).map fun count => Text.join ['.'] (path.take (count + 1))

/-- A table with a value under a path of keys.  What is in the way of the path gives way. -/
def putPath (value : Toml.Value) : List Text → Toml.Table → Toml.Table
  | [], table => table
  | [key], table => Toml.Table.put key value table
  | key :: rest, table =>
    Toml.Table.put key (.table (putPath value rest (Toml.Table.inner key table))) table

/-- The table that has given values under dotted keys. -/
def nested (values : List (Text × Toml.Value)) : Toml.Table :=
  values.foldl (fun table (key, value) => putPath value (key.splitAt '.') table) []

mutual

/-- A value with all its keys in lower case. -/
def lowerValue : Toml.Value → Toml.Value
  | .array items => .array (lowerItems items)
  | .table entries => .table (lowerEntries entries)
  | value => value

/-- The items of a list with all their keys in lower case. -/
def lowerItems : List Toml.Value → List Toml.Value
  | [] => []
  | item :: rest => lowerValue item :: lowerItems rest

/-- The entries of a table with all their keys in lower case. -/
def lowerEntries : List (Text × Toml.Value) → List (Text × Toml.Value)
  | [] => []
  | (key, value) :: rest => (key.toLower, lowerValue value) :: lowerEntries rest

end

mutual

/-- A value brought over an existing one.  Tables are merged, and a table is not given up for
anything else. -/
def mergeValue : Toml.Value → Option Toml.Value → Toml.Value
  | .table entries, some (.table existing) => .table (mergeEntries entries existing)
  | _, some (.table existing) => .table existing
  | value, _ => value

/-- Entries brought over a table. -/
def mergeEntries : List (Text × Toml.Value) → Toml.Table → Toml.Table
  | [], table => table
  | (key, value) :: rest, table =>
    mergeEntries rest (Toml.Table.put key (mergeValue value (table.lookup key)) table)

end

/-! ## Finding values -/

/-- What a key leads to in a value: an entry of a table or, by its number, an item of a list. -/
def step (value : Toml.Value) (key : Text) : Option Toml.Value :=
  match value with
  | .table entries => entries.lookup key
  | .array items =>
    match key.decimalWord? with
    | some index => if index < 0 then none else items[index.toNat]?
    | none => none
  | _ => none

/-- What a path leads to in a value.  A key may itself contain dots, and longer keys are tried
first. -/
def search (value : Toml.Value) (path : List Text) : Option Toml.Value :=
  match path with
  | [] => some value
  | first :: rest =>
    (List.range (first :: rest).length).reverse.findSome? fun count =>
      match step value (Text.join ['.'] ((first :: rest).take (count + 1))) with
      | some next => search next (rest.drop count)
      | none => none
termination_by path.length
decreasing_by simp only [List.length_cons, List.length_drop]; omega

/-- What a path of keys without dots leads to in a table. -/
def follow : List Text → Toml.Table → Option Toml.Value
  | [], table => some (.table table)
  | [key], table => table.lookup key
  | key :: rest, table =>
    match table.lookup key with
    | some (.table entries) => follow rest entries
    | _ => none

/-- Whether a value that is no table stands under a proper start of a path. -/
def isHidden : List Text → Toml.Table → Bool
  | [], _ => false
  | [_], _ => false
  | key :: rest, table =>
    match table.lookup key with
    | some (.table entries) => isHidden rest entries
    | some _ => true
    | none => false

/-- The override of a key by the environment.  An empty variable overrides nothing. -/
def override? (environment : List (Text × Text)) (key : Text) : Option Text :=
  (environment.lookup (Setting.environmentVariable key)).filter fun content => !content.isEmpty

/-- Where a value comes from. -/
inductive Source where
  | default
  | system
  | user
  | project
  | environment
  deriving DecidableEq, Repr

/-- The name of a source. -/
def Source.name : Source → Text
  | .default => "default"
  | .system => "system"
  | .user => "user"
  | .project => "project"
  | .environment => "environment"

/-- The source of a value, and the file or variable it comes from. -/
structure Origin where
  source : Source
  path : Text
  deriving DecidableEq, Repr

/-- Values in layers: files over defaults. -/
structure Layers where
  defaults : Toml.Table
  /-- The merged values of the files, with keys in lower case. -/
  files : Toml.Table
  /-- The origins of the values of the files by their keys, the latest first. -/
  origins : List (Text × Origin)

namespace Layers

/-- The value under a dotted key in lower case. -/
def find? (layers : Layers) (environment : List (Text × Text)) (key : Text) :
    Option Toml.Value :=
  let path := key.splitAt '.'
  match override? environment key with
  | some content => some (.text content)
  | none =>
    if (properStarts path).any fun start => (override? environment start).isSome then
      none
    else
      match search (.table layers.files) path with
      | some value => some value
      | none => if isHidden path layers.files then none else follow path layers.defaults

/-- The dotted keys of all values in files and defaults. -/
def keys (layers : Layers) : List Text :=
  let ofFiles := leafKeys layers.files
  let ofDefaults :=
    (leafKeys layers.defaults).filter fun key =>
      !(properStarts (key.splitAt '.')).any fun start => ofFiles.contains start
  Text.distinct (ofFiles ++ ofDefaults)

/-- All values as they take effect. -/
def effective (layers : Layers) (environment : List (Text × Text)) : Toml.Table :=
  nested
    (layers.keys.filterMap fun key =>
      (layers.find? environment key).map fun value => (key, value))

/-- The settings as they take effect. -/
def settings (layers : Layers) (environment : List (Text × Text)) : Except Fault Settings :=
  Settings.ofDocument (layers.effective environment)

/-! ## Gathering files -/

/-- The layers of one document over defaults. -/
def ofDocument (defaults document : Toml.Table) : Layers :=
  ⟨defaults, lowerEntries document, []⟩

/-- Bring the values of one more file over the layers. -/
def add (layers : Layers) (document : Toml.Table) (origin : Origin) : Layers :=
  let values := (ofDocument [] document).effective []
  { layers with
    files := mergeEntries values layers.files
    origins := (leafKeys values).map (fun key => (key, origin)) ++ layers.origins }

end Layers

/-- The directories from a place upwards to the root. -/
def upwards (place : Place) : List Place :=
  (List.range (place.length + 1)).reverse.map fun count => place.take count

/-- The file of settings of the project: the nearest one upwards from the working directory. -/
def projectFile? (store : FileStore) : Option Text :=
  ((upwards store.workingDirectory).map fun directory =>
    Text.SlashPath.ofSegments true (directory ++ [fileName])).find? fun path =>
      (store.stat path).toOption.isSome

/-- The files of settings that are looked for, the weakest first. -/
def candidates (surroundings : Surroundings) : List Origin :=
  [ ⟨.system, "/etc/hsuno/hsuno.toml"⟩,
    ⟨.user, Text.SlashPath.join [surroundings.home, ".hsuno", fileName]⟩ ] ++
  (match projectFile? surroundings.store with
    | some path => [⟨.project, path⟩]
    | none => [])

/-- The layers that the surroundings hold. -/
def Layers.gather (surroundings : Surroundings) : Layers :=
  (candidates surroundings).foldl
    (fun layers origin =>
      match surroundings.store.read origin.path with
      | .error _ => layers
      | .ok content =>
        match Toml.parse .established content with
        | .error _ => layers
        | .ok document => layers.add document origin)
    ⟨Settings.default.document, [], []⟩

/-- The settings of one file over the defaults, whatever the environment says. -/
def ofFile (store : FileStore) (path : Text) : Except Fault Settings :=
  match store.read path with
  | .error fault => .error (.within ("failed to read config file " ++ path) fault)
  | .ok content =>
    match Toml.parse .established content with
    | .error problem =>
      .error
        (.within ("failed to read config file " ++ path)
          (.external ("While parsing config: toml: " ++ problem.text) false))
    | .ok document =>
      match (Layers.ofDocument Settings.default.document document).settings [] with
      | .ok settings => .ok settings
      | .error fault => .error (.within ("config " ++ path) fault)

/-! ## Listing values -/

/-- A value in effect with its key and its origin. -/
structure Listed where
  key : Text
  value : Toml.Value
  origin : Origin

/-- The origin of a key.  A variable counts even when it is empty. -/
def Layers.origin (layers : Layers) (environment : List (Text × Text)) (key : Text) : Origin :=
  let variableName := Setting.environmentVariable key
  if (environment.lookup variableName).isSome then
    ⟨.environment, variableName⟩
  else
    (layers.origins.lookup key).getD ⟨.default, "built-in default"⟩

/-- All values in effect, sorted by their keys table by table. -/
def Layers.list (layers : Layers) (environment : List (Text × Text)) : List Listed :=
  (leaves [] (Toml.sortEntries (layers.effective environment))).map fun (key, value) =>
    ⟨key, value, layers.origin environment key⟩

/-! ## Remembering -/

/-- What has been gathered and loaded already.  Files are read once and settings are loaded once;
single values still follow the environment. -/
structure Memory where
  layers : Option Layers
  settings : Option Settings

namespace Memory

/-- Nothing is remembered. -/
def empty : Memory := ⟨none, none⟩

/-- The layers, gathered unless they are remembered. -/
def gathered (memory : Memory) (surroundings : Surroundings) : Layers :=
  memory.layers.getD (Layers.gather surroundings)

/-- Load the settings. -/
def load (memory : Memory) (surroundings : Surroundings) : Except Fault Settings × Memory :=
  match memory.settings with
  | some settings => (.ok settings, memory)
  | none =>
    let layers := memory.gathered surroundings
    match layers.settings surroundings.environment with
    | .ok settings => (.ok settings, ⟨some layers, some settings⟩)
    | .error fault => (.error fault, ⟨some layers, none⟩)

/-- Find the value of a key, written in any case. -/
def find? (memory : Memory) (surroundings : Surroundings) (key : Text) :
    Option Toml.Value × Memory :=
  let layers := memory.gathered surroundings
  (layers.find? surroundings.environment key.toLower, { memory with layers := some layers })

/-- List all values in effect. -/
def list (memory : Memory) (surroundings : Surroundings) :
    Except Fault (List Listed) × Memory :=
  match memory.load surroundings with
  | (.error fault, next) =>
    (.error (.within "failed to load config for introspection" fault), next)
  | (.ok _, next) =>
    let layers := next.gathered surroundings
    (.ok (layers.list surroundings.environment), { next with layers := some layers })

end Memory

end Settings

end UnoBindgen
