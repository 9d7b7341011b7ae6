import UnoBindgen.Log
import UnoBindgen.Registry
import UnoBindgen.SemanticVersion
import UnoBindgen.Text.SlashPath
import UnoBindgen.Toml.Document
import UnoBindgen.Yaml.Decode

/-!
# Schemas

A schema file lists entities under a version.  It is written in YAML or in TOML, which the name
of the file tells.  Either is read into plain records first, and the records are then turned into
entities: `Schema.entityOfRecord` gives a consistent entity or says what is wrong, and a schema is
accepted as a whole or not at all.
-/

namespace UnoBindgen.Schema

/-- A parameter or a member, as written. -/
structure FieldRecord where
  name : Text := []
  type : Text := []
  deriving DecidableEq, Repr

/-- A method, as written. -/
structure MethodRecord where
  name : Text := []
  returns : Text := []
  parameters : List FieldRecord := []
  deriving DecidableEq, Repr

/-- An entity, as written. -/
structure EntityRecord where
  name : Text := []
  module : Text := []
  kind : Text := []
  methods : List MethodRecord := []
  members : List FieldRecord := []
  base : Text := []
  deriving DecidableEq, Repr

/-- A schema file, as written. -/
structure FileRecord where
  version : Text := []
  entities : List EntityRecord := []
  deriving DecidableEq, Repr

/-! ## Records in YAML -/

/-- Read a parameter or a member. -/
def fieldOfNode : Yaml.Node → Except Yaml.Problem (Option FieldRecord) :=
  Yaml.readRecord
    (fun name =>
      if name == "name".toList then
        some (Yaml.textField fun record text => { record with name := text })
      else if name == "type".toList then
        some (Yaml.textField fun record text => { record with type := text })
      else none)
    {}

/-- Read a method. -/
def methodOfNode : Yaml.Node → Except Yaml.Problem (Option MethodRecord) :=
  Yaml.readRecord
    (fun name =>
      if name == "name".toList then
        some (Yaml.textField fun record text => { record with name := text })
      else if name == "returns".toList then
        some (Yaml.textField fun record text => { record with returns := text })
      else if name == "parameters".toList then
        some (Yaml.listField fieldOfNode fun record items => { record with parameters := items })
      else none)
    {}

/-- Read an entity. -/
def entityOfNode : Yaml.Node → Except Yaml.Problem (Option EntityRecord) :=
  Yaml.readRecord
    (fun name =>
      if name == "name".toList then
        some (Yaml.textField fun record text => { record with name := text })
      else if name == "module".toList then
        some (Yaml.textField fun record text => { record with module := text })
      else if name == "kind".toList then
        some (Yaml.textField fun record text => { record with kind := text })
      else if name == "methods".toList then
        some (Yaml.listField methodOfNode fun record items => { record with methods := items })
      else if name == "members".toList then
        some (Yaml.listField fieldOfNode fun record items => { record with members := items })
      else if name == "base".toList then
        some (Yaml.textField fun record text => { record with base := text })
      else none)
    {}

/-- Read a schema file. -/
def fileOfNode : Yaml.Node → Except Yaml.Problem (Option FileRecord) :=
  Yaml.readRecord
    (fun name =>
      if name == "version".toList then
        some (Yaml.textField fun record text => { record with version := text })
      else if name == "entities".toList then
        some (Yaml.listField entityOfNode fun record items => { record with entities := items })
      else none)
    {}

/-- Read a schema file in YAML.  A text without any document is refused; a document that is null
is a schema without content. -/
def readYaml (content : Text) : Except Text FileRecord :=
  match Yaml.readDocument content with
  | .error problem => .error ("yaml: " ++ problem.text)
  | .ok none => .error "EOF"
  | .ok (some root) =>
    match fileOfNode root with
    | .error problem => .error ("yaml: " ++ problem.text)
    | .ok record => .ok (record.getD {})

/-! ## Records in TOML -/

/-- Whether two characters are equal up to case, where the first is an ASCII letter. -/
def foldsTo (known written : Char) : Bool :=
  known == written.toLower ||
    (known == 's' && written.toNat == 0x17f) || (known == 'k' && written.toNat == 0x212a)

/-- Whether a written key means a known one: the case of the letters says nothing. -/
def means (known written : Text) : Bool :=
  known.length == written.length && (known.zip written).all fun pair => foldsTo pair.1 pair.2

/-- The values that are written for a known key: what stands under the key itself, and behind it
what stands under its other spellings. -/
def valuesOf (table : Toml.Table) (known : String) : List Toml.Value :=
  let spelled := table.filter fun entry => means known.toList entry.1
  let (exactly, otherwise) := spelled.partition fun entry => entry.1 == known.toList
  (exactly ++ otherwise).map Prod.snd

/-- A text under a known key.  All spellings of the key have to hold a text. -/
def textOf (table : Toml.Table) (known : String) : Except Toml.Problem Text := do
  let texts ← (valuesOf table known).mapM fun
    | .text content => .ok content
    | _ => .error .mismatch
  return texts.headD []

/-- The records under a known key, which is an array of tables under each spelling. -/
def recordsOf {α : Type}
    (read : Toml.Table → Except Toml.Problem α)
    (table : Toml.Table)
    (known : String) :
    Except Toml.Problem (List α) := do
  let lists ← (valuesOf table known).mapM fun
    | .array items =>
      items.mapM fun item =>
        match item with
        | .table entries => read entries
        | _ => .error .mismatch
    | _ => .error .mismatch
  return lists.headD []

/-- Read a parameter or a member. -/
def fieldOfTable (table : Toml.Table) : Except Toml.Problem FieldRecord := do
  return { name := ← textOf table "name", type := ← textOf table "type" }

/-- Read a method. -/
def methodOfTable (table : Toml.Table) : Except Toml.Problem MethodRecord := do
  return {
    name := ← textOf table "name"
    returns := ← textOf table "returns"
    parameters := ← recordsOf fieldOfTable table "parameters" }

/-- Read an entity. -/
def entityOfTable (table : Toml.Table) : Except Toml.Problem EntityRecord := do
  return {
    name := ← textOf table "name"
    module := ← textOf table "module"
    kind := ← textOf table "kind"
    methods := ← recordsOf methodOfTable table "methods"
    members := ← recordsOf fieldOfTable table "members"
    base := ← textOf table "base" }

/-- Read a schema file. -/
def fileOfTable (table : Toml.Table) : Except Toml.Problem FileRecord := do
  return {
    version := ← textOf table "version"
    entities := ← recordsOf entityOfTable table "entities" }

/-- The keys that a schema file may have. -/
def knownKeys : List (List String) :=
  [ ["version"], ["entities"], ["entities", "name"], ["entities", "module"],
    ["entities", "kind"], ["entities", "methods"], ["entities", "members"], ["entities", "base"],
    ["entities", "members", "name"], ["entities", "members", "type"],
    ["entities", "methods", "name"], ["entities", "methods", "returns"],
    ["entities", "methods", "parameters"], ["entities", "methods", "parameters", "name"],
    ["entities", "methods", "parameters", "type"] ]

/-- Whether a written key is one of the known ones. -/
def isKnownKey (path : Toml.KeyPath) : Bool :=
  knownKeys.any fun known =>
    known.length == path.length && (known.zip path).all fun pair => means pair.1.toList pair.2

/-- Read a schema file in TOML, with the unknown keys in the order of the file. -/
def readToml (content : Text) : Except Text (FileRecord × List Toml.KeyPath) :=
  let read : Except Toml.Problem (FileRecord × List Toml.KeyPath) := do
    let statements ← Toml.statements .newer content
    let record ← fileOfTable (← Toml.tableOf statements)
    return (record,
      (Toml.writtenKeys [] statements).filter fun path => !isKnownKey path)
  match read with
  | .ok result => .ok result
  | .error problem => .error ("toml: " ++ problem.text)

/-! ## Schemas -/

/-- The major version of the schemas that can be read. -/
def supportedMajor : Nat := 1

/-- How the supported versions are described. -/
def supportedVersions : Text := "^1.0"

/-- The entity that a record describes, with the part that belongs to its kind. -/
def describedEntity (record : EntityRecord) (module : ModulePath) (kind : Kind) : Entity :=
  let field (written : FieldRecord) : Field := ⟨written.name, ⟨written.type⟩⟩
  let method (written : MethodRecord) : Method :=
    { name := written.name
      returns := if written.returns = [] then .void else ⟨written.returns⟩
      parameters := written.parameters.map field }
  { name := record.name
    module := module
    tag := .known kind
    methods? := if kind = .interface then some (record.methods.map method) else none
    members? := if kind = .exception then some (record.members.map field) else none
    base? :=
      if kind = .interfaceSingleton ∨ kind = .serviceSingleton then some record.base else none }

/-- The entity that a record describes, if it is consistent.  The module is looked at before the
kind. -/
def entityOfRecord (record : EntityRecord) : Except Fault Entity := do
  let module ← ModulePath.parse record.module
  let kind ←
    match Kind.parse record.kind with
    | .ok kind => .ok kind
    | .error fault => .error (.within ("entity " ++ record.name.quote) fault)
  let entity := describedEntity record module kind
  entity.check
  return entity

/-- The version that a file declares, if it is supported. -/
def versionOfText (written : Text) : Except Fault SemanticVersion :=
  if written = [] then
    .error (.hinted "add version: \"1.0\" at the top of the schema"
      (.invalidSchema "missing version"))
  else
    match SemanticVersion.parse written with
    | .error problem =>
      .error (.invalidSchema ("invalid version " ++ written.quote ++ ": " ++ problem.text))
    | .ok version =>
      if version.isReleaseOf supportedMajor then
        .ok version
      else
        .error (.invalidSchema
          ("schema version " ++ version.name ++ " does not satisfy " ++ supportedVersions))

end Schema

/-- A schema: where it came from, its version, and its entities in the order of the file. -/
structure Schema where
  source : Text
  version : SemanticVersion
  entities : List Entity
  deriving DecidableEq, Repr

namespace Schema

/-- The schema that a file describes: its version is looked at first, and then one entity after
the other. -/
def ofRecord (source : Text) (record : FileRecord) : Except Fault Schema := do
  let version ← versionOfText record.version
  let entities ← record.entities.mapM entityOfRecord
  return ⟨source, version, entities⟩

/-- What is logged about keys that a schema does not know. -/
def unknownKeysRecord (source : Text) (keys : List Toml.KeyPath) : List Log.Record :=
  if keys.isEmpty then
    []
  else
    [ Log.plainRecord .warn "Schema has unknown keys"
        [("schema".toList, .text source), ("keys".toList, .texts (keys.map Toml.showKey))] ]

/-- A file that cannot be decoded. -/
def undecodable (source reason : Text) : Fault :=
  .within ("failed to decode " ++ source) (.invalidSchema reason)

/-- Put the name of the schema in front of a fault. -/
def ofDecoded (source : Text) (record : FileRecord) : Except Fault Schema :=
  match ofRecord source record with
  | .ok schema => .ok schema
  | .error fault => .error (.within ("schema " ++ source) fault)

/-- Read a schema from the content of a file, with what is logged on the way.  The extension of
the file tells the format. -/
def read (source content : Text) : Except Fault Schema × List Log.Record :=
  let extension := Text.SlashPath.extension source
  let format := extension.map Char.toLower
  if format = ".yaml".toList ∨ format = ".yml".toList then
    match readYaml content with
    | .error reason => (.error (undecodable source reason), [])
    | .ok record => (ofDecoded source record, [])
  else if format = ".toml".toList then
    match readToml content with
    | .error reason => (.error (undecodable source reason), [])
    | .ok (record, unknown) => (ofDecoded source record, unknownKeysRecord source unknown)
  else
    (.error (.hinted "use a .yaml, .yml or .toml schema file"
      (.invalidSchema ("unsupported schema format " ++ extension.quote))), [])

end Schema

end UnoBindgen
