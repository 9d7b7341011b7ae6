import UnoBindgen.Settings
import UnoBindgen.Toml.Print

/-!
# Settings as documents

A document of settings has a table for each section.  It is read strictly here: a value must have
the type of its setting, and a section must be a table.  Keys are compared without regard to
case, keys that name no setting are passed over, and what a document does not mention keeps the
value it had.
-/

namespace UnoBindgen

namespace Toml

/-- A table with a value under a key.  A key that is there keeps its position. -/
def Table.put (key : Text) (value : Value) : Table → Table
  | [] => [(key, value)]
  | (other, existing) :: rest =>
    if other = key then (key, value) :: rest
    else (other, existing) :: Table.put key value rest

/-- The inner table under a key; what is no table counts as an empty one. -/
def Table.inner (key : Text) (table : Table) : Table :=
  match table.lookup key with
  | some (.table entries) => entries
  | _ => []

end Toml

namespace Setting

/-- The types that settings have. -/
inductive Form where
  | text
  | number
  | truth
  deriving DecidableEq, Repr

/-- The type of a setting. -/
def form : Setting → Form
  | .workers => .number
  | .jsonLogs => .truth
  | _ => .text

/-- The setting with a name in a section. -/
def find? (sectionName name : Text) : Option Setting :=
  all.find? fun setting => setting.sectionName == sectionName && setting.name == name

/-- Whether a section has any setting. -/
def isSection (sectionName : Text) : Bool :=
  all.any fun setting => setting.sectionName == sectionName

end Setting

namespace Settings

/-- The value of a setting. -/
def value (settings : Settings) : Setting → Toml.Value
  | .outputRoot => .text settings.outputRoot
  | .symbolPrefix => .text settings.naming.symbolPrefix
  | .guardPrefix => .text settings.naming.guardPrefix
  | .guardSuffix => .text settings.naming.guardSuffix
  | .headerExtension => .text settings.naming.headerExtension
  | .sourceExtension => .text settings.naming.sourceExtension
  | .bindingExtension => .text settings.naming.bindingExtension
  | .nativeContext => .text settings.naming.nativeContext
  | .workers => .integer settings.workers
  | .jsonLogs => .truth settings.jsonLogs

/-- Settings with another text for one of them.  Settings of other types stay. -/
def withText (settings : Settings) (text : Text) : Setting → Settings
  | .outputRoot => { settings with outputRoot := text }
  | .symbolPrefix => { settings with naming := { settings.naming with symbolPrefix := text } }
  | .guardPrefix => { settings with naming := { settings.naming with guardPrefix := text } }
  | .guardSuffix => { settings with naming := { settings.naming with guardSuffix := text } }
  | .headerExtension =>
    { settings with naming := { settings.naming with headerExtension := text } }
  | .sourceExtension =>
    { settings with naming := { settings.naming with sourceExtension := text } }
  | .bindingExtension =>
    { settings with naming := { settings.naming with bindingExtension := text } }
  | .nativeContext => { settings with naming := { settings.naming with nativeContext := text } }
  | .workers => settings
  | .jsonLogs => settings

/-- Settings with another value for one of them, if the value has the right type. -/
def assign? (settings : Settings) (setting : Setting) (value : Toml.Value) : Option Settings :=
  match setting.form, value with
  | .text, .text content => some (settings.withText content setting)
  | .number, .integer number => some { settings with workers := number }
  | .truth, .truth flag => some { settings with jsonLogs := flag }
  | _, _ => none

/-- The entries of a section. -/
def sectionEntries (settings : Settings) (sectionName : Text) : Toml.Table :=
  (Setting.all.filter fun setting => setting.sectionName == sectionName).map fun setting =>
    (setting.name, settings.value setting)

/-- The document of all settings. -/
def document (settings : Settings) : Toml.Table :=
  (Text.words ["generate", "log"]).map fun sectionName =>
    (sectionName, .table (settings.sectionEntries sectionName))

/-- Read the entries of a section over settings. -/
def readSection (sectionName : Text) (settings : Settings) :
    Toml.Table → Except Toml.Problem Settings
  | [] => .ok settings
  | (key, value) :: rest =>
    match Setting.find? sectionName key.toLower with
    | none => readSection sectionName settings rest
    | some setting =>
      match settings.assign? setting value with
      | none => .error .mismatch
      | some changed => readSection sectionName changed rest

/-- Read a document over settings. -/
def readOver (settings : Settings) : Toml.Table → Except Toml.Problem Settings
  | [] => .ok settings
  | (key, value) :: rest =>
    if Setting.isSection key.toLower then
      match value with
      | .table entries =>
        match readSection key.toLower settings entries with
        | .error problem => .error problem
        | .ok changed => readOver changed rest
      | _ => .error .mismatch
    else
      readOver settings rest

end Settings

end UnoBindgen
