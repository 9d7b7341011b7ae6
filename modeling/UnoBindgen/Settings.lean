import UnoBindgen.Fault
import UnoBindgen.Identifier
import UnoBindgen.Naming
import UnoBindgen.Text.Blank
import UnoBindgen.Text.Casing
import UnoBindgen.Text.Quoted
import UnoBindgen.Text.Truth

/-!
# Settings

The settings say where the generated files go, how their names are built, how many entities may be
generated at a time, and how the program logs.  `Settings.check` accepts the settings under which
the derived names are well-formed and the three files of an entity have different names.
-/

namespace UnoBindgen

/-- The settings of the program. -/
structure Settings where
  /-- The directory that generated files are placed in. -/
  outputRoot : Text
  naming : NamingOptions
  /-- How many entities may be generated at a time; with zero it is one for each processor. -/
  workers : Int
  /-- Whether log records are written as JSON. -/
  jsonLogs : Bool
  deriving DecidableEq, Repr

/-- The names of the single settings. -/
inductive Setting where
  | outputRoot
  | symbolPrefix
  | guardPrefix
  | guardSuffix
  | headerExtension
  | sourceExtension
  | bindingExtension
  | nativeContext
  | workers
  | jsonLogs
  deriving DecidableEq, Repr

namespace Setting

/-- All settings in the order in which they are shown. -/
def all : List Setting :=
  [ .outputRoot, .symbolPrefix, .guardPrefix, .guardSuffix, .headerExtension, .sourceExtension,
    .bindingExtension, .nativeContext, .workers, .jsonLogs ]

/-- The section that a setting belongs to. -/
def sectionName : Setting → Text
  | .jsonLogs => "log"
  | _ => "generate"

/-- The name of a setting in its section. -/
def name : Setting → Text
  | .outputRoot => "output_root"
  | .symbolPrefix => "symbol_prefix"
  | .guardPrefix => "header_guard_prefix"
  | .guardSuffix => "header_guard_suffix"
  | .headerExtension => "header_extension"
  | .sourceExtension => "source_extension"
  | .bindingExtension => "binding_extension"
  | .nativeContext => "native_context"
  | .workers => "workers"
  | .jsonLogs => "json"

/-- The dotted key of a setting. -/
def key (setting : Setting) : Text :=
  setting.sectionName ++ "." ++ setting.name

/-- The environment variable that overrides the value of a dotted key. -/
def environmentVariable (key : Text) : Text :=
  "HSUNO_" ++ (Text.replace '.' ['_'] key).toUpper

end Setting

namespace Settings

/-- The settings used when nothing is configured. -/
def default : Settings where
  outputRoot := "gen"
  naming := .default
  workers := 0
  jsonLogs := false

/-- A one-line summary. -/
def summary (settings : Settings) : Text :=
  "Config\x7bGenerate: \x7bOutputRoot: " ++ settings.outputRoot ++
    ", SymbolPrefix: " ++ settings.naming.symbolPrefix ++
    ", Workers: " ++ Text.ofInt settings.workers ++
    "\x7d, Log: \x7bJSON: " ++ Text.ofTruth settings.jsonLogs ++ "\x7d\x7d"

/-! ## Checking -/

/-- Whether a text may stand before or behind the path in a header guard. -/
def isGuardAffix (affix : Text) : Bool :=
  affix.all Identifier.isFollowing

/-- Whether a text looks like the extension of a file name: a dot and more, without any
separator of directories. -/
def isExtension (extension : Text) : Bool :=
  match extension with
  | '.' :: rest => !rest.isEmpty && rest.all fun character => character != '/' && character != '\\'
  | _ => false

/-- A setting with a value that is refused, and why. -/
def refusal (setting : Setting) (value reason : Text) : Fault :=
  .plain (setting.key ++ " " ++ value.quote ++ " " ++ reason)

/-- Check the start of the exported symbols. -/
def checkSymbolPrefix (naming : NamingOptions) : Except Fault Unit :=
  if isIdentifier naming.symbolPrefix then
    .ok ()
  else
    .error
      (.hinted "use letters, digits and underscores, e.g. \"hsuno_\""
        (refusal .symbolPrefix naming.symbolPrefix "is not a valid C identifier prefix"))

/-- Check what surrounds the path in a header guard.  A guard without anything around the path
would be the one that the native header of the type has itself. -/
def checkGuard (naming : NamingOptions) : Except Fault Unit :=
  let reason : Text := "may only contain letters, digits and underscores"
  if !isGuardAffix naming.guardPrefix then
    .error (refusal .guardPrefix naming.guardPrefix reason)
  else if !isGuardAffix naming.guardSuffix then
    .error (refusal .guardSuffix naming.guardSuffix reason)
  else if naming.guardPrefix.isEmpty && naming.guardSuffix.isEmpty then
    .error
      (.plain
        (Setting.guardPrefix.key ++ " and " ++ Setting.guardSuffix.key ++
          " cannot both be empty"))
  else
    .ok ()

/-- Check extensions: each has the right shape and differs from those before it. -/
def checkExtensions (earlier : List (Setting × Text)) :
    List (Setting × Text) → Except Fault Unit
  | [] => .ok ()
  | (setting, extension) :: rest =>
    if !isExtension extension then
      .error
        (.plain (setting.key ++ " must look like \".ext\", got " ++ extension.quote))
    else
      match earlier.find? fun entry => entry.2 == extension with
      | some (other, _) =>
        .error
          (.plain (other.key ++ " and " ++ setting.key ++ " are both " ++ extension.quote))
      | none => checkExtensions (earlier ++ [(setting, extension)]) rest

/-- The extensions of the generated files with their settings. -/
def extensions (naming : NamingOptions) : List (Setting × Text) :=
  [ (.headerExtension, naming.headerExtension), (.sourceExtension, naming.sourceExtension),
    (.bindingExtension, naming.bindingExtension) ]

/-- Check settings; the first one that cannot be used is reported. -/
def check (settings : Settings) : Except Fault Unit := do
  if settings.outputRoot.isEmpty then
    throw (.plain (Setting.outputRoot.key ++ " cannot be empty"))
  checkSymbolPrefix settings.naming
  checkGuard settings.naming
  checkExtensions [] (extensions settings.naming)
  if settings.naming.nativeContext.trim.isEmpty then
    throw (.plain (Setting.nativeContext.key ++ " cannot be empty"))
  if settings.workers < 0 then
    throw
      (.plain (Setting.workers.key ++ " must be >= 0, got " ++ Text.ofInt settings.workers))

end Settings

end UnoBindgen
