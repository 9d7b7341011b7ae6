import UnoBindgen.FileStore
import UnoBindgen.Settings.Document

/-!
# Files of settings

Settings are kept in files.  Before a file is written its present content is kept as a backup, and
the earlier backups move on by one; the third is the last.  A single value is changed in place of
the whole: the document is read, changed at one key and written again, and only if the settings it
then describes pass their check.
-/

namespace UnoBindgen

/-- Work on a file store that may fail.  What was done before a failure stays done. -/
abbrev FileWork (α : Type) : Type := FileStore → Except Fault α × FileStore

namespace FileWork

/-- Do nothing and give a value. -/
def done {α : Type} (value : α) : FileWork α :=
  fun store => (.ok value, store)

/-- Fail. -/
def fail {α : Type} (fault : Fault) : FileWork α :=
  fun store => (.error fault, store)

/-- Go on with the value of earlier work, unless it failed. -/
def followedBy {α β : Type} (work : FileWork α) (next : α → FileWork β) : FileWork β :=
  fun store =>
    match work store with
    | (.ok value, after) => next value after
    | (.error fault, after) => (.error fault, after)

instance : Monad FileWork where
  pure := done
  bind := followedBy

/-- Say what was being done when work failed. -/
def explaining {α : Type} (context : Text) (work : FileWork α) : FileWork α :=
  fun store =>
    match work store with
    | (.ok value, after) => (.ok value, after)
    | (.error fault, after) => (.error (.within context fault), after)

/-- Ask a store a question that may fail. -/
def ask {α : Type} (question : FileStore → Except Fault α) : FileWork α :=
  fun store => (question store, store)

/-- Change a store. -/
def change (action : FileStore → FileStore.Attempt) : FileWork Unit :=
  fun store =>
    match action store with
    | (after, none) => (.ok (), after)
    | (after, some fault) => (.error fault, after)

/-- Whether something is at a path, as far as the store can tell. -/
def contains (path : Text) : FileWork Bool :=
  fun store => (.ok ((store.contains path).toOption.getD false), store)

/-- Go on even when work fails. -/
def attempt (work : FileWork Unit) : FileWork Unit :=
  fun store => (.ok (), (work store).2)

end FileWork

namespace Settings

/-- The name of the file of settings of a project. -/
def fileName : Text := "hsuno.toml"

/-- The path of a backup, by its age. -/
def backupPath (path : Text) (age : Nat) : Text :=
  path ++ ".back" ++ Text.ofNat age

/-- Move a backup on by one, if it is there. -/
def ageBackup (path : Text) (age : Nat) : FileWork Unit := do
  if ← FileWork.contains (backupPath path age) then
    FileWork.explaining
      ("failed to rotate .back" ++ Text.ofNat age ++ " to .back" ++ Text.ofNat (age + 1))
      (FileWork.change fun store =>
        store.rename (backupPath path age) (backupPath path (age + 1)))

/-- Keep the present content of a file as its first backup. -/
def backUp (path : Text) : FileWork Unit := do
  if ← FileWork.contains path then
    FileWork.attempt (FileWork.change fun store => store.remove (backupPath path 3))
    ageBackup path 2
    ageBackup path 1
    let content ← FileWork.explaining "failed to read config for backup"
      (FileWork.ask fun store => store.read path)
    FileWork.explaining "failed to create .back1"
      (FileWork.change fun store => store.write (backupPath path 1) content)

/-- Write a file, keeping what was there as a backup. -/
def save (path content : Text) : FileWork Unit := do
  FileWork.explaining "failed to create backup" (backUp path)
  let directory := Text.SlashPath.directory path
  FileWork.explaining ("failed to create " ++ directory)
    (FileWork.change fun store => store.makeDirectories directory)
  FileWork.explaining ("failed to write " ++ path)
    (FileWork.change fun store => store.write path content)

/-- How documents are written as texts, and read again. -/
structure Codec where
  parse : Text → Except Toml.Problem Toml.Table
  print : Toml.Table → Text

/-- The codec of files of settings. -/
def Codec.toml : Codec := ⟨Toml.parse .established, Toml.print⟩

/-- Write all settings to a file. -/
def write (codec : Codec) (settings : Settings) (path : Text) : FileWork Unit :=
  save path (codec.print settings.document)

/-- Write the default settings to the file of settings of a directory, and give its path.  A file
that is there is only overwritten when that is forced. -/
def createFile (codec : Codec) (directory : Text) (force : Bool) : FileWork Text := do
  let path := Text.SlashPath.join [directory, fileName]
  let exists? ←
    FileWork.explaining ("failed to stat " ++ path)
      (FileWork.ask fun store => store.contains path)
  if exists? && !force then
    FileWork.fail
      (.hinted "pass --force to overwrite it; the current file is kept as .back1"
        (.plain (path ++ " already exists")))
  else
    write codec .default path
    return path

/-! ## Changing one value -/

/-- The section and the name in a dotted key. -/
def splitKey? (key : Text) : Option (Text × Text) :=
  match key.splitAt '.' with
  | [sectionName, name] =>
    if sectionName.isEmpty || name.isEmpty then none else some (sectionName, name)
  | _ => none

/-- A document with a value under a name in a section.  A section that is no table is replaced
by one. -/
def changed (document : Toml.Table) (sectionName name : Text) (value : Toml.Value) : Toml.Table :=
  Toml.Table.put sectionName
    (.table (Toml.Table.put name value (Toml.Table.inner sectionName document))) document

/-- The document in a file.  A file that is not there is an empty document. -/
def readDocument (codec : Codec) (path : Text) : FileWork Toml.Table := fun store =>
  match store.read path with
  | .error fault =>
    if fault.isMissingFile then
      (.ok [], store)
    else
      (.error (.within ("failed to read " ++ path) fault), store)
  | .ok content =>
    match codec.parse content with
    | .ok document => (.ok document, store)
    | .error problem =>
      (.error (.within ("failed to parse " ++ path) (.external ("toml: " ++ problem.text) false)),
        store)

/-- Whether the settings that a text describes pass their check. -/
def checkText (codec : Codec) (text : Text) : Except Fault Unit :=
  match (codec.parse text).bind (Settings.default.readOver ·) with
  | .error problem => .error (.external ("toml: " ++ problem.text) false)
  | .ok settings => settings.check

/-- Give a dotted key of a file a value.  The file comes into being when it is not there, and it
is only written when the settings it describes then pass their check. -/
def setValue (codec : Codec) (path key : Text) (value : Toml.Value) : FileWork Unit :=
  match splitKey? key with
  | none =>
    FileWork.fail
      (.plain ("key " ++ key.quote ++ " must be section.name, e.g. generate.workers"))
  | some (sectionName, name) => do
    let document ← readDocument codec path
    let text := codec.print (Toml.sortEntries (changed document sectionName name value))
    FileWork.explaining ("invalid value for " ++ key) (FileWork.ask fun _ => checkText codec text)
    save path text

end Settings

end UnoBindgen
