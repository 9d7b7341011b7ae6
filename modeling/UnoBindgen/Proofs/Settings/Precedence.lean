import Mathlib
import UnoBindgen.Proofs.Settings.Gathering
import UnoBindgen.Proofs.Settings.Reading
import UnoBindgen.Proofs.Settings.Sections
import UnoBindgen.Proofs.Traversal

/-!
# The strongest value of each setting

Files are brought over each other one by one.  After each of them every setting has the value of
the latest file that has it, whatever the files have for other settings.  With the environment
above the files and the defaults below, loading gives each setting the value of the strongest layer
that has it.

This needs more than sections of the right form.  A variable that has the name of a section hides
the whole section, and entries beside the sections can stand in their way under an empty or a
dotted key.
-/

namespace UnoBindgen.Settings

open Toml

/-! ## Files after files -/

/-- Whether the files of layers have the settings that documents describe, the first document that
has a setting deciding. -/
structure Reflects (layers : Layers) (documents : List (Origin × Table)) : Prop where
  sectioned : IsSectioned layers.files
  nodup : (layers.files.map Prod.fst).Nodup
  value : ∀ outer ∈ sectionNames, ∀ name,
    under? [outer, name] (.table layers.files) =
      documents.findSome? fun held => follow [outer, name] (lowerEntries held.2)

theorem Reflects.add
    {layers : Layers}
    {documents : List (Origin × Table)}
    (reflects : Reflects layers documents)
    {held : Origin × Table}
    (sectioned : IsSectioned (lowerEntries held.2)) :
    Reflects (layers.add held.2 held.1) (held :: documents) := by
  have unhidden (outer : Text) (_ : outer ∈ sectionNames) : override? [] outer = none := rfl
  have upper : IsSectioned ((Layers.ofDocument [] held.2).effective []) :=
    Layers.isSectioned_effective sectioned isSectioned_nil unhidden
  have upperNodup : (((Layers.ofDocument [] held.2).effective []).map Prod.fst).Nodup :=
    nodup_nested _
  refine ⟨upper.mergeEntries upperNodup reflects.sectioned reflects.nodup,
    nodup_mergeEntries _ reflects.nodup, ?_⟩
  intro outer inside name
  have alone : under? [outer, name]
      (.table ((Layers.ofDocument [] held.2).effective [])) =
        follow [outer, name] (lowerEntries held.2) := by
    rw [Layers.under?_effective sectioned isSectioned_nil unhidden inside, follow_eq_under?]
    simp [Layers.ofDocument, override?]
  rw [List.findSome?_cons, ← alone, ← reflects.value outer inside name]
  refine (upper.under?_mergeEntries upperNodup reflects.sectioned inside name).trans ?_
  cases under? [outer, name] (.table ((Layers.ofDocument [] held.2).effective [])) <;> rfl

theorem reflects_gather
    {surroundings : Surroundings}
    (sectioned : ∀ held ∈ heldDocuments surroundings, IsSectioned (lowerEntries held.2)) :
    Reflects (Layers.gather surroundings) (heldDocuments surroundings).reverse :=
  gather_induction Reflects ⟨isSectioned_nil, List.nodup_nil, fun _ _ _ => rfl⟩
    fun _ _ held member reflects => reflects.add (sectioned held member)

/-! ## Loading -/

/-- What the strongest layer has for a setting: the environment, unless its variable is empty,
then the files, and the defaults when nothing else has the setting. -/
def supplied (surroundings : Surroundings) (setting : Setting) : Value :=
  (((override? surroundings.environment setting.key).map Value.text).or
    (strongest? surroundings fun _ document =>
      follow [setting.sectionName, setting.name] (lowerEntries document))).getD
    (Settings.default.value setting)

theorem key_eq_keyBelow (setting : Setting) :
    setting.key = keyBelow setting.sectionName setting.name := by
  cases setting <;> rfl

theorem under?_effective_gather
    {surroundings : Surroundings}
    (unhidden : ∀ outer ∈ sectionNames, override? surroundings.environment outer = none)
    (sectioned : ∀ held ∈ heldDocuments surroundings, IsSectioned (lowerEntries held.2))
    (setting : Setting) :
    under? [setting.sectionName, setting.name]
      (.table ((Layers.gather surroundings).effective surroundings.environment)) =
        some (supplied surroundings setting) := by
  have reflects := reflects_gather sectioned
  have sectionedDefaults : IsSectioned (Layers.gather surroundings).defaults := by
    rw [defaults_gather]
    exact isSectioned_document Settings.default
  have inside := sectionName_mem setting
  rw [Layers.under?_effective reflects.sectioned sectionedDefaults unhidden inside,
    reflects.value _ inside, defaults_gather, under?_document, supplied, strongest?_eq_findSome?,
    key_eq_keyBelow]
  cases override? surroundings.environment (keyBelow setting.sectionName setting.name) with
  | some content => simp
  | none =>
      rw [Option.map_none, Option.none_or]
      dsimp only [Option.getD_none]
      cases (heldDocuments surroundings).reverse.findSome? fun held =>
          follow [setting.sectionName, setting.name] (lowerEntries held.2) <;>
        rfl

/-- A file of the user, a file of the project above the working directory, a variable that overrides
both and one that is empty. -/
def layeredSurroundings : Surroundings where
  store :=
    ⟨.memory, ["w".toList, "sub".toList],
      [ (["w".toList], .directory), (["w".toList, "sub".toList], .directory),
        (["w".toList, "hsuno.toml".toList],
          .file "[generate]\nWorkers = \"0x10\"\nsymbol_prefix = \"p_\"\n"),
        (["u".toList], .directory), (["u".toList, ".hsuno".toList], .directory),
        (["u".toList, ".hsuno".toList, "hsuno.toml".toList],
          .file "[generate]\nworkers = 2\noutput_root = \"out\"\n[log]\njson = false\n") ],
      fun _ _ => none, fun _ => none⟩
  home := "/u"
  environment := [("HSUNO_LOG_JSON", "true"), ("HSUNO_GENERATE_SYMBOL_PREFIX", "")]

/-- What is loaded there: the number of workers is a text of the project's file. -/
def layeredSettings : Settings :=
  { Settings.default with
    outputRoot := "out"
    naming := { NamingOptions.default with symbolPrefix := "p_" }
    workers := 16
    jsonLogs := true }

/-- A store with a file of settings in the working directory. -/
def projectStore (content : Text) : FileStore :=
  ⟨.memory, ["w".toList],
    [(["w".toList], .directory), (["w".toList, "hsuno.toml".toList], .file content)],
    fun _ _ => none, fun _ => none⟩

/-- A variable that has the name of a section. -/
def namedSection : Surroundings where
  store := projectStore "[generate]\nworkers = 3\n"
  home := "/u"
  environment := [("HSUNO_GENERATE", "1")]

/-- An entry whose dotted key is the name of a section, because the first part of the key is
empty. -/
def namelessEntry : Surroundings where
  store := projectStore "[\"\"]\n\"\" = 1\ngenerate = 5\n"
  home := "/u"
  environment := [("HSUNO_GENERATE_WORKERS", "3")]

/-- An entry beside a section whose key is the dotted key of a setting. -/
def dottedEntry : Surroundings where
  store := projectStore "\"generate.workers\" = 9\n[generate]\nworkers = 3\n"
  home := "/u"
  environment := []

/-- Whether the sections of a table are flat tables and none is there twice. -/
def HasFlatSections (table : Table) : Prop :=
  (∀ entry ∈ table, entry.1 ∈ sectionNames → IsSection entry.2) ∧
    ((table.filter fun entry => sectionNames.contains entry.1).map Prod.fst).Nodup

instance (table : Table) : Decidable (HasFlatSections table) :=
  inferInstanceAs (Decidable (_ ∧ _))

/-- Whether settings are loaded although a setting does not have the value of its strongest
layer. -/
def LoadsOtherwise (surroundings : Surroundings) : Prop :=
  ∃ settings, (Memory.empty.load surroundings).1 = .ok settings ∧
    ∃ setting, converted? setting (supplied surroundings setting) ≠ some (settings.value setting)

theorem loadsOtherwise_of_workers
    {surroundings : Surroundings}
    {settings : Settings}
    (loaded : (Memory.empty.load surroundings).1.toOption = some settings)
    (differs : numberOf? (supplied surroundings .workers) ≠ some settings.workers) :
    LoadsOtherwise surroundings := by
  refine ⟨settings, eq_ok_of_toOption loaded, .workers, fun same => differs ?_⟩
  obtain ⟨number, found, equal⟩ := Option.map_eq_some_iff.1 same
  rw [found, Value.integer.inj equal]

end UnoBindgen.Settings
