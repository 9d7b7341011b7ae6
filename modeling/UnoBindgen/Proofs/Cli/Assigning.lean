import UnoBindgen.Cli.Run
import UnoBindgen.Proofs.Settings.Changing
import UnoBindgen.Proofs.Settings.Mentions

/-!
# Setting a value from the command line

A word on the command line is taken for a number or a truth value when it reads as one, whatever
type the setting has.  So a setting that is a text can be set to a text exactly when the text reads
as neither: then the written file describes the same settings with the new text, and otherwise the
file stays as it is.

The file is written with its keys sorted, and of several spellings of a setting the last one counts.
So it is the settings of the sorted file that have to pass their check with the text, and the setting
must not be spelled in another way behind its own spelling.
-/

namespace UnoBindgen

open Toml

namespace Settings

open Setting

/-! ## The settings in a changed document -/

/-- Sorting keys leaves all values of the kinds that settings have. -/
theorem IsTyped.sorted
    {document : Table}
    (typed : IsTyped document) :
    IsTyped (sortEntries document) where
  sections entry member isSection := by
    obtain ⟨original, there, rfl⟩ := (mem_sortEntries_iff _ _).1 member
    rw [isTable_sortKeys]
    exact typed.sections original there isSection
  takes setting said mentioned := by
    obtain ⟨entry, member, mentionedThere⟩ := List.mem_flatMap.1 mentioned
    obtain ⟨original, there, rfl⟩ := (mem_sortEntries_iff _ _).1 member
    obtain ⟨sectionNamed, name, isNamed, inSorted⟩ := exists_of_mem_mentionsIn mentionedThere
    obtain ⟨inner, inSection, same⟩ := exists_mem_entriesOf_of_sortKeys inSorted
    obtain ⟨rfl, rfl⟩ := Prod.mk.inj same
    obtain ⟨key, value⟩ := original
    cases value with
    | table entries =>
        have said : inner.2 ∈ setting.mentions document := by
          refine List.mem_flatMap.2 ⟨_, there, ?_⟩
          rw [mentionsIn, if_pos sectionNamed]
          exact (mem_named_iff _ _ _).2 ⟨inner.1, isNamed, inSection⟩
        have taken := typed.takes setting _ said
        rwa [sortKeys_of_isScalar (isScalar_of_takes taken)]
    | _ => simp [entriesOf] at inSection

/-- A document that describes settings still describes some when its keys are sorted. -/
theorem exists_readOver_sorted
    {document : Table}
    {settings : Settings}
    (decoded : Settings.default.readOver document = .ok settings) :
    ∃ arranged, Settings.default.readOver (sortEntries document) = .ok arranged := by
  have typed := ((readOver_eq_ok_iff _ _ _).1 decoded).1.sorted
  rcases readOver_cases (sortEntries document) Settings.default with
    ⟨-, arranged, sorted, -⟩ | ⟨untyped, -⟩
  · exact ⟨arranged, sorted⟩
  · exact (untyped typed).elim

section Changed

variable
  {document : Table}
  (sound : (Value.table document).IsSound)
  {settings : Settings}
  (sorted : Settings.default.readOver (sortEntries document) = .ok settings)
  {setting : Setting}

theorem value_withText
    (isText : setting.form = .text)
    (settings : Settings)
    (content : Text)
    (other : Setting) :
    (settings.withText content setting).value other =
      if other = setting then .text content else settings.value other := by
  have assigned : settings.assign? setting (.text content) =
      some (settings.withText content setting) := by
    simp only [assign?, isText]
  exact value_of_assign? assigned other

/-- Changing a setting does not make anything else of a section. -/
theorem isTable_of_mem_changed
    (typed : IsTyped (sortEntries document))
    (value : Value) :
    ∀ entry ∈ sortEntries (changed document setting.sectionName setting.name value),
      isSection entry.1.toLower = true → entry.2.isTable = true := by
  intro entry member isSection
  obtain ⟨original, there, rfl⟩ := (mem_sortEntries_iff _ _).1 member
  rw [changed] at there
  rcases mem_put there with rfl | earlier
  · rfl
  · exact typed.sections _ ((mem_sortEntries_iff _ _).2 ⟨original, earlier, rfl⟩) isSection

include sound sorted

/-- With a text for a setting that is a text, the changed document describes the changed settings. -/
theorem readOver_changed_text
    (isText : setting.form = .text)
    (last : setting.IsSpelledLast document)
    (content : Text) :
    Settings.default.readOver
        (Table.laidOut
          (sortEntries (changed document setting.sectionName setting.name (.text content)))) =
      .ok (settings.withText content setting) := by
  obtain ⟨typed, values⟩ := (readOver_eq_ok_iff _ _ _).1 sorted
  obtain ⟨before, after, mentioned, kept, nothingBehind, others⟩ :=
    exists_mentions_changed sound typed setting (.text content)
  obtain rfl := nothingBehind last
  have changedTyped : IsTyped (sortEntries
      (changed document setting.sectionName setting.name (.text content))) := by
    refine ⟨isTable_of_mem_changed typed _, fun other => ?_⟩
    by_cases same : other = setting
    · subst same
      rw [mentioned, List.forall_mem_append, List.forall_mem_singleton]
      refine ⟨fun said member => typed.takes other said (kept said (by simpa using member)), ?_⟩
      simp only [takes, isText, Value.sortKeys]
    · rw [others other same]
      exact typed.takes other
  have scalars (other : Setting) := fun said member =>
    isScalar_of_takes (changedTyped.takes other said member)
  refine (readOver_eq_ok_iff _ _ _).2 ⟨changedTyped.laidOut, fun other => ?_⟩
  rw [mentions_laidOut (scalars other), value_withText isText]
  by_cases same : other = setting
  · subst same
    rw [if_pos rfl, mentioned]
    simp [Value.sortKeys]
  · rw [if_neg same, others other same, values other]

/-- With a value of another kind the changed document describes no settings. -/
theorem readOver_changed_other
    {value : Value}
    (scalar : isScalar value = true)
    (refused : setting.takes value = false) :
    Settings.default.readOver
        (Table.laidOut
          (sortEntries (changed document setting.sectionName setting.name value))) =
      .error .mismatch := by
  obtain ⟨typed, -⟩ := (readOver_eq_ok_iff _ _ _).1 sorted
  obtain ⟨before, after, mentioned, kept, -, -⟩ :=
    exists_mentions_changed sound typed setting value
  rw [sortKeys_of_isScalar scalar] at mentioned
  have scalars : ∀ said ∈
      setting.mentions (sortEntries (changed document setting.sectionName setting.name value)),
      isScalar said = true := by
    intro said member
    rw [mentioned] at member
    rcases List.mem_append.1 member with front | back
    · exact isScalar_of_takes (typed.takes setting said (kept said (List.mem_append_left _ front)))
    · rcases List.mem_cons.1 back with rfl | later
      · exact scalar
      · exact isScalar_of_takes
          (typed.takes setting said (kept said (List.mem_append_right _ later)))
  rcases readOver_cases (Table.laidOut
      (sortEntries (changed document setting.sectionName setting.name value)))
      Settings.default with
    ⟨changedTyped, -⟩ | ⟨-, failed⟩
  · have taken := changedTyped.takes setting value
      (by rw [mentions_laidOut scalars, mentioned]; simp)
    rw [refused] at taken
    exact absurd taken (by simp)
  · exact failed

end Changed

/-- The text of the changed document is read back as the document, laid out anew. -/
theorem parse_changed
    {document : Table}
    (sound : (Value.table document).IsSound)
    (setting : Setting)
    {value : Value}
    (valueSound : value.IsSound) :
    parse .established
        (print (sortEntries (changed document setting.sectionName setting.name value))) =
      .ok (Table.laidOut
        (sortEntries (changed document setting.sectionName setting.name value))) :=
  parse_print (isSound_changed sound setting.sectionName setting.name valueSound).sortKeys

end Settings

namespace Cli

open Settings
open FileStore

/-! ## Guessed values -/

/-- Whether a word is taken for itself: it reads as no number and as no truth value. -/
def IsPlainWord (word : Text) : Prop :=
  word.decimalWord? = none ∧ word.truth? = none

instance : DecidablePred IsPlainWord :=
  fun word => inferInstanceAs (Decidable (word.decimalWord? = none ∧ word.truth? = none))

theorem guessedValue_of_isPlainWord
    {word : Text}
    (plain : IsPlainWord word) :
    guessedValue word = .text word := by
  rw [guessedValue, plain.1, plain.2]

/-- Any other word is taken for a value that is no text. -/
theorem guessedValue_of_not_isPlainWord
    {word : Text}
    (notPlain : ¬ IsPlainWord word)
    {setting : Setting}
    (isText : setting.form = .text) :
    Setting.isScalar (guessedValue word) = true ∧
      setting.takes (guessedValue word) = false ∧ (guessedValue word).IsSound := by
  rw [guessedValue]
  cases asNumber : word.decimalWord? with
  | some number =>
      have fits : Text.fitsWord number = true := by
        rw [Text.decimalWord?] at asNumber
        split at asNumber
        split at asNumber
        · exact (Option.filter_eq_some_iff.1 asNumber).2
        · simp at asNumber
      exact ⟨rfl, by simp only [Setting.takes, isText],
        (Value.isSound_iff_isProper rfl).2 fits⟩
  | none =>
      cases asTruth : word.truth? with
      | some truth =>
          exact ⟨rfl, by simp only [Setting.takes, isText],
            (Value.isSound_iff_isProper rfl).2 trivial⟩
      | none => exact absurd ⟨asNumber, asTruth⟩ notPlain

/-- The file of settings that is written to: that of the working directory. -/
def settingsPath (store : FileStore) : Text :=
  Text.SlashPath.join [workingPath store, fileName]

/-- The settings that a file describes after a command, if the command succeeded. -/
def Outcome.described? (outcome : Outcome) (path : Text) : Option Settings :=
  match outcome.fault? with
  | some _ => none
  | none =>
    (outcome.store.node? (outcome.store.place path)).bind fun node =>
      (parse .established node.content).toOption.bind fun document =>
        (Settings.default.readOver document).toOption

theorem splitKey?_key (setting : Setting) :
    splitKey? setting.key = some (setting.sectionName, setting.name) := by
  cases setting <;> decide

section Read

variable
  {codec : Codec}
  {store : FileStore}
  {path : Text}
  {document : Table}
  (read : (readDocument codec path store).1 = .ok document)
  {setting : Setting}

include read

theorem text_set_of_checkText_ok
    {value : Value}
    (checked : checkText codec
      (codec.print (sortEntries (changed document setting.sectionName setting.name value))) =
        .ok ()) :
    (Call.set setting.key value).text codec path store =
      .ok (codec.print
        (sortEntries (changed document setting.sectionName setting.name value))) := by
  simp only [Call.text, splitKey?_key, read, checked]

theorem text_set_of_checkText_error
    {value : Value}
    {fault : Fault}
    (checked : checkText codec
      (codec.print (sortEntries (changed document setting.sectionName setting.name value))) =
        .error fault) :
    (Call.set setting.key value).text codec path store =
      .error (.within ("invalid value for " ++ setting.key) fault) := by
  simp only [Call.text, splitKey?_key, read, checked]

end Read

section SetSetting

variable
  {store : FileStore}
  (keeps : CanKeep store (settingsPath store))

include keeps

/-- The file of settings is in the working directory, so its path can be followed. -/
theorem follows_settingsPath : Follows store (settingsPath store) := by
  intro onDisk part shorter differs
  have nonempty : settingsPath store ≠ [] := by
    intro empty
    have named := keeps.named
    rw [empty] at named
    exact named.nonempty rfl
  obtain ⟨path, cleaned⟩ := Text.SlashPath.exists_clean_of_join nonempty
  change settingsPath store = _ at cleaned
  have located : store.place path =
      store.place (Text.SlashPath.directory (settingsPath store)) ++
        [Text.SlashPath.lastPart (settingsPath store)] := by
    rw [← place_of_named store keeps.named, cleaned, place_clean]
  rw [cleaned] at shorter differs
  rw [cleaned]
  rcases passed_clean store path shorter differs with ⟨above, proper⟩ | above
  · rw [located] at above proper
    rw [← cleaned] at above proper ⊢
    exact Or.inr ((List.prefix_concat_iff.1 above).resolve_left proper)
  · exact Or.inl (keeps.situated onDisk _ above)

/-- A text that passes is written, and the file then describes it. -/
theorem described?_of_check
    {document : Table}
    (read : (readDocument .toml (settingsPath store) store).1 = .ok document)
    {setting : Setting}
    {word : Text}
    {settings : Settings}
    {result : Table}
    (parsed : parse .established
      (print (sortEntries
        (changed document setting.sectionName setting.name (guessedValue word)))) = .ok result)
    (described : Settings.default.readOver result = .ok settings)
    (accepted : settings.check = .ok ()) :
    (setSetting setting.key word store).described? (settingsPath store) = some settings := by
  have checked : checkText .toml (print (sortEntries
      (changed document setting.sectionName setting.name (guessedValue word)))) = .ok () := by
    simp only [checkText, Codec.toml, parsed, Except.bind, described, accepted]
  have on : (Call.set setting.key (guessedValue word)).IsOn (settingsPath store) := trivial
  have performed := Call.perform_eq .toml on store
  rw [text_set_of_checkText_ok read checked] at performed
  obtain ⟨after, saved, -⟩ := edits_save keeps (follows_settingsPath keeps)
    (print (sortEntries (changed document setting.sectionName setting.name (guessedValue word))))
  obtain ⟨node, there, holds⟩ :=
    exists_node_of_save (keeps.noDirectory _ (by simp [keptPaths])) saved
  have outcome : setSetting setting.key word store =
      .onlyPrinting after
        (Show.notice .success ("Set " ++ setting.key ++ " in " ++ settingsPath store)) := by
    have whole := performed.trans saved
    rw [Call.perform] at whole
    rw [setSetting, ofFileWork]
    exact whole ▸ rfl
  rw [outcome, Outcome.described?, Outcome.onlyPrinting]
  simp only [there, Option.bind_some, holds, parsed, described, Except.toOption]

end SetSetting

/--
For a setting that is a text, and a text with which the settings of the sorted file pass their check,
setting it succeeds exactly when the text reads as no number and as no truth value.  Then the file
gives the setting this text, and describes everything else as it did with its keys sorted: so nothing
else has changed unless sorting changes it.  Otherwise nothing is written.
-/
theorem setSetting_text_iff
    {store : FileStore}
    (keeps : CanKeep store (settingsPath store))
    {document : Table}
    (read : (readDocument .toml (settingsPath store) store).1 = .ok document)
    {settings : Settings}
    (decoded : Settings.default.readOver document = .ok settings)
    {setting : Setting}
    (isText : setting.form = .text)
    (last : setting.IsSpelledLast document)
    (word : Text)
    (accepted :
      ∀ arranged, Settings.default.readOver (sortEntries document) = .ok arranged →
        (arranged.withText word setting).check = .ok ()) :
    (IsPlainWord word →
      ∃ arranged after,
        Settings.default.readOver (sortEntries document) = .ok arranged ∧
          (setSetting setting.key word store).described? (settingsPath store) = some after ∧
          after.value setting = .text word ∧
          (∀ other, other ≠ setting → after.value other = arranged.value other) ∧
          (Settings.default.readOver (sortEntries document) = Settings.default.readOver document →
            after = settings.withText word setting)) ∧
      (¬ IsPlainWord word →
        ∃ fault, setSetting setting.key word store =
          .failing store (.within ("invalid value for " ++ setting.key) fault)) := by
  have sound := isSound_of_readDocument Codec.roundTrips_toml read
  obtain ⟨arranged, sorted⟩ := exists_readOver_sorted decoded
  constructor
  · intro plain
    have guessed := guessedValue_of_isPlainWord plain
    have textSound : (Value.text word).IsSound := (Value.isSound_iff_isProper rfl).2 trivial
    have parsed := parse_changed sound setting textSound
    rw [← guessed] at parsed
    have described := readOver_changed_text sound sorted isText last word
    rw [← guessed] at described
    refine ⟨arranged, arranged.withText word setting, sorted,
      described?_of_check keeps read parsed described (accepted arranged sorted), ?_, ?_, ?_⟩
    · rw [value_withText isText, if_pos rfl]
    · intro other differs
      rw [value_withText isText, if_neg differs]
    · intro steady
      rw [sorted, decoded] at steady
      rw [Except.ok.inj steady]
  · intro notPlain
    obtain ⟨scalar, refused, guessedSound⟩ := guessedValue_of_not_isPlainWord notPlain isText
    have parsed := parse_changed sound setting guessedSound
    have checked : checkText .toml (print (sortEntries
        (changed document setting.sectionName setting.name (guessedValue word)))) =
          .error (.external ("toml: " ++ Problem.mismatch.text) false) := by
      simp only [checkText, Codec.toml, parsed, Except.bind,
        readOver_changed_other sound sorted scalar refused]
    have on : (Call.set setting.key (guessedValue word)).IsOn (settingsPath store) := trivial
    have performed := Call.perform_eq .toml on store
    rw [text_set_of_checkText_error read checked, Call.perform] at performed
    refine ⟨.external ("toml: " ++ Problem.mismatch.text) false, ?_⟩
    rw [setSetting, ofFileWork]
    exact performed ▸ rfl

/-! ## Single files -/

/-- A store in memory with a file of settings in its working directory. -/
def storeWith (content : Text) : FileStore :=
  ⟨.memory, ["w".toList],
    [ (["w".toList], .directory), (["w".toList, "hsuno.toml".toList], .file content) ],
    fun _ _ => none, fun _ => none⟩

theorem settingsPath_storeWith (content : Text) :
    settingsPath (storeWith content) = "/w/hsuno.toml" := by
  have same : settingsPath (storeWith content) = settingsPath (storeWith []) := rfl
  rw [same]
  decide +kernel

theorem hasDirectory_storeWith_iff
    (content : Text)
    (place : Place) :
    (storeWith content).HasDirectory place ↔ place = [] ∨ place = ["w".toList] := by
  constructor
  · rintro ⟨node, found, standing⟩
    by_cases root : place = []
    · exact Or.inl root
    · rw [node?_of_ne_nil _ root] at found
      have listed := mem_of_lookup found
      simp only [storeWith, List.mem_cons, Prod.mk.injEq, List.not_mem_nil, or_false] at listed
      rcases listed with ⟨rfl, -⟩ | ⟨-, rfl⟩
      · exact Or.inr rfl
      · exact Bool.noConfusion standing
  · rintro (rfl | rfl)
    · exact hasDirectory_root _
    · exact ⟨.directory, rfl, rfl⟩

theorem canKeep_storeWith (content : Text) :
    CanKeep (storeWith content) "/w/hsuno.toml" where
  named := by decide +kernel
  tree := of_decide_eq_true rfl
  situated onDisk := Manner.noConfusion onDisk
  free _ _ := rfl
  clear above upper file := by
    have place : (storeWith []).place (Text.SlashPath.directory "/w/hsuno.toml") =
        ["w".toList] := by
      decide +kernel
    have same : (storeWith content).place (Text.SlashPath.directory "/w/hsuno.toml") =
        (storeWith []).place (Text.SlashPath.directory "/w/hsuno.toml") := rfl
    rw [same, place] at upper
    apply file.not_hasDirectory
    rw [hasDirectory_storeWith_iff]
    rcases List.prefix_cons_iff.1 upper with empty | ⟨rest, rfl, within⟩
    · exact Or.inl empty
    · rw [List.prefix_nil.1 within]
      exact Or.inr rfl
  noDirectory := by
    have places : ∀ file ∈ keptPaths "/w/hsuno.toml",
        (storeWith []).place file ≠ [] ∧ (storeWith []).place file ≠ ["w".toList] := by
      decide +kernel
    intro file kept directory
    rw [hasDirectory_storeWith_iff] at directory
    exact directory.elim (places file kept).1 (places file kept).2

/-- A file that says more than settings, and one of them in capital letters. -/
def sharedFile : Text :=
  "ratio = 1.5\n\n[Generate]\nWorkers = 2\n\n[generate]\noutput_root = 'gen'\n"

/-- A file in which sorting changes which of two prefixes counts. -/
def twiceFile : Text :=
  "[generate]\nsymbol_prefix = 'a_'\nSymbol_Prefix = 'b_'\n"

/-- The default settings with a prefix. -/
def twiceSettings (symbolPrefix : Text) : Settings :=
  { Settings.default with
    naming := { NamingOptions.default with symbolPrefix := symbolPrefix } }

theorem exists_described_of_computed
    (content : Text)
    (settings arranged : Settings)
    (described : (readDocument .toml "/w/hsuno.toml" (storeWith content)).1.toOption.any
      (fun document =>
        Setting.outputRoot.IsSpelledLast document ∧
          (Settings.default.readOver document).toOption = some settings ∧
          (Settings.default.readOver (sortEntries document)).toOption = some arranged) = true) :
    ∃ document,
      (readDocument .toml "/w/hsuno.toml" (storeWith content)).1 = .ok document ∧
        Setting.outputRoot.IsSpelledLast document ∧
        Settings.default.readOver document = .ok settings ∧
        Settings.default.readOver (sortEntries document) = .ok arranged := by
  rw [Option.any_eq_true] at described
  obtain ⟨document, found, described⟩ := described
  obtain ⟨last, decoded, sorted⟩ := of_decide_eq_true described
  exact ⟨document, eq_ok_of_toOption found, last, eq_ok_of_toOption decoded,
    eq_ok_of_toOption sorted⟩

/-- In such files the directory can be set to a text that only starts like a number, and not to a
number or a truth value. -/
theorem setSetting_sharedFile :
    ((setSetting "generate.output_root" "2024-out" (storeWith sharedFile)).described?
        "/w/hsuno.toml").map (fun after => (after.outputRoot, after.workers)) =
      some ("2024-out".toList, 2) ∧
    (∃ fault, setSetting "generate.output_root" "2024" (storeWith sharedFile) =
      .failing (storeWith sharedFile) (.within "invalid value for generate.output_root" fault)) ∧
    (∃ fault, setSetting "generate.output_root" "T" (storeWith sharedFile) =
      .failing (storeWith sharedFile) (.within "invalid value for generate.output_root" fault)) ∧
    ((setSetting "generate.output_root" "out" (storeWith twiceFile)).described?
        "/w/hsuno.toml").map (fun after => (after.outputRoot, after.naming.symbolPrefix)) =
      some ("out".toList, "a_".toList) := by
  have path (content : Text) := settingsPath_storeWith content
  obtain ⟨document, read, last, decoded, sorted⟩ :=
    exists_described_of_computed sharedFile { Settings.default with workers := 2 }
      { Settings.default with workers := 2 } (by decide +kernel)
  have outcomes (word : Text)
      (accepted :
        ({ Settings.default with workers := 2 }.withText word .outputRoot).check = .ok ()) :=
    setSetting_text_iff (path sharedFile ▸ canKeep_storeWith sharedFile) (path sharedFile ▸ read)
      decoded rfl last word fun arranged arranges =>
        Except.ok.inj (sorted.symm.trans arranges) ▸ accepted
  obtain ⟨twice, twiceRead, twiceLast, twiceDecoded, twiceSorted⟩ :=
    exists_described_of_computed twiceFile (twiceSettings "b_") (twiceSettings "a_")
      (by decide +kernel)
  have twiceOutcome :=
    setSetting_text_iff (path twiceFile ▸ canKeep_storeWith twiceFile) (path twiceFile ▸ twiceRead)
      twiceDecoded rfl twiceLast "out" fun arranged arranges =>
        Except.ok.inj (twiceSorted.symm.trans arranges) ▸ by cbv
  refine ⟨?_, ?_, ?_, ?_⟩
  · obtain ⟨arranged, after, -, written, -, -, steady⟩ := (outcomes "2024-out" (by cbv)).1 (by decide)
    rw [path, steady (sorted.trans decoded.symm)] at written
    exact congrArg (Option.map fun after : Settings => (after.outputRoot, after.workers)) written
  · exact (outcomes "2024" (by cbv)).2 (by decide)
  · exact (outcomes "T" (by cbv)).2 (by decide)
  · obtain ⟨arranged, after, arranges, written, given, others, -⟩ := twiceOutcome.1 (by decide)
    rw [path] at written
    have kept := others .symbolPrefix (by decide)
    rw [← Except.ok.inj (twiceSorted.symm.trans arranges)] at kept
    have root : after.outputRoot = "out" := Value.text.inj given
    have symbolPrefix : after.naming.symbolPrefix = "a_" := Value.text.inj kept
    have shown := congrArg
      (Option.map fun after : Settings => (after.outputRoot, after.naming.symbolPrefix)) written
    rw [Option.map_some, root, symbolPrefix] at shown
    exact shown

/-! ## Texts that are lost -/

/-- Whether a file of settings that pass their check does not describe a text after a setting was set
to it, although they would pass with the text as well. -/
def IsLost (content : Text) (setting : Setting) (word : Text) : Prop :=
  setting.form = .text ∧ ∃ document settings,
    (readDocument .toml "/w/hsuno.toml" (storeWith content)).1 = .ok document ∧
    Settings.default.readOver document = .ok settings ∧
    settings.check = .ok () ∧
    (settings.withText word setting).check = .ok () ∧
    ∀ after, (setSetting setting.key word (storeWith content)).described? "/w/hsuno.toml" =
      some after → after.value setting ≠ .text word

/-- The text of a setting, if it is one. -/
def textOf? (settings : Settings) (setting : Setting) : Option Text :=
  match settings.value setting with
  | .text content => some content
  | _ => none

theorem isLost_of_computed
    {content : Text}
    {setting : Setting}
    {word : Text}
    (isText : setting.form = .text)
    (valid : ((readDocument .toml "/w/hsuno.toml" (storeWith content)).1.toOption.any fun document =>
      (Settings.default.readOver document).toOption.any fun settings =>
        settings.check.toOption == some () &&
          (settings.withText word setting).check.toOption == some ()) = true)
    (lost : ((setSetting setting.key word (storeWith content)).described? "/w/hsuno.toml").all
      (fun after => textOf? after setting != some word) = true) :
    IsLost content setting word := by
  simp only [Option.any_eq_true, Bool.and_eq_true, beq_iff_eq] at valid
  obtain ⟨document, read, settings, decoded, checked, accepted⟩ := valid
  refine ⟨isText, document, settings, eq_ok_of_toOption read, eq_ok_of_toOption decoded,
    eq_ok_of_toOption checked, eq_ok_of_toOption accepted, fun after described same => ?_⟩
  rw [described, Option.all_some, textOf?, same] at lost
  simp at lost

/-- A text that reads as a number or as a truth value is lost, and so is any text in a file that
names a setting twice and in which sorting changes which one counts, or that spells the setting in a
way that sorts behind its own. -/
theorem isLost_four_ways :
    IsLost "[generate]\noutput_root = 'gen'\n" .outputRoot "2024" ∧
      IsLost "[generate]\noutput_root = 'gen'\n" .symbolPrefix "t" ∧
      IsLost "[generate]\nsymbol_prefix = '9'\nSymbol_Prefix = 'ok_'\n" .outputRoot "out" ∧
      IsLost "[generate]\n\"header_guard_suff\u0130x\" = '_X'\n" .guardSuffix "_Y" :=
  ⟨isLost_of_computed rfl (by decide +kernel) (by decide +kernel),
    isLost_of_computed rfl (by decide +kernel) (by decide +kernel),
    isLost_of_computed rfl (by decide +kernel) (by decide +kernel),
    isLost_of_computed rfl (by decide +kernel) (by decide +kernel)⟩

end Cli

end UnoBindgen
