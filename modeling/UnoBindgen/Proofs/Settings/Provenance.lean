import Mathlib
import UnoBindgen.Proofs.Settings.Gathering
import UnoBindgen.Proofs.Settings.Reading
import UnoBindgen.Proofs.Settings.Regularity

/-!
# Where listed values come from

When a document is added to the layers, the origins are marked along with the values: afterwards
each value in the files is that of the strongest document that has its key, and the origin of the
key is that of this document.  Listing looks the origins up, and the true origin is listed whenever
no variable of the environment is set to the empty text.  Such a variable overrides nothing, but it
is listed as an origin.

Keys must be orderly.  Under an empty first key an entry is marked for a key that it has no value
for.
-/

namespace UnoBindgen.Settings

open Toml

/-! ## The origin of each value -/

/-- The value that the first of some documents has under a path, and where that document is from. -/
def latest? (documents : List (Origin × Table)) (path : List Text) : Option (Origin × Value) :=
  documents.findSome? fun held =>
    (leaf? path (lowerEntries held.2)).map fun value => (held.1, value)

theorem latest?_cons
    (held : Origin × Table)
    (documents : List (Origin × Table))
    (path : List Text) :
    latest? (held :: documents) path =
      ((leaf? path (lowerEntries held.2)).map fun value => (held.1, value)).or
        (latest? documents path) := by
  rw [latest?, List.findSome?_cons]
  cases leaf? path (lowerEntries held.2) <;> rfl

/-- Whether the files of layers have the values of documents, the first document that has a value
deciding, and the origins say which document that was. -/
structure Traces (layers : Layers) (documents : List (Origin × Table)) : Prop where
  orderly : IsOrderly layers.files
  value : ∀ path value, leaf? path layers.files = some value →
    ∃ origin, latest? documents path = some (origin, value)
  present : ∀ path, latest? documents path ≠ none → under? path (.table layers.files) ≠ none
  origin : ∀ key,
    layers.origins.lookup key = (latest? documents (key.splitAt '.')).map Prod.fst

theorem lookup_map_same
    (keys : List Text)
    (origin : Origin)
    (key : Text) :
    (keys.map fun key => (key, origin)).lookup key =
      if key ∈ keys then some origin else none := by
  induction keys with
  | nil => rfl
  | cons first rest induction =>
      rw [List.map_cons, lookup_cons_eq_ite, induction]
      by_cases same : key = first <;> simp [same]

theorem Traces.add
    {layers : Layers}
    {documents : List (Origin × Table)}
    (traces : Traces layers documents)
    {held : Origin × Table}
    (orderly : IsOrderly (lowerEntries held.2)) :
    Traces (layers.add held.2 held.1) (held :: documents) := by
  have upper := isOrderly_effective_ofDocument orderly
  have same := leaf?_effective_ofDocument orderly
  refine ⟨upper.mergeEntries traces.orderly, ?_, ?_, ?_⟩
  · intro path value found
    rw [latest?_cons]
    rcases leaf?_mergeEntries upper.regular.hasDistinctKeys found with new | ⟨absent, old⟩
    · rw [same] at new
      exact ⟨held.1, by rw [new]; rfl⟩
    · rw [same] at absent
      rw [absent]
      exact traces.value path value old
  · intro path found
    rw [latest?_cons] at found
    apply under?_mergeEntries_ne_none upper.regular.hasDistinctKeys
    rw [same]
    cases here : leaf? path (lowerEntries held.2) with
    | some value => exact Or.inl (by simp)
    | none =>
        rw [here] at found
        exact Or.inr (traces.present path found)
  · intro key
    rw [latest?_cons, Layers.add]
    dsimp only
    rw [List.lookup_append, lookup_map_same, traces.origin, ← same]
    cases found : leaf? (key.splitAt '.') ((Layers.ofDocument [] held.2).effective []) with
    | some value =>
        rw [if_pos ((upper.mem_leafKeys_iff key).2 ⟨value, found⟩)]
        rfl
    | none =>
        have absent : key ∉ leafKeys ((Layers.ofDocument [] held.2).effective []) := by
          rw [upper.mem_leafKeys_iff, found]
          simp
        rw [if_neg absent]
        rfl

theorem traces_gather
    {surroundings : Surroundings}
    (orderly : ∀ held ∈ heldDocuments surroundings, IsOrderly (lowerEntries held.2)) :
    Traces (Layers.gather surroundings) (heldDocuments surroundings).reverse :=
  gather_induction Traces
    ⟨by decide, fun path value found => by simp at found,
      fun path found => (found rfl).elim, fun key => rfl⟩
    fun _ _ held member traces => traces.add (orderly held member)

/-! ## The keys of the defaults -/

theorem splitAt_key (setting : Setting) :
    setting.key.splitAt '.' = [setting.sectionName, setting.name] := by
  cases setting <;> decide

theorem leafKeys_document :
    leafKeys Settings.default.document = Setting.all.map Setting.key := by
  decide

theorem exists_setting_of_mem_keys
    {layers : Layers}
    (defaults : layers.defaults = Settings.default.document)
    {key : Text}
    (member : key ∈ layers.keys) :
    key ∈ leafKeys layers.files ∨
      ∃ setting : Setting, key = setting.key ∧ setting.sectionName ∉ leafKeys layers.files := by
  rw [Layers.keys, Text.distinct, List.mem_eraseDups, List.mem_append, defaults,
    leafKeys_document, List.mem_filter, List.mem_map] at member
  rcases member with ofFiles | ⟨⟨setting, -, rfl⟩, uncovered⟩
  · exact Or.inl ofFiles
  · refine Or.inr ⟨setting, rfl, ?_⟩
    have starts : properStarts [setting.sectionName, setting.name] = [setting.sectionName] := rfl
    rw [splitAt_key, starts] at uncovered
    simpa using uncovered

/-! ## Single values -/

/-- A value is found in the environment, in the files or among the defaults. -/
theorem find?_cases
    {layers : Layers}
    {environment : List (Text × Text)}
    {key : Text}
    {value : Value}
    (found : layers.find? environment key = some value) :
    (∃ content, override? environment key = some content ∧ value = .text content) ∨
      override? environment key = none ∧
        (search (.table layers.files) (key.splitAt '.') = some value ∨
          search (.table layers.files) (key.splitAt '.') = none ∧
            follow (key.splitAt '.') layers.defaults = some value) := by
  rw [Layers.find?] at found
  cases overridden : override? environment key with
  | some content =>
      rw [overridden] at found
      exact Or.inl ⟨content, rfl, (Option.some.inj found).symm⟩
  | none =>
      refine Or.inr ⟨rfl, ?_⟩
      rw [overridden] at found
      dsimp only at found
      split at found
      · exact absurd found (by simp)
      · cases searched : search (.table layers.files) (key.splitAt '.') with
        | some other =>
            rw [searched] at found
            exact Or.inl found
        | none =>
            rw [searched] at found
            dsimp only at found
            split at found
            · exact absurd found (by simp)
            · exact Or.inr ⟨rfl, found⟩

section Loaded

variable
  {layers : Layers}
  (orderly : IsOrderly layers.files)
  (defaults : layers.defaults = Settings.default.document)
  {environment : List (Text × Text)}

include orderly in
/-- What is searched for under the key of a setting is found in its section. -/
theorem search_key
    {setting : Setting}
    {value : Value}
    (found : search (.table layers.files) [setting.sectionName, setting.name] = some value) :
    under? [setting.sectionName, setting.name] (.table layers.files) = some value := by
  have undotted : layers.files.lookup
      (Text.join ['.'] [setting.sectionName, setting.name]) = none := by
    rw [lookup_eq_none_iff_not_mem, List.mem_map]
    rintro ⟨entry, member, same⟩
    apply (orderly.regular [] _ rfl).2 entry member
    rw [same, Text.join_cons _ _ (List.cons_ne_nil _ _)]
    simp
  rw [search_pair undotted] at found
  obtain ⟨inner, here, inside⟩ := Option.bind_eq_some_iff.1 found
  rw [under?_cons_table, here, Option.bind_some]
  cases inner with
  | table entries => rwa [under?_singleton_table, ← step_table]
  | array items =>
      have noNumber : setting.name.decimalWord? = none := by cases setting <;> decide
      rw [step, noNumber] at inside
      exact absurd inside (by simp)
  | _ => exact absurd inside (by simp [step])

include defaults in
/-- No key leads above the place of a setting that the files leave to the defaults. -/
theorem not_prefix_key
    {setting : Setting}
    (uncovered : setting.sectionName ∉ leafKeys layers.files)
    {other : Text}
    (member : other ∈ layers.keys)
    (differs : other ≠ setting.key) :
    ¬ other.splitAt '.' <+: setting.key.splitAt '.' := by
  intro above
  obtain ⟨first, rest, split⟩ := List.exists_cons_of_ne_nil (Text.splitAt_ne_nil '.' other)
  have joined := Text.join_splitAt '.' other
  rw [split, splitAt_key, List.cons_prefix_cons] at above
  obtain ⟨rfl, above⟩ := above
  cases rest with
  | nil =>
      rw [split, Text.join_singleton] at joined
      rcases exists_setting_of_mem_keys defaults member with ofFiles | ⟨again, rfl, -⟩
      · exact uncovered (joined ▸ ofFiles)
      · rw [splitAt_key] at split
        exact absurd split (by simp)
  | cons next others =>
      rw [List.cons_prefix_cons, List.prefix_nil] at above
      obtain ⟨rfl, rfl⟩ := above
      rw [← splitAt_key] at split
      apply differs
      rw [← joined, split, Text.join_splitAt]

include orderly defaults in
/-- No value in effect is a table: a file with a table in the place of a setting cannot be loaded. -/
theorem plain_of_find?
    {settings : Settings}
    (loaded : layers.settings environment = .ok settings)
    {key : Text}
    (member : key ∈ layers.keys)
    {value : Value}
    (found : layers.find? environment key = some value) :
    value.isTable = false := by
  rcases exists_setting_of_mem_keys defaults member with ofFiles | ⟨setting, rfl, uncovered⟩
  · obtain ⟨leaf, leafFound⟩ := (orderly.mem_leafKeys_iff key).1 ofFiles
    obtain ⟨there, plain⟩ := (leaf?_eq_some_iff _ _ _).1 leafFound
    have searched := search_of_under? orderly.regular there
    rcases find?_cases found with ⟨content, -, rfl⟩ | ⟨-, inFiles | ⟨absent, -⟩⟩
    · rfl
    · rw [searched] at inFiles
      exact Option.some.inj inFiles ▸ plain
    · rw [searched] at absent
      exact absurd absent (by simp)
  · cases value with
    | table entries =>
        obtain ⟨inner, there⟩ := exists_table_of_mem_nested
          ((Layers.mem_values_iff _ _).2 ⟨member, found⟩)
          (by
            rintro ⟨other, otherValue⟩ given same
            obtain ⟨-, otherFound⟩ := (Layers.mem_values_iff _ _).1 given
            dsimp only at same
            rw [same, found] at otherFound
            exact (Option.some.inj otherFound).symm)
          (by
            rintro ⟨other, otherValue⟩ given differs
            obtain ⟨otherMember, -⟩ := (Layers.mem_values_iff _ _).1 given
            exact not_prefix_key defaults uncovered otherMember differs)
        rw [splitAt_key] at there
        have usable := converted?_ne_none_of_ofDocument loaded there
        exact (usable (by cases setting <;> rfl)).elim
    | _ => rfl

include orderly defaults in
theorem plain_of_mem_values
    {settings : Settings}
    (loaded : layers.settings environment = .ok settings) :
    ∀ given ∈ layers.values environment, given.2.isTable = false := by
  rintro ⟨key, value⟩ given
  obtain ⟨member, found⟩ := (Layers.mem_values_iff _ _).1 given
  exact plain_of_find? orderly defaults loaded member found

include orderly in
/-- A value in effect is that of the environment, that of the files, or that of the defaults where
the files have nothing. -/
theorem value_cases
    (defaults : layers.defaults = Settings.default.document)
    {key : Text}
    (member : key ∈ layers.keys)
    {value : Value}
    (plain : value.isTable = false)
    (found : layers.find? environment key = some value) :
    (∃ content, override? environment key = some content ∧ value = .text content) ∨
      override? environment key = none ∧
        (leaf? (key.splitAt '.') layers.files = some value ∨
          under? (key.splitAt '.') (.table layers.files) = none ∧
            leaf? (key.splitAt '.') Settings.default.document = some value) := by
  refine (find?_cases found).imp_right fun ⟨noOverride, rest⟩ => ⟨noOverride, ?_⟩
  have searched (present : under? (key.splitAt '.') (.table layers.files) ≠ none) :
      search (.table layers.files) (key.splitAt '.') =
        under? (key.splitAt '.') (.table layers.files) := by
    obtain ⟨other, there⟩ := Option.ne_none_iff_exists'.1 present
    rw [there, search_of_under? orderly.regular there]
  rcases rest with inFiles | ⟨absent, ofDefaults⟩
  · refine Or.inl ((leaf?_eq_some_iff _ _ _).2 ⟨?_, plain⟩)
    rcases exists_setting_of_mem_keys defaults member with ofFiles | ⟨setting, rfl, -⟩
    · obtain ⟨leaf, leafFound⟩ := (orderly.mem_leafKeys_iff key).1 ofFiles
      rw [← searched (by rw [((leaf?_eq_some_iff _ _ _).1 leafFound).1]; simp), inFiles]
    · rw [splitAt_key] at inFiles ⊢
      exact search_key orderly inFiles
  · refine Or.inr ⟨?_, (leaf?_eq_some_iff _ _ _).2 ⟨?_, plain⟩⟩
    · by_contra present
      rw [searched present] at absent
      exact present absent
    · rw [← follow_eq_under?, ← defaults, ofDefaults]

include orderly defaults in
theorem isOrderly_effective
    {settings : Settings}
    (loaded : layers.settings environment = .ok settings) :
    IsOrderly (layers.effective environment) := by
  have regular : IsRegular (.table (layers.effective environment)) :=
    isRegular_nested (plain_of_mem_values orderly defaults loaded)
  refine ⟨regular, fun entry entryMember => ?_⟩
  have there : under? [entry.1] (.table (layers.effective environment)) = some entry.2 := by
    rw [under?_singleton_table]
    exact (lookup_eq_some_iff_mem regular.hasDistinctKeys.nodup _ _).2 entryMember
  obtain ⟨⟨key, value⟩, given, rest, split⟩ := exists_splitAt_of_under?_nested there
  have member := ((Layers.mem_values_iff _ _).1 given).1
  rcases exists_setting_of_mem_keys defaults member with ofFiles | ⟨setting, same, -⟩
  · obtain ⟨leaf, leafFound⟩ := (orderly.mem_leafKeys_iff key).1 ofFiles
    dsimp only at split
    rw [split] at leafFound
    exact orderly.head_ne_nil ((leaf?_eq_some_iff _ _ _).1 leafFound).1
  · dsimp only at split
    rw [same, splitAt_key] at split
    rw [← (List.cons.inj split).1]
    cases setting <;> decide

include orderly defaults in
/-- The leaves of the values in effect are the values found under the known keys. -/
theorem find?_of_mem_leaves
    {settings : Settings}
    (loaded : layers.settings environment = .ok settings)
    {key : Text}
    {value : Value}
    (member : (key, value) ∈ leaves [] (layers.effective environment)) :
    key ∈ layers.keys ∧ layers.find? environment key = some value := by
  have effective : IsOrderly (layers.effective environment) :=
    isOrderly_effective orderly defaults loaded
  obtain ⟨path, found, rfl⟩ := (effective.mem_leaves_iff _ _).1 member
  obtain ⟨key, given, rfl⟩ :=
    mem_of_leaf?_nested (plain_of_mem_values orderly defaults loaded) found
  rw [Text.join_splitAt]
  exact (Layers.mem_values_iff _ _).1 given

include orderly defaults in
theorem exists_value_of_mem_list
    {settings : Settings}
    (loaded : layers.settings environment = .ok settings)
    {entry : Listed}
    (member : entry ∈ layers.list environment) :
    ∃ value, entry.key ∈ layers.keys ∧ layers.find? environment entry.key = some value ∧
      value.isTable = false ∧ entry.value = value.sortKeys ∧
      entry.origin = layers.origin environment entry.key := by
  rw [Layers.list, List.mem_map] at member
  obtain ⟨⟨key, shown⟩, leafMember, rfl⟩ := member
  obtain ⟨value, original, same⟩ := exists_of_mem_leaves_sortEntries leafMember
  obtain ⟨keyMember, found⟩ := find?_of_mem_leaves orderly defaults loaded original
  have plain := plain_of_find? orderly defaults loaded keyMember found
  exact ⟨value, keyMember, found, plain, same, rfl⟩

end Loaded

/-! ## The listed values -/

/-- The value of a key and where it is taken from: the environment, unless its variable is empty,
then the files, the strongest first, and the defaults when nothing else has the key. -/
def taken (surroundings : Surroundings) (key : Text) : Option (Origin × Value) :=
  ((override? surroundings.environment key).map fun content =>
      (⟨.environment, Setting.environmentVariable key⟩, .text content)).or
    ((strongest? surroundings fun origin document =>
        (leaf? (key.splitAt '.') (lowerEntries document)).map fun value => (origin, value)).or
      ((leaf? (key.splitAt '.') Settings.default.document).map fun value =>
        (⟨.default, "built-in default"⟩, value)))

/-- Whether a listed value has the origin that it is taken from.  Keys inside lists are listed in
their own order. -/
def Listed.IsTraced (entry : Listed) (surroundings : Surroundings) : Prop :=
  ∃ value, taken surroundings entry.key = some (entry.origin, value) ∧
    entry.value = value.sortKeys

theorem source_ne_environment_of_mem
    {surroundings : Surroundings}
    {origin : Origin}
    {document : Table}
    (member : (origin, document) ∈ heldDocuments surroundings) :
    origin.source ≠ .environment := by
  have candidate := ((mem_heldDocuments_iff _ _ _).1 member).1
  simp only [candidates_eq, List.cons_append, List.nil_append, List.mem_cons, Option.mem_toList,
    Option.map_eq_some_iff] at candidate
  rcases candidate with rfl | rfl | ⟨path, -, rfl⟩ <;> simp

theorem override?_eq_none_iff
    (environment : List (Text × Text))
    (key : Text) :
    override? environment key = none ↔
      environment.lookup (Setting.environmentVariable key) = none ∨
        environment.lookup (Setting.environmentVariable key) = some [] := by
  rw [override?]
  cases environment.lookup (Setting.environmentVariable key) with
  | none => simp
  | some content => simp [Option.filter]

/-- The origin that is listed is the true one unless the variable of the key is set to the empty
text, which the environment is listed for and never decides. -/
theorem exists_taken_of_find?
    {surroundings : Surroundings}
    (traces : Traces (Layers.gather surroundings) (heldDocuments surroundings).reverse)
    {key : Text}
    (member : key ∈ (Layers.gather surroundings).keys)
    {value : Value}
    (plain : value.isTable = false)
    (found : (Layers.gather surroundings).find? surroundings.environment key = some value) :
    ∃ origin, taken surroundings key = some (origin, value) ∧
      ((Layers.gather surroundings).origin surroundings.environment key = origin ↔
        surroundings.environment.lookup (Setting.environmentVariable key) ≠ some []) := by
  have latest : (strongest? surroundings fun origin document =>
      (leaf? (key.splitAt '.') (lowerEntries document)).map fun value => (origin, value)) =
        latest? (heldDocuments surroundings).reverse (key.splitAt '.') :=
    strongest?_eq_findSome? surroundings _
  rw [taken, latest]
  rcases value_cases traces.orderly (defaults_gather surroundings) member plain found with
    ⟨content, overridden, rfl⟩ | ⟨noOverride, rest⟩
  · refine ⟨⟨.environment, Setting.environmentVariable key⟩, by rw [overridden]; rfl, ?_⟩
    have filled : ∃ text, surroundings.environment.lookup (Setting.environmentVariable key) =
        some text ∧ text ≠ [] := by
      rw [override?, Option.filter_eq_some_iff] at overridden
      exact ⟨content, overridden.1, by simpa using overridden.2⟩
    obtain ⟨text, set, nonempty⟩ := filled
    simp [Layers.origin, set, nonempty]
  · -- Below the environment the listed origin is that of the files, and never the environment.
    have below
        {origin : Origin}
        (listed : ((Layers.gather surroundings).origins.lookup key).getD
          ⟨.default, "built-in default"⟩ = origin)
        (other : origin.source ≠ .environment) :
        (Layers.gather surroundings).origin surroundings.environment key = origin ↔
          surroundings.environment.lookup (Setting.environmentVariable key) ≠ some [] := by
      rw [Layers.origin]
      rcases (override?_eq_none_iff _ _).1 noOverride with unset | empty
      · simp only [unset, Option.isSome_none, Bool.false_eq_true, if_false, listed, ne_eq,
          reduceCtorEq, not_false_eq_true]
      · simp only [empty, Option.isSome_some, if_true, ne_eq, not_true_eq_false, iff_false]
        rintro rfl
        exact other rfl
    rw [noOverride]
    rcases rest with inFiles | ⟨absent, ofDefaults⟩
    · obtain ⟨origin, first⟩ := traces.value _ _ inFiles
      refine ⟨origin, by rw [first]; rfl, below ?_ ?_⟩
      · rw [traces.origin, first]
        rfl
      · obtain ⟨⟨held, document⟩, heldMember, picked⟩ :=
          List.exists_of_findSome?_eq_some first
        obtain ⟨leaf, -, same⟩ := Option.map_eq_some_iff.1 picked
        obtain ⟨rfl, -⟩ := Prod.mk.inj same
        exact source_ne_environment_of_mem (List.mem_reverse.1 heldMember)
    · have nothing : latest? (heldDocuments surroundings).reverse (key.splitAt '.') = none := by
        by_contra present
        exact traces.present _ present absent
      refine ⟨⟨.default, "built-in default"⟩, by rw [nothing, ofDefaults]; rfl, below ?_ ?_⟩
      · rw [traces.origin, nothing]
        rfl
      · simp

theorem list_eq_ok_iff
    (surroundings : Surroundings)
    (listed : List Listed) :
    (Memory.empty.list surroundings).1 = .ok listed ↔
      (∃ settings, (Layers.gather surroundings).settings surroundings.environment = .ok settings) ∧
        listed = (Layers.gather surroundings).list surroundings.environment := by
  rw [Memory.list, Memory.load]
  dsimp only [Memory.empty, Memory.gathered, Option.getD_none]
  cases (Layers.gather surroundings).settings surroundings.environment with
  | error fault => simp
  | ok settings => simp [eq_comm]

/-- With nothing remembered, a listed value has its true origin exactly when the variable of its key
is not set to the empty text, for files whose keys are orderly. -/
theorem isTraced_iff_of_list
    (surroundings : Surroundings)
    (orderly : ∀ held ∈ heldDocuments surroundings, IsOrderly (lowerEntries held.2))
    (listed : List Listed)
    (succeeded : (Memory.empty.list surroundings).1 = .ok listed) :
    ∀ entry ∈ listed, entry.IsTraced surroundings ↔
      surroundings.environment.lookup (Setting.environmentVariable entry.key) ≠ some [] := by
  obtain ⟨⟨settings, loaded⟩, whole⟩ := (list_eq_ok_iff surroundings listed).1 succeeded
  have traces := traces_gather orderly
  intro entry member
  rw [whole] at member
  obtain ⟨value, keyMember, found, plain, shown, origin⟩ :=
    exists_value_of_mem_list traces.orderly (defaults_gather surroundings) loaded member
  obtain ⟨source, takenThere, isTrue⟩ := exists_taken_of_find? traces keyMember plain found
  rw [← isTrue, ← origin]
  constructor
  · rintro ⟨other, otherTaken, -⟩
    rw [takenThere] at otherTaken
    exact (Prod.mk.inj (Option.some.inj otherTaken)).1.symm
  · intro same
    exact ⟨value, by rw [takenThere, same], shown⟩

/-- A file with a list of tables and a setting, a variable that overrides another setting, and one
that is empty. -/
def annotatedSurroundings : Surroundings where
  store :=
    ⟨.memory, ["w".toList],
      [ (["w".toList], .directory),
        (["w".toList, "hsuno.toml".toList],
          .file "notes = [\x7bb = 1, A = 2\x7d]\n[generate]\nworkers = 2\n") ],
      fun _ _ => none, fun _ => none⟩
  home := "/u"
  environment := [("HSUNO_LOG_JSON", "true"), ("HSUNO_GENERATE_SYMBOL_PREFIX", "")]

theorem exists_list_of_any
    {surroundings : Surroundings}
    {accepts : Listed → Bool}
    (listed : ((Memory.empty.list surroundings).1.toOption.any fun entries =>
      entries.any accepts) = true) :
    ∃ entries, (Memory.empty.list surroundings).1 = .ok entries ∧
      ∃ entry ∈ entries, accepts entry = true := by
  cases result : (Memory.empty.list surroundings).1 with
  | error fault =>
      rw [result] at listed
      exact absurd listed (by simp [Except.toOption])
  | ok entries =>
      rw [result] at listed
      exact ⟨entries, rfl, by simpa [Except.toOption] using listed⟩

theorem isTraced_iff_annotated :
    (∀ held ∈ heldDocuments annotatedSurroundings, IsOrderly (lowerEntries held.2)) ∧
      ∃ listed, (Memory.empty.list annotatedSurroundings).1 = .ok listed ∧
        (∃ entry ∈ listed, entry.key = "notes" ∧
          entry.origin = ⟨.project, "/w/hsuno.toml"⟩ ∧ entry.IsTraced annotatedSurroundings) ∧
        ∀ entry ∈ listed, entry.key = "generate.symbol_prefix" →
          ¬ entry.IsTraced annotatedSurroundings := by
  have orderly :
      ∀ held ∈ heldDocuments annotatedSurroundings, IsOrderly (lowerEntries held.2) := by
    decide +kernel
  have noted : ((Memory.empty.list annotatedSurroundings).1.toOption.any fun entries =>
      entries.any fun entry => entry.key == "notes" &&
        entry.origin == ⟨.project, "/w/hsuno.toml"⟩) = true := by
    decide +kernel
  obtain ⟨listed, succeeded, entry, member, marked⟩ := exists_list_of_any noted
  have traced := isTraced_iff_of_list annotatedSurroundings orderly listed succeeded
  rw [Bool.and_eq_true, beq_iff_eq, beq_iff_eq] at marked
  refine ⟨orderly, listed, succeeded, ⟨entry, member, marked.1, marked.2, ?_⟩, ?_⟩
  · rw [traced entry member, marked.1]
    decide
  · intro other otherMember same
    rw [traced other otherMember, same]
    decide

/-! ## Misleading origins -/

/-- A variable that is set to the empty text. -/
def emptyVariable : Surroundings where
  store := .empty .memory []
  home := "/u"
  environment := [("HSUNO_GENERATE_WORKERS", "")]

/-- A file with an entry whose key is that of a setting behind an empty part. -/
def displacedEntry : Surroundings where
  store :=
    ⟨.memory, ["w".toList],
      [ (["w".toList], .directory),
        (["w".toList, "hsuno.toml".toList], .file "\".generate.workers\" = 9\n") ],
      fun _ _ => none, fun _ => none⟩
  home := "/u"
  environment := []

/-- Whether a value is listed with another origin than the one it is taken from. -/
def ListsUntraced (surroundings : Surroundings) : Prop :=
  ∃ listed, (Memory.empty.list surroundings).1 = .ok listed ∧
    ∃ entry ∈ listed, ¬ entry.IsTraced surroundings

theorem listsUntraced_of_any
    {surroundings : Surroundings}
    (listed : ((Memory.empty.list surroundings).1.toOption.any fun entries =>
      entries.any fun entry =>
        (taken surroundings entry.key).map Prod.fst != some entry.origin) = true) :
    ListsUntraced surroundings := by
  obtain ⟨entries, succeeded, entry, member, differs⟩ := exists_list_of_any listed
  refine ⟨entries, succeeded, entry, member, ?_⟩
  rintro ⟨value, there, -⟩
  rw [there] at differs
  exact absurd differs (by simp)

/-- The environment is listed for a variable that overrides nothing, and a file for a setting that
it says nothing about. -/
theorem listsUntraced_empty_and_displaced :
    ListsUntraced emptyVariable ∧ ListsUntraced displacedEntry :=
  ⟨listsUntraced_of_any (by decide +kernel), listsUntraced_of_any (by decide +kernel)⟩

end UnoBindgen.Settings
