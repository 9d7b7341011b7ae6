import UnoBindgen.Proofs.Settings.Reading
import UnoBindgen.Proofs.Toml.Assembly
import UnoBindgen.Proofs.Toml.PathOrder
import UnoBindgen.Settings.File

/-!
# What a document says about a setting

Keys are compared without regard to case, so a document may mention a setting more than once.  It is
read exactly when its sections are tables and every mention of a setting has the type of the
setting, and then the last mention of each setting counts.

The order of the mentions is that of the document.  Printing a document and reading it again keeps
it, but sorting the keys first does not, unless a document stays the same to read.  The main lemmas
say what a document mentions that was changed under one key, sorted and printed.
-/

namespace UnoBindgen

open Toml

namespace Setting

theorem find?_eq_some_iff
    (sectionName name : Text)
    (setting : Setting) :
    find? sectionName name = some setting ↔
      setting.sectionName = sectionName ∧ setting.name = name := by
  constructor
  · intro found
    have holds := List.find?_some found
    simpa only [Bool.and_eq_true, beq_iff_eq] using holds
  · rintro ⟨rfl, rfl⟩
    cases setting <;> decide

theorem isSection_sectionName (setting : Setting) :
    isSection setting.sectionName = true := by
  cases setting <;> decide

/-- Whether a value has the type of a setting. -/
def takes (setting : Setting) (value : Value) : Bool :=
  match setting.form, value with
  | .text, .text _ => true
  | .number, .integer _ => true
  | .truth, .truth _ => true
  | _, _ => false

theorem assign?_eq_none_iff
    (settings : Settings)
    (setting : Setting)
    (value : Value) :
    settings.assign? setting value = none ↔ setting.takes value = false := by
  rw [Settings.assign?.eq_def, takes.eq_def]
  cases setting.form <;> cases value <;> simp

/-! ## Mentions -/

/-- What the entries of its section say about a setting. -/
def named (setting : Setting) (entries : Table) : List Value :=
  (entries.filter fun entry => entry.1.toLower = setting.name).map Prod.snd

/-- What a top-level entry says about a setting, the last mention last. -/
def mentionsIn (setting : Setting) (key : Text) (value : Value) : List Value :=
  match value with
  | .table entries => if key.toLower = setting.sectionName then setting.named entries else []
  | _ => []

/-- What a document says about a setting, the last mention last. -/
def mentions (setting : Setting) (document : Table) : List Value :=
  document.flatMap fun entry => setting.mentionsIn entry.1 entry.2

theorem named_append
    (setting : Setting)
    (front back : Table) :
    setting.named (front ++ back) = setting.named front ++ setting.named back := by
  simp only [named, List.filter_append, List.map_append]

theorem mentions_cons
    (setting : Setting)
    (key : Text)
    (value : Value)
    (rest : Table) :
    setting.mentions ((key, value) :: rest) =
      setting.mentionsIn key value ++ setting.mentions rest := rfl

theorem mentionsIn_cons
    (setting : Setting)
    (key name : Text)
    (value : Value)
    (rest : Table) :
    setting.mentionsIn key (.table ((name, value) :: rest)) =
      (if find? key.toLower name.toLower = some setting then [value] else []) ++
        setting.mentionsIn key (.table rest) := by
  simp only [find?_eq_some_iff, mentionsIn, named, List.filter_cons]
  by_cases sectionNamed : key.toLower = setting.sectionName
  · by_cases named : name.toLower = setting.name
    · simp [sectionNamed, named]
    · simp [sectionNamed, named, Ne.symm named]
  · simp [sectionNamed, Ne.symm sectionNamed]

theorem mentionsIn_of_not_isSection
    {key : Text}
    (other : isSection key.toLower ≠ true)
    (setting : Setting)
    (value : Value) :
    setting.mentionsIn key value = [] := by
  have differs : key.toLower ≠ setting.sectionName := fun same =>
    other (same ▸ setting.isSection_sectionName)
  cases value with
  | table entries => rw [mentionsIn, if_neg differs]
  | _ => rfl

end Setting

namespace Settings

open Setting

/-! ## The last mention counts -/

theorem getD_getLast?_append
    {Item : Type}
    (front back : List Item)
    (otherwise : Item) :
    (front ++ back).getLast?.getD otherwise =
      back.getLast?.getD (front.getLast?.getD otherwise) := by
  rw [List.getLast?_append]
  cases back.getLast? <;> rfl

/-- A section is read until a mention has not the type of its setting, and the last mention of each
setting counts. -/
theorem readSection_cases
    (key : Text)
    (entries : Table)
    (start : Settings) :
    (∃ result, readSection key.toLower start entries = .ok result ∧
      ∀ setting : Setting,
        (∀ value ∈ setting.mentionsIn key (.table entries), setting.takes value = true) ∧
          result.value setting =
            (setting.mentionsIn key (.table entries)).getLast?.getD (start.value setting)) ∨
      readSection key.toLower start entries = .error .mismatch ∧
        ∃ setting : Setting, ∃ value ∈ setting.mentionsIn key (.table entries),
          setting.takes value = false := by
  induction entries generalizing start with
  | nil =>
      have nothing (setting : Setting) : setting.mentionsIn key (.table []) = [] := by
        rw [mentionsIn]
        split <;> rfl
      exact Or.inl ⟨start, rfl, fun setting => by simp [nothing]⟩
  | cons entry rest induction =>
      obtain ⟨name, value⟩ := entry
      rw [readSection]
      simp only [mentionsIn_cons]
      cases found : find? key.toLower name.toLower with
      | none =>
          simp only [reduceCtorEq, if_false, List.nil_append]
          exact induction start
      | some named =>
          cases assigned : start.assign? named value with
          | none =>
              have refused := (assign?_eq_none_iff start named value).1 assigned
              exact Or.inr ⟨by simp only [assigned], named, value, by simp, refused⟩
          | some changed =>
              have taken : named.takes value = true := by
                rw [← Bool.not_eq_false, ← assign?_eq_none_iff start, assigned]
                simp
              simp only [assigned]
              rcases induction changed with
                ⟨result, read, typed⟩ | ⟨read, setting, other, member, refused⟩
              · refine Or.inl ⟨result, read, fun setting => ?_⟩
                obtain ⟨later, last⟩ := typed setting
                rw [List.forall_mem_append, getD_getLast?_append, last,
                  value_of_assign? assigned setting]
                by_cases same : setting = named
                · subst same
                  simpa [taken] using later
                · simpa [same, Ne.symm same] using later
              · exact Or.inr
                  ⟨read, setting, other, List.mem_append_right _ member, refused⟩

/-- Whether the sections of a document are tables, and all that it says about settings has their
types. -/
structure IsTyped (document : Table) : Prop where
  sections : ∀ entry ∈ document, isSection entry.1.toLower = true → entry.2.isTable = true
  takes : ∀ setting : Setting, ∀ value ∈ setting.mentions document, setting.takes value = true

theorem isTyped_cons_iff
    (key : Text)
    (value : Value)
    (rest : Table) :
    IsTyped ((key, value) :: rest) ↔
      (isSection key.toLower = true → value.isTable = true) ∧
        (∀ setting : Setting, ∀ said ∈ setting.mentionsIn key value,
          setting.takes said = true) ∧
        IsTyped rest := by
  constructor
  · rintro ⟨sections, takes⟩
    simp only [mentions_cons, List.forall_mem_append] at takes
    rw [List.forall_mem_cons] at sections
    exact ⟨sections.1, fun setting => (takes setting).1, sections.2, fun setting => (takes setting).2⟩
  · rintro ⟨here, said, sections, takes⟩
    refine ⟨List.forall_mem_cons.2 ⟨here, sections⟩, fun setting => ?_⟩
    rw [mentions_cons, List.forall_mem_append]
    exact ⟨said setting, takes setting⟩

/-- A document is read exactly when it is typed, and then the last mention of each setting counts. -/
theorem readOver_cases
    (document : Table)
    (start : Settings) :
    (IsTyped document ∧ ∃ result, start.readOver document = .ok result ∧
      ∀ setting : Setting,
        result.value setting = (setting.mentions document).getLast?.getD (start.value setting)) ∨
      ¬ IsTyped document ∧ start.readOver document = .error .mismatch := by
  induction document generalizing start with
  | nil => exact Or.inl ⟨⟨by simp, by simp [mentions]⟩, start, rfl, fun setting => rfl⟩
  | cons entry rest induction =>
      obtain ⟨key, value⟩ := entry
      rw [readOver.eq_def, isTyped_cons_iff]
      simp only [mentions_cons, getD_getLast?_append]
      by_cases isSection : isSection key.toLower = true
      · simp only [isSection, if_true, true_implies]
        cases value with
        | table entries =>
            rcases readSection_cases key entries start with
              ⟨changed, read, typed⟩ | ⟨read, setting, said, member, refused⟩
            · simp only [Value.isTable, true_and, read]
              rcases induction changed with ⟨restTyped, result, later, last⟩ | ⟨untyped, failed⟩
              · refine Or.inl ⟨⟨fun setting => (typed setting).1, restTyped⟩, result, later, ?_⟩
                intro setting
                rw [last, (typed setting).2]
              · exact Or.inr ⟨fun whole => untyped whole.2, failed⟩
            · refine Or.inr ⟨fun whole => ?_, by simp only [read]⟩
              rw [whole.2.1 setting said member] at refused
              exact absurd refused (by simp)
        | _ => exact Or.inr ⟨fun whole => by simp [Value.isTable] at whole, rfl⟩
      · simp only [mentionsIn_of_not_isSection isSection, isSection, List.getLast?_nil,
          Option.getD_none]
        simpa using induction start

theorem readOver_eq_ok_iff
    (document : Table)
    (start result : Settings) :
    start.readOver document = .ok result ↔
      IsTyped document ∧ ∀ setting : Setting,
        result.value setting = (setting.mentions document).getLast?.getD (start.value setting) := by
  rcases readOver_cases document start with ⟨typed, other, read, last⟩ | ⟨untyped, failed⟩
  · rw [read, Except.ok.injEq]
    constructor
    · rintro rfl
      exact ⟨typed, last⟩
    · rintro ⟨-, same⟩
      exact eq_of_value_eq fun setting => (last setting).trans (same setting).symm
  · rw [failed]
    simp [untyped]

end Settings

namespace Setting

/-! ## Mentions in printed documents -/

/-- Whether a value is of a kind that settings have. -/
def isScalar : Value → Bool
  | .text _ | .integer _ | .truth _ => true
  | _ => false

theorem isScalar_of_takes
    {setting : Setting}
    {value : Value}
    (taken : setting.takes value = true) :
    isScalar value = true := by
  rw [takes.eq_def] at taken
  cases value <;> cases form : setting.form <;> simp_all [isScalar]

theorem respelled_of_isScalar
    {value : Value}
    (scalar : isScalar value = true) :
    value.respelled = value := by
  cases value <;> simp_all [isScalar, Value.respelled]

theorem sortKeys_of_isScalar
    {value : Value}
    (scalar : isScalar value = true) :
    value.sortKeys = value := by
  cases value <;> simp_all [isScalar, Value.sortKeys]

theorem hasHeader_of_isScalar
    {value : Value}
    (scalar : isScalar value = true) :
    value.hasHeader = false := by
  cases value <;> simp_all [isScalar, Value.hasHeader]

theorem mentionsIn_of_isTable_eq_false
    {value : Value}
    (plain : value.isTable = false)
    (setting : Setting)
    (key : Text) :
    setting.mentionsIn key value = [] := by
  cases value with
  | table entries => simp [Value.isTable] at plain
  | _ => rfl

theorem isTable_of_hasHeader_eq_false
    {value : Value}
    (plain : value.hasHeader = false) :
    value.isTable = false := by
  cases value <;> simp_all [Value.hasHeader, Value.isTable]

/-- Mentions of the kinds that settings have keep their order in a section. -/
theorem mentionsIn_laidOut
    {setting : Setting}
    {key : Text}
    {value : Value}
    (scalars : ∀ said ∈ setting.mentionsIn key value, isScalar said = true) :
    setting.mentionsIn key value.laidOut = setting.mentionsIn key value := by
  cases value with
  | table entries =>
      rw [Value.laidOut, mentionsIn, mentionsIn]
      by_cases sectionNamed : key.toLower = setting.sectionName
      · rw [mentionsIn, if_pos sectionNamed, named] at scalars
        have scalar (entry : Text × Value) (member : entry ∈ entries)
            (isNamed : entry.1.toLower = setting.name) : isScalar entry.2 = true :=
          scalars _ (List.mem_map_of_mem (List.mem_filter.2 ⟨member, by simpa using isNamed⟩))
        have plain : setting.named (respelledEntries (plainEntries entries)) =
            setting.named entries := by
          rw [named, named, respelledEntries_eq_map, plainEntries, List.filter_map, List.map_map,
            List.filter_filter]
          have kept : ∀ entry ∈ entries,
              (((fun entry : Text × Value => decide (entry.1.toLower = setting.name)) ∘
                  fun entry => (entry.1, entry.2.respelled)) entry && !entry.2.hasHeader) =
                decide (entry.1.toLower = setting.name) := by
            intro entry member
            by_cases isNamed : entry.1.toLower = setting.name
            · simp [isNamed, hasHeader_of_isScalar (scalar entry member isNamed)]
            · simp [isNamed]
          rw [List.filter_congr kept]
          refine List.map_congr_left fun entry member => ?_
          obtain ⟨there, isNamed⟩ := List.mem_filter.1 member
          exact respelled_of_isScalar (scalar entry there (by simpa using isNamed))
        have headed : setting.named (laidOutSections entries) = [] := by
          rw [named, List.map_eq_nil_iff, laidOutSections_eq_map, List.filter_eq_nil_iff,
            List.forall_mem_map]
          intro entry member isNamed
          obtain ⟨there, isHeaded⟩ := List.mem_filter.1 member
          have unheaded := hasHeader_of_isScalar (scalar entry there (by simpa using isNamed))
          rw [unheaded] at isHeaded
          exact absurd isHeaded (by simp)
        rw [if_pos sectionNamed, if_pos sectionNamed, named_append, plain, headed, List.append_nil]
      · rw [if_neg sectionNamed, if_neg sectionNamed]
  | _ => rfl

theorem mentions_eq_nil_of_plain
    {entries : Table}
    (plain : ∀ entry ∈ entries, entry.2.isTable = false)
    (setting : Setting) :
    setting.mentions entries = [] :=
  List.flatMap_eq_nil_iff.2 fun entry member =>
    mentionsIn_of_isTable_eq_false (plain entry member) setting entry.1

theorem mentions_append
    (setting : Setting)
    (front back : Table) :
    setting.mentions (front ++ back) = setting.mentions front ++ setting.mentions back :=
  List.flatMap_append

/-- What is read back mentions a setting as the printed document did. -/
theorem mentions_laidOut
    {setting : Setting}
    {document : Table}
    (scalars : ∀ said ∈ setting.mentions document, isScalar said = true) :
    setting.mentions document.laidOut = setting.mentions document := by
  have plain : setting.mentions (respelledEntries (plainEntries document)) = [] := by
    rw [respelledEntries_eq_map]
    refine mentions_eq_nil_of_plain (List.forall_mem_map.2 fun entry member => ?_) setting
    have unheaded := (List.mem_filter.1 member).2
    rw [isTable_respelled]
    exact isTable_of_hasHeader_eq_false (by simpa using unheaded)
  rw [Table.laidOut, mentions_append, plain, List.nil_append]
  clear plain
  induction document with
  | nil => rfl
  | cons entry rest induction =>
      obtain ⟨key, value⟩ := entry
      rw [mentions_cons, List.forall_mem_append] at scalars
      rw [laidOutSections, mentions_cons]
      split
      · rw [mentions_cons, mentionsIn_laidOut scalars.1, induction scalars.2]
      · rename_i unheaded
        rw [Bool.not_eq_true] at unheaded
        rw [induction scalars.2,
          mentionsIn_of_isTable_eq_false (isTable_of_hasHeader_eq_false unheaded), List.nil_append]

end Setting

namespace Settings

open Setting

theorem IsTyped.laidOut
    {document : Table}
    (typed : IsTyped document) :
    IsTyped document.laidOut where
  sections := by
    intro entry member isSection
    rcases List.mem_append.1 member with plain | headed
    · rw [respelledEntries_eq_map] at plain
      obtain ⟨original, there, rfl⟩ := List.mem_map.1 plain
      obtain ⟨inDocument, unheaded⟩ := List.mem_filter.1 there
      rw [isTable_respelled]
      exact typed.sections original inDocument isSection
    · rw [laidOutSections_eq_map] at headed
      obtain ⟨original, there, rfl⟩ := List.mem_map.1 headed
      rw [isTable_laidOut]
      exact typed.sections original (List.mem_of_mem_filter there) isSection
  takes := by
    intro setting
    have taken := typed.takes setting
    rwa [mentions_laidOut fun said member => isScalar_of_takes (taken said member)]

end Settings

namespace Setting

/-! ## Mentions in a changed document -/

theorem eq_of_names_eq
    {setting other : Setting}
    (sections : setting.sectionName = other.sectionName)
    (names : setting.name = other.name) :
    setting = other := by
  have found := (find?_eq_some_iff _ _ setting).2 ⟨rfl, rfl⟩
  rw [sections, names] at found
  have again := (find?_eq_some_iff _ _ other).2 ⟨rfl, rfl⟩
  exact Option.some.inj (found.symm.trans again)

theorem toLower_sectionName (setting : Setting) :
    setting.sectionName.toLower = setting.sectionName := by
  cases setting <;> decide

theorem toLower_name (setting : Setting) :
    setting.name.toLower = setting.name := by
  cases setting <;> decide

/-- The entries of a value that is a table. -/
def entriesOf : Value → Table
  | .table entries => entries
  | _ => []

/-- Whether no other spelling of a setting comes behind its own when the keys of a document are
sorted. -/
def IsSpelledLast (setting : Setting) (document : Table) : Prop :=
  ∀ entry ∈ document, ∀ inner ∈ entriesOf entry.2,
    entry.1.toLower = setting.sectionName → inner.1.toLower = setting.name →
      ¬ ComesBefore [setting.sectionName, setting.name] [entry.1, inner.1]

instance (setting : Setting) (document : Table) : Decidable (setting.IsSpelledLast document) :=
  inferInstanceAs (Decidable (∀ entry ∈ document, ∀ inner ∈ entriesOf entry.2,
    entry.1.toLower = setting.sectionName → inner.1.toLower = setting.name →
      ¬ ComesBefore [setting.sectionName, setting.name] [entry.1, inner.1]))

theorem mem_named_iff
    (setting : Setting)
    (entries : Table)
    (said : Value) :
    said ∈ setting.named entries ↔
      ∃ name, name.toLower = setting.name ∧ (name, said) ∈ entries := by
  simp only [named, List.mem_map, List.mem_filter, decide_eq_true_eq, Prod.exists]
  constructor
  · rintro ⟨name, value, ⟨member, isNamed⟩, rfl⟩
    exact ⟨name, isNamed, member⟩
  · rintro ⟨name, isNamed, member⟩
    exact ⟨name, said, ⟨member, isNamed⟩, rfl⟩

/-- Putting an entry under the name of a setting adds to what its section says about it, and does
not change what the section says about other settings. -/
theorem exists_named_put
    {entries : Table}
    (nodup : (entries.map Prod.fst).Nodup)
    (setting : Setting)
    (value : Value) :
    ∃ before after,
      setting.named (sortEntries (Table.put setting.name value entries)) =
        before ++ value.sortKeys :: setting.named after ∧
      (∀ said ∈ before, said ∈ setting.named (sortEntries entries)) ∧
      (∀ entry ∈ after, entry ∈ sortEntries entries ∧ setting.name.bytes < entry.1.bytes) ∧
      ∀ other : Setting, other.name ≠ setting.name →
        other.named (sortEntries (Table.put setting.name value entries)) =
          other.named (sortEntries entries) := by
  obtain ⟨before, after, new, old, behind⟩ := exists_sortEntries_put nodup setting.name value
  rw [new, old]
  refine ⟨setting.named before, after, ?_, ?_, ?_, ?_⟩
  · rw [named_append]
    simp [named, toLower_name]
  · intro said member
    rw [named_append, named_append]
    exact List.mem_append_left _ (List.mem_append_left _ member)
  · intro entry member
    exact ⟨List.mem_append_right _ member, behind entry member⟩
  · intro other differs
    have unnamed (said : Value) : other.named [(setting.name, said)] = [] := by
      simp [named, toLower_name, Ne.symm differs]
    rw [named_append, named_append, ← List.singleton_append, named_append, unnamed]
    cases entries.lookup setting.name with
    | none => simp [named]
    | some existing => simp [named_append, unnamed]

theorem exists_of_mem_mentionsIn
    {setting : Setting}
    {key : Text}
    {value said : Value}
    (mentioned : said ∈ setting.mentionsIn key value) :
    key.toLower = setting.sectionName ∧
      ∃ name, name.toLower = setting.name ∧ (name, said) ∈ entriesOf value := by
  cases value with
  | table entries =>
      rw [mentionsIn] at mentioned
      split at mentioned
      · rename_i sectionNamed
        exact ⟨sectionNamed, (mem_named_iff _ _ _).1 mentioned⟩
      · simp at mentioned
  | _ => simp [mentionsIn] at mentioned

theorem exists_mem_entriesOf_of_sortKeys
    {value : Value}
    {entry : Text × Value}
    (member : entry ∈ entriesOf value.sortKeys) :
    ∃ original ∈ entriesOf value, entry = (original.1, original.2.sortKeys) := by
  cases value with
  | table entries =>
      obtain ⟨original, there, same⟩ := (mem_sortEntries_iff entries entry).1 member
      exact ⟨original, there, same⟩
  | _ => simp [Value.sortKeys, entriesOf] at member

section Changed

variable
  {document : Table}
  (sound : (Value.table document).IsSound)
  (typed : Settings.IsTyped (sortEntries document))
  (setting : Setting)

include typed in
/-- A section that is not there says as much as an empty one. -/
theorem mentions_section
    (other : Setting) :
    other.mentions
        ((document.lookup setting.sectionName).map fun existing =>
          (setting.sectionName, existing.sortKeys)).toList =
      other.mentionsIn setting.sectionName
        (.table (sortEntries (Table.inner setting.sectionName document))) := by
  have absent : other.mentionsIn setting.sectionName (.table []) = [] := by
    rw [mentionsIn]
    split <;> rfl
  rw [Table.inner]
  cases found : document.lookup setting.sectionName with
  | none => exact absent.symm
  | some existing =>
      have inSorted : (setting.sectionName, existing.sortKeys) ∈ sortEntries document :=
        (mem_sortEntries_iff _ _).2 ⟨_, mem_of_lookup found, rfl⟩
      have isTable := typed.sections _ inSorted
        (by rw [toLower_sectionName]; exact setting.isSection_sectionName)
      cases existing with
      | table entries => exact List.append_nil _
      | _ => simp [Value.sortKeys, Value.isTable] at isTable

/-- What its own section says about a setting. -/
theorem mentionsIn_own
    (setting : Setting)
    (entries : Table) :
    setting.mentionsIn setting.sectionName (.table entries) = setting.named entries := by
  rw [mentionsIn, if_pos setting.toLower_sectionName]

theorem mentionsIn_congr
    {other : Setting}
    {key : Text}
    {left right : Table}
    (same : other.sectionName = key.toLower → other.named left = other.named right) :
    other.mentionsIn key (.table left) = other.mentionsIn key (.table right) := by
  rw [mentionsIn, mentionsIn]
  split
  · rename_i sectionNamed
    exact same sectionNamed.symm
  · rfl

/-- A setting that is spelled last is not mentioned behind its own spelling in its section. -/
theorem named_eq_nil_of_isSpelledLast
    (last : setting.IsSpelledLast document)
    {after : Table}
    (later : ∀ entry ∈ after,
      entry ∈ sortEntries (Table.inner setting.sectionName document) ∧
        setting.name.bytes < entry.1.bytes) :
    setting.named after = [] := by
  refine List.eq_nil_iff_forall_not_mem.2 fun said mentioned => ?_
  obtain ⟨name, isNamed, member⟩ := (mem_named_iff _ _ _).1 mentioned
  obtain ⟨sorted, behind⟩ := later _ member
  obtain ⟨original, inSection, same⟩ := (mem_sortEntries_iff _ _).1 sorted
  obtain ⟨rfl, -⟩ := Prod.mk.inj same
  rw [Table.inner] at inSection
  split at inSection
  · rename_i found
    exact last _ (mem_of_lookup found) original inSection setting.toLower_sectionName isNamed
      (.inside _ (.here behind [] []))
  · simp at inSection

/-- Nor is it mentioned in a section behind its own. -/
theorem mentions_eq_nil_of_isSpelledLast
    (last : setting.IsSpelledLast document)
    {back : Table}
    (later : ∀ entry ∈ back,
      entry ∈ sortEntries document ∧ setting.sectionName.bytes < entry.1.bytes) :
    setting.mentions back = [] := by
  refine List.flatMap_eq_nil_iff.2 fun entry member => ?_
  obtain ⟨sorted, behind⟩ := later entry member
  refine List.eq_nil_iff_forall_not_mem.2 fun said mentioned => ?_
  obtain ⟨original, there, rfl⟩ := (mem_sortEntries_iff _ _).1 sorted
  obtain ⟨sectionNamed, name, isNamed, inSorted⟩ := exists_of_mem_mentionsIn mentioned
  obtain ⟨inner, inSection, same⟩ := exists_mem_entriesOf_of_sortKeys inSorted
  obtain ⟨rfl, rfl⟩ := Prod.mk.inj same
  exact last original there inner inSection sectionNamed isNamed (.here behind _ _)

include sound typed in
/-- A document that is changed under the own spelling of a setting mentions the new value, the last of
all if the setting is spelled last, and what it says about other settings stays. -/
theorem exists_mentions_changed (value : Value) :
    ∃ before after,
      setting.mentions
          (sortEntries (Settings.changed document setting.sectionName setting.name value)) =
        before ++ value.sortKeys :: after ∧
      (∀ said ∈ before ++ after, said ∈ setting.mentions (sortEntries document)) ∧
      (setting.IsSpelledLast document → after = []) ∧
      ∀ other : Setting, other ≠ setting →
        other.mentions
            (sortEntries (Settings.changed document setting.sectionName setting.name value)) =
          other.mentions (sortEntries document) := by
  have innerDistinct := (sound.inner setting.sectionName).hasDistinctKeys
  obtain ⟨front, back, new, old, behind⟩ := exists_sortEntries_put sound.nodup setting.sectionName
    (.table (Table.put setting.name value (Table.inner setting.sectionName document)))
  obtain ⟨before, after, newSection, kept, later, others⟩ :=
    exists_named_put innerDistinct.nodup setting value
  have inSorted : ∀ entry ∈ back, entry ∈ sortEntries document := by
    rw [old]
    exact fun entry member => List.mem_append_right _ member
  refine ⟨setting.mentions front ++ before, setting.named after ++ setting.mentions back,
    ?_, ?_, ?_, ?_⟩
  · rw [Settings.changed, new, mentions_append, mentions_cons, Value.sortKeys, mentionsIn_own,
      newSection]
    simp
  · intro said member
    rw [old, mentions_append, mentions_append, mentions_section typed, mentionsIn_own]
    simp only [List.mem_append] at member ⊢
    rcases member with (inFront | inBefore) | inAfter | inBack
    · exact Or.inl (Or.inl inFront)
    · exact Or.inl (Or.inr (kept said inBefore))
    · refine Or.inl (Or.inr ?_)
      obtain ⟨name, isNamed, listed⟩ := (mem_named_iff _ _ _).1 inAfter
      exact (mem_named_iff _ _ _).2 ⟨name, isNamed, (later _ listed).1⟩
    · exact Or.inr inBack
  · intro last
    rw [named_eq_nil_of_isSpelledLast setting last later,
      mentions_eq_nil_of_isSpelledLast setting last
        fun entry member => ⟨inSorted entry member, behind entry member⟩]
    rfl
  · intro other differs
    rw [Settings.changed, new, old, mentions_append, mentions_append, mentions_append,
      mentions_cons, mentions_section typed, Value.sortKeys]
    have sameNames (sections : other.sectionName = setting.sectionName.toLower) :=
      others other fun names =>
        differs (eq_of_names_eq (sections.trans setting.toLower_sectionName) names)
    rw [mentionsIn_congr sameNames, List.append_assoc]

end Changed

end Setting

end UnoBindgen
