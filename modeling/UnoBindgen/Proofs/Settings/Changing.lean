import UnoBindgen.Proofs.Settings.Backups
import UnoBindgen.Proofs.Toml.Assembly

/-!
# Changing one value in a file

A value is changed by reading the whole document, changing it at one key and writing all of it again.
What is written describes the changed document, and the changed document has the new value under its
key and differs from the earlier one nowhere else, with one exception: a section that was there but
no table is replaced by one.

How documents are written as texts does not matter, as long as what is written is read back.
-/

namespace UnoBindgen

open FileStore
open Text.SlashPath

namespace Toml

/-! ## Paths apart from a changed one -/

/-- Whether a path neither passes a place nor leads to it or below it. -/
def IsApart (path place : List Text) : Prop :=
  ¬ path <+: place ∧ ¬ place <+: path

/-- Whether every value that is no table keeps its place in a second value, unless it is at a given
place or below it. -/
def KeepsLeaves (before after : Value) (place : List Text) : Prop :=
  ∀ path leaf, under? path before = some leaf → leaf.isTable = false → ¬ place <+: path →
    (under? path after).map Value.normal = some leaf.normal

end Toml

open Toml

namespace Settings

section Changed

variable
  (document : Table)
  (sectionName name : Text)
  (value : Value)

/-- The new value is under its key. -/
theorem under?_changed :
    under? [sectionName, name] (.table (changed document sectionName name value)) = some value := by
  rw [changed, under?_put, if_pos rfl, under?_put, if_pos rfl, under?_nil]

/-- Everything apart from the key is as it was. -/
theorem under?_changed_of_isApart
    {path : List Text}
    (apart : IsApart path [sectionName, name]) :
    under? path (.table (changed document sectionName name value)) =
      under? path (.table document) := by
  obtain ⟨notAbove, notBelow⟩ := apart
  match path with
  | [] => exact absurd List.nil_prefix notAbove
  | key :: rest =>
      rw [changed, under?_put]
      split
      · rename_i same
        subst same
        match rest with
        | [] => exact absurd (List.prefix_append [key] [name]) notAbove
        | second :: below =>
            have differs : second ≠ name := by
              rintro rfl
              exact notBelow (List.prefix_append [key, second] below)
            rw [under?_put, if_neg differs, under?_inner key (List.cons_ne_nil second below)]
      · rfl

/-- All values that are no tables keep their places exactly if the section was a table or was not
there. -/
theorem keepsLeaves_changed_iff
    {document : Table}
    {after : Value}
    (here : ∃ entries, under? [sectionName] after = some (.table entries))
    (elsewhere :
      ∀ path, IsApart path [sectionName, name] →
        (under? path after).map Value.normal =
          (under? path (.table document)).map Value.normal) :
    KeepsLeaves (.table document) after [sectionName, name] ↔
      (document.lookup sectionName).all Value.isTable = true := by
  rw [Option.all_eq_true]
  constructor
  · intro keeps entry found
    by_contra plain
    rw [Bool.not_eq_true] at plain
    have notBelow : ¬ [sectionName, name] <+: [sectionName] := fun longer => by
      simpa using longer.length_le
    obtain ⟨entries, replaced⟩ := here
    have kept := keeps [sectionName] entry (by rwa [under?_singleton_table]) plain notBelow
    rw [replaced, Option.map_some, Option.some.injEq] at kept
    have tables := congrArg Value.isTable kept
    rw [isTable_normal, isTable_normal, plain] at tables
    exact absurd tables (by simp [Value.isTable])
  · intro isTable path leaf found plain notBelow
    have notAbove : ¬ path <+: [sectionName, name] := by
      intro above
      rcases path with _ | ⟨first, _ | ⟨second, rest⟩⟩
      · obtain rfl : Value.table document = leaf := by simpa using found
        exact absurd plain (by simp [Value.isTable])
      · obtain rfl : first = sectionName := by simpa using above
        rw [under?_singleton_table] at found
        rw [isTable leaf found] at plain
        exact absurd plain (by simp)
      · obtain ⟨rfl, rfl, empty⟩ : first = sectionName ∧ second = name ∧ rest <+: [] := by
          simpa [List.cons_prefix_cons] using above
        exact notBelow (List.prefix_append _ rest)
    rw [elsewhere path ⟨notAbove, notBelow⟩, found, Option.map_some]

end Changed

/-! ## What is written -/

theorem isSound_changed
    {document : Table}
    (sound : (Value.table document).IsSound)
    (sectionName name : Text)
    {value : Value}
    (valueSound : value.IsSound) :
    (Value.table (changed document sectionName name value)).IsSound :=
  sound.put sectionName ((sound.inner sectionName).put name valueSound)

/-- What is read is sound, and a sound document that is written is read back, up to the order of its
keys and the spelling of moments. -/
structure Codec.RoundTrips (codec : Codec) : Prop where
  sound :
    ∀ text document, codec.parse text = .ok document → (Value.table document).IsSound
  restores :
    ∀ document, (Value.table document).IsSound →
      ∃ result, codec.parse (codec.print document) = .ok result ∧
        (Value.table result).normal = (Value.table document).normal

theorem Codec.roundTrips_toml : Codec.toml.RoundTrips where
  sound _ _ parsed := isSound_of_parse parsed
  restores _ sound := ⟨_, parse_print sound, normal_laidOut sound⟩

theorem isSound_of_readDocument
    {codec : Codec}
    (law : codec.RoundTrips)
    {store : FileStore}
    {path : Text}
    {document : Table}
    (read : (readDocument codec path store).1 = .ok document) :
    (Value.table document).IsSound := by
  rw [readDocument] at read
  split at read
  · split at read
    · obtain rfl := Except.ok.inj read
      exact (Value.isSound_table_iff []).2 ⟨List.nodup_nil, by simp⟩
    · simp at read
  · split at read
    · rename_i parsed
      obtain rfl := Except.ok.inj read
      exact law.sound _ _ parsed
    · simp at read

/-- The written text describes what the changed document says. -/
theorem exists_parse_changed
    {codec : Codec}
    (law : codec.RoundTrips)
    {document : Table}
    (sound : (Value.table document).IsSound)
    (sectionName name : Text)
    {value : Value}
    (valueSound : value.IsSound) :
    ∃ result,
      codec.parse (codec.print (sortEntries (changed document sectionName name value))) =
          .ok result ∧
        HasDistinctKeys (.table result) ∧
        (Value.table result).normal =
          (Value.table (changed document sectionName name value)).normal := by
  have changedSound := isSound_changed sound sectionName name valueSound
  obtain ⟨result, parsed, same⟩ := law.restores _ changedSound.sortKeys
  exact ⟨result, parsed, (law.sound _ _ parsed).hasDistinctKeys,
    same.trans (normal_sortKeys changedSound)⟩

/-- Values that say the same have values that say the same under every path. -/
theorem under?_eq_of_normal_eq
    {left right : Value}
    (leftDistinct : HasDistinctKeys left)
    (rightDistinct : HasDistinctKeys right)
    (same : left.normal = right.normal)
    (path : List Text) :
    (under? path left).map Value.normal = (under? path right).map Value.normal := by
  rw [← under?_normal leftDistinct, same, under?_normal rightDistinct]

/-! ## Where it is written -/

theorem place_eq_of_workingDirectory_eq
    {store other : FileStore}
    (same : store.workingDirectory = other.workingDirectory)
    (path : Text) :
    store.place path = other.place path := by
  simp only [place, same]

/-- Whether work leaves the meaning of relative paths as it is. -/
def KeepsPlaces {α : Type} (work : FileWork α) : Prop :=
  ∀ store, (work store).2.workingDirectory = store.workingDirectory

namespace KeepsPlaces

variable {α β : Type}

theorem followedBy
    {work : FileWork α}
    {next : α → FileWork β}
    (first : KeepsPlaces work)
    (second : ∀ value, KeepsPlaces (next value)) :
    KeepsPlaces (work.followedBy next) := by
  intro store
  have kept := first store
  rw [FileWork.followedBy]
  split
  · rename_i value middle performed
    rw [performed] at kept
    exact (second value middle).trans kept
  · rename_i performed
    rwa [performed] at kept

theorem explaining
    {work : FileWork α}
    (keeps : KeepsPlaces work)
    (context : Text) :
    KeepsPlaces (work.explaining context) := by
  intro store
  have kept := keeps store
  rw [FileWork.explaining]
  split <;> simp_all

theorem attempt
    {work : FileWork Unit}
    (keeps : KeepsPlaces work) :
    KeepsPlaces work.attempt :=
  keeps

theorem change
    {action : FileStore → Attempt}
    (keeps : ∀ store, (action store).1.workingDirectory = store.workingDirectory) :
    KeepsPlaces (FileWork.change action) := by
  intro store
  have kept := keeps store
  rw [FileWork.change]
  split <;> simp_all

end KeepsPlaces

theorem keepsPlaces_write (path content : Text) :
    KeepsPlaces (FileWork.change fun store => store.write path content) := by
  refine .change fun store => ?_
  cases outcome : store.write path content with
  | mk after fault? =>
      cases fault? with
      | none =>
          obtain ⟨-, -, -, rfl⟩ := (write_eq_ok_iff ..).1 outcome
          exact workingDirectory_withContent ..
      | some fault =>
          rcases eq_or_remnant_of_write outcome with rfl | ⟨rest, -, -, rfl⟩
          · rfl
          · exact workingDirectory_withContent ..

theorem keepsPlaces_makeDirectories (path : Text) :
    KeepsPlaces (FileWork.change fun store => store.makeDirectories path) := by
  refine .change fun store => ?_
  rw [makeDirectories]
  split
  · exact workingDirectory_withDirectories ..
  · rfl
  · exact workingDirectory_withDirectories ..

theorem keepsPlaces_remove (path : Text) :
    KeepsPlaces (FileWork.change fun store => store.remove path) := by
  refine .change fun store => ?_
  rw [remove]
  split <;> rfl

theorem keepsPlaces_rename (source target : Text) :
    KeepsPlaces (FileWork.change fun store => store.rename source target) := by
  refine .change fun store => ?_
  simp only [rename]
  split
  · rfl
  · rfl
  · rfl
  · exact workingDirectory_put ..

theorem keepsPlaces_ageBackup (path : Text) (age : Nat) :
    KeepsPlaces (ageBackup path age) := by
  refine .followedBy (fun _ => rfl) fun there => ?_
  split
  · exact (keepsPlaces_rename _ _).explaining _
  · exact fun _ => rfl

theorem keepsPlaces_backUp (path : Text) :
    KeepsPlaces (backUp path) := by
  refine .followedBy (fun _ => rfl) fun there => ?_
  split
  · refine .followedBy (keepsPlaces_remove _).attempt fun _ => ?_
    refine .followedBy (keepsPlaces_ageBackup path 2) fun _ => ?_
    refine .followedBy (keepsPlaces_ageBackup path 1) fun _ => ?_
    refine .followedBy (.explaining (fun _ => rfl) _) fun content => ?_
    exact (keepsPlaces_write _ content).explaining _
  · exact fun _ => rfl

theorem ok_of_explaining
    {α : Type}
    {context : Text}
    {work : FileWork α}
    {store after : FileStore}
    {value : α}
    (succeeded : work.explaining context store = (.ok value, after)) :
    work store = (.ok value, after) := by
  rw [FileWork.explaining] at succeeded
  split at succeeded
  · simp_all
  · simp at succeeded

theorem exists_of_followedBy
    {α β : Type}
    {work : FileWork α}
    {next : α → FileWork β}
    {store after : FileStore}
    {last : β}
    (succeeded : work.followedBy next store = (.ok last, after)) :
    ∃ value middle, work store = (.ok value, middle) ∧ next value middle = (.ok last, after) := by
  rw [FileWork.followedBy] at succeeded
  split at succeeded
  · rename_i value middle performed
    exact ⟨value, middle, performed, succeeded⟩
  · simp at succeeded

theorem ok_of_change
    {action : FileStore → Attempt}
    {store after : FileStore}
    (succeeded : FileWork.change action store = (.ok (), after)) :
    action store = (after, none) := by
  rw [FileWork.change] at succeeded
  split at succeeded
  · simp_all
  · simp at succeeded

/-- A file that was saved holds what was saved. -/
theorem exists_node_of_save
    {path content : Text}
    {store after : FileStore}
    (noDirectory : ¬ store.HasDirectory (store.place path))
    (saved : save path content store = (.ok (), after)) :
    ∃ node, after.node? (after.place path) = some node ∧ node.content = content := by
  obtain ⟨_, backed, backedUp, saved⟩ := exists_of_followedBy saved
  obtain ⟨_, made, madeDirectories, saved⟩ := exists_of_followedBy saved
  have keptFirst := (keepsPlaces_backUp path).explaining "failed to create backup" store
  have keptSecond := (keepsPlaces_makeDirectories (directory path)).explaining
    ("failed to create " ++ directory path) backed
  rw [backedUp] at keptFirst
  rw [madeDirectories] at keptSecond
  have kept : made.workingDirectory = store.workingDirectory := keptSecond.trans keptFirst
  have nonempty : made.place path ≠ [] := by
    rw [place_eq_of_workingDirectory_eq kept]
    exact ne_nil_of_not_hasDirectory noDirectory
  obtain ⟨-, -, -, written⟩ := (write_eq_ok_iff ..).1 (ok_of_change (ok_of_explaining saved))
  have same : after.place path = made.place path := by
    rw [written]
    exact place_eq_of_workingDirectory_eq (workingDirectory_withContent ..) path
  refine ⟨⟨content, standing (made.node? (made.place path))⟩, ?_, rfl⟩
  rw [same, written, node?_withContent made nonempty, if_pos rfl]

/-- What a successful change of one value has done. -/
theorem exists_of_setValue
    {codec : Codec}
    {store after : FileStore}
    {path key : Text}
    {value : Value}
    {document : Table}
    (read : (readDocument codec path store).1 = .ok document)
    (changes : setValue codec path key value store = (.ok (), after)) :
    ∃ sectionName name,
      splitKey? key = some (sectionName, name) ∧
      checkText codec (codec.print (sortEntries (changed document sectionName name value))) =
        .ok () ∧
      save path (codec.print (sortEntries (changed document sectionName name value))) store =
        (.ok (), after) := by
  have on : (Call.set key value).IsOn path := trivial
  have performed := Call.perform_eq codec on store
  rw [Call.perform, changes, Call.text] at performed
  cases split : splitKey? key with
  | none => simp [split] at performed
  | some parts =>
      obtain ⟨sectionName, name⟩ := parts
      simp only [split, read] at performed
      cases checked :
          checkText codec
            (codec.print (sortEntries (changed document sectionName name value))) with
      | error fault => simp [checked] at performed
      | ok done =>
          simp only [checked] at performed
          exact ⟨sectionName, name, rfl, checked, performed.symm⟩

/-- The settings that a checked text describes pass their check. -/
theorem exists_of_checkText
    {codec : Codec}
    {text : Text}
    {result : Table}
    (parsed : codec.parse text = .ok result)
    (checked : checkText codec text = .ok ()) :
    ∃ settings, Settings.default.readOver result = .ok settings ∧ settings.check = .ok () := by
  rw [checkText, parsed, Except.bind] at checked
  cases read : Settings.default.readOver result with
  | error problem => simp [read] at checked
  | ok settings => exact ⟨settings, rfl, by simpa [read] using checked⟩

theorem exists_after_of_toOption
    {α : Type}
    {work : FileWork α}
    {store : FileStore}
    {value : α}
    (succeeded : (work store).1.toOption = some value) :
    ∃ after, work store = (.ok value, after) :=
  ⟨(work store).2, Prod.ext (eq_ok_of_toOption succeeded) rfl⟩

/-! ## The main statement -/

/--
Whenever a value is given to a dotted key of a file that describes a document or is not there yet, the
file afterwards describes a document that has the new value under the key and says the same as the
earlier one about everything apart from it, and the settings it describes pass their check.  All other
values keep their places exactly if the section was a table or was not there: a section that was
something else is replaced by a table.  This holds of every way to write documents that are read back.
-/
theorem setValue_changes_only_key
    {codec : Codec}
    (law : codec.RoundTrips)
    {store after : FileStore}
    {path key : Text}
    {value : Value}
    {document : Table}
    (noDirectory : ¬ store.HasDirectory (store.place path))
    (read : (readDocument codec path store).1 = .ok document)
    (valueSound : value.IsSound)
    (changes : setValue codec path key value store = (.ok (), after)) :
    ∃ sectionName name node result settings,
      splitKey? key = some (sectionName, name) ∧
      after.node? (after.place path) = some node ∧
      codec.parse node.content = .ok result ∧
      (under? [sectionName, name] (.table result)).map Value.normal = some value.normal ∧
      (∀ other, IsApart other [sectionName, name] →
        (under? other (.table result)).map Value.normal =
          (under? other (.table document)).map Value.normal) ∧
      (KeepsLeaves (.table document) (.table result) [sectionName, name] ↔
        (document.lookup sectionName).all Value.isTable = true) ∧
      Settings.default.readOver result = .ok settings ∧
      settings.check = .ok () := by
  obtain ⟨sectionName, name, split, checked, saved⟩ := exists_of_setValue read changes
  obtain ⟨node, there, holds⟩ := exists_node_of_save noDirectory saved
  have sound := isSound_of_readDocument law read
  obtain ⟨result, parsed, resultDistinct, same⟩ :=
    exists_parse_changed law sound sectionName name valueSound
  obtain ⟨settings, readOver, passes⟩ := exists_of_checkText parsed checked
  have changedDistinct := (isSound_changed sound sectionName name valueSound).hasDistinctKeys
  have places := under?_eq_of_normal_eq resultDistinct changedDistinct same
  have elsewhere (other : List Text) (apart : IsApart other [sectionName, name]) :
      (under? other (.table result)).map Value.normal =
        (under? other (.table document)).map Value.normal := by
    rw [places, under?_changed_of_isApart document sectionName name value apart]
  have here : ∃ entries, under? [sectionName] (.table result) = some (.table entries) := by
    have found := places [sectionName]
    rw [changed, under?_put, if_pos rfl, under?_nil, Option.map_some] at found
    obtain ⟨inner, innerFound, innerSame⟩ := Option.map_eq_some_iff.1 found
    have isTable := congrArg Value.isTable innerSame
    rw [isTable_normal, isTable_normal] at isTable
    cases inner with
    | table entries => exact ⟨entries, innerFound⟩
    | _ => simp [Value.isTable] at isTable
  refine ⟨sectionName, name, node, result, settings, split, there, holds ▸ parsed, ?_, elsewhere,
    keepsLeaves_changed_iff sectionName name here elsewhere, readOver, passes⟩
  rw [places, under?_changed, Option.map_some]

/-- A store with a file that describes settings and more. -/
def sharedStore : FileStore :=
  ⟨.memory, [],
    [(["c.toml".toList], .file "ratio = 1.5\n\n[log]\njson = true\n\n[[tools]]\nname = 'lint'\n")],
    fun _ _ => none, fun _ => none⟩

/-- Whatever else the file describes stays when a setting in it is changed. -/
theorem sharedStore_changed :
    ∃ after node document result,
      setValue .toml "/c.toml" "log.json" (.truth false) sharedStore = (.ok (), after) ∧
      (readDocument .toml "/c.toml" sharedStore).1 = .ok document ∧
      after.node? (after.place "/c.toml") = some node ∧
      parse .established node.content = .ok result ∧
      (under? ["log", "json"] (.table result)).map Value.normal = some (.truth false) ∧
      KeepsLeaves (.table document) (.table result) ["log", "json"] := by
  have succeeded :
      (setValue .toml "/c.toml" "log.json" (.truth false) sharedStore).1.toOption = some () := by
    decide +kernel
  have described :
      (readDocument .toml "/c.toml" sharedStore).1.toOption.any (fun document =>
        (document.lookup "log".toList).all Value.isTable = true) = true := by
    decide +kernel
  rw [Option.any_eq_true] at described
  obtain ⟨document, found, described⟩ := described
  have isTable := of_decide_eq_true described
  have read : (readDocument .toml "/c.toml" sharedStore).1 = .ok document := eq_ok_of_toOption found
  obtain ⟨after, changes⟩ := exists_after_of_toOption succeeded
  obtain ⟨sectionName, name, node, result, settings, split, there, parsed, new, -, leaves, -⟩ :=
    setValue_changes_only_key Codec.roundTrips_toml (by decide) read (by decide) changes
  obtain ⟨rfl, rfl⟩ : "log".toList = sectionName ∧ "json".toList = name := by
    simpa using (show some ("log".toList, "json".toList) = some (sectionName, name) from split)
  exact ⟨after, node, document, result, changes, read, there, parsed, new, leaves.2 isTable⟩

/-- A store with a file that has a value under a name without a section. -/
def scalarStore : FileStore :=
  ⟨.memory, [], [(["c.toml".toList], .file "extra = 5\n")], fun _ _ => none, fun _ => none⟩

/-- The value is gone when a key below its name is set. -/
theorem scalarStore_loses_leaf :
    ∃ after node result,
      setValue .toml "/c.toml" "extra.name" (.integer 1) scalarStore = (.ok (), after) ∧
      (readDocument .toml "/c.toml" scalarStore).1 = .ok [("extra", .integer 5)] ∧
      after.node? (after.place "/c.toml") = some node ∧
      parse .established node.content = .ok result ∧
      ¬ KeepsLeaves (.table [("extra", .integer 5)]) (.table result) ["extra", "name"] := by
  have succeeded :
      (setValue .toml "/c.toml" "extra.name" (.integer 1) scalarStore).1.toOption = some () := by
    decide +kernel
  have written :
      (setValue .toml "/c.toml" "extra.name" (.integer 1) scalarStore).2.node? ["c.toml".toList] =
        some (.file "[extra]\nname = 1\n") := by
    decide +kernel
  obtain ⟨after, changes⟩ := exists_after_of_toOption succeeded
  rw [changes] at written
  have there : after.node? (after.place "/c.toml") = some (.file "[extra]\nname = 1\n") := written
  refine ⟨after, _, [("extra", .table [("name", .integer 1)])], changes, by cbv, there, by cbv, ?_⟩
  intro keeps
  have kept := keeps ["extra"] (.integer 5) rfl rfl (by decide)
  simp [under?, Value.normal, Value.respelled, Value.sortKeys] at kept

end Settings

end UnoBindgen
