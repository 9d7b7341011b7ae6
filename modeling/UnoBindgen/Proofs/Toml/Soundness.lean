import UnoBindgen.Proofs.Text.Shortest
import UnoBindgen.Proofs.Toml.Paths
import UnoBindgen.Proofs.Traversal

/-!
# What texts can describe

A value is sound if its whole numbers fit into a word, its fractions are canonical and not too
large, its moments are dates or times, and no table in it has a key twice, however deep inside
arrays and tables.  Every table that a text describes is sound: the readers refuse other numbers and
moments, and a key is never given a second value.
-/

namespace UnoBindgen.Toml

/-! ## Values inside values -/

mutual

/-- The values inside a value, the value itself first. -/
def Value.parts : Value → List Value
  | .array items => .array items :: partsOfItems items
  | .table entries => .table entries :: partsOfEntries entries
  | value => [value]

/-- The values inside the items of an array. -/
def partsOfItems : List Value → List Value
  | [] => []
  | item :: rest => item.parts ++ partsOfItems rest

/-- The values inside the entries of a table. -/
def partsOfEntries : List (Text × Value) → List Value
  | [] => []
  | (_, value) :: rest => value.parts ++ partsOfEntries rest

end

theorem mem_partsOfItems_iff
    (items : List Value)
    (part : Value) :
    part ∈ partsOfItems items ↔ ∃ item ∈ items, part ∈ item.parts := by
  induction items with
  | nil => simp [partsOfItems]
  | cons item rest induction => simp [partsOfItems, induction]

theorem mem_partsOfEntries_iff
    (entries : Table)
    (part : Value) :
    part ∈ partsOfEntries entries ↔ ∃ entry ∈ entries, part ∈ entry.2.parts := by
  induction entries with
  | nil => simp [partsOfEntries]
  | cons entry rest induction =>
      obtain ⟨key, value⟩ := entry
      simp [partsOfEntries, induction]

theorem mem_parts_array_iff
    (items : List Value)
    (part : Value) :
    part ∈ (Value.array items).parts ↔
      part = .array items ∨ ∃ item ∈ items, part ∈ item.parts := by
  rw [Value.parts, List.mem_cons, mem_partsOfItems_iff]

theorem mem_parts_table_iff
    (entries : Table)
    (part : Value) :
    part ∈ (Value.table entries).parts ↔
      part = .table entries ∨ ∃ entry ∈ entries, part ∈ entry.2.parts := by
  rw [Value.parts, List.mem_cons, mem_partsOfEntries_iff]

theorem mem_parts_self (value : Value) :
    value ∈ value.parts := by
  cases value <;> simp [Value.parts]

/-- Whether a value has nothing inside it. -/
def Value.isSingle : Value → Bool
  | .array _ => false
  | .table _ => false
  | _ => true

theorem parts_of_isSingle
    {value : Value}
    (single : value.isSingle = true) :
    value.parts = [value] := by
  cases value with
  | array items => simp [Value.isSingle] at single
  | table entries => simp [Value.isSingle] at single
  | _ => rfl

/-- What holds of single values, and of arrays and tables when it holds of what they list, holds of
every value. -/
@[elab_as_elim]
theorem Value.partInduction
    {motive : Value → Prop}
    (single : ∀ value, value.isSingle = true → motive value)
    (array : ∀ items, (∀ item ∈ items, motive item) → motive (.array items))
    (table : ∀ entries, (∀ entry ∈ entries, motive entry.2) → motive (.table entries))
    (value : Value) :
    motive value := by
  cases value with
  | array items =>
      apply array
      intro item member
      exact Value.partInduction single array table item
  | table entries =>
      apply table
      intro entry member
      exact Value.partInduction single array table entry.2
  | _ => exact single _ rfl
termination_by sizeOf value
decreasing_by
  · have smaller := List.sizeOf_lt_of_mem member
    simp only [Value.array.sizeOf_spec]
    omega
  · have smaller := List.sizeOf_lt_of_mem member
    obtain ⟨key, inner⟩ := entry
    simp only [Prod.mk.sizeOf_spec, Value.table.sizeOf_spec] at smaller ⊢
    omega

/-! ## Soundness -/

/-- Whether a value, apart from what is inside it, can be described by a text. -/
def Value.IsProper : Value → Prop
  | .integer value => Text.fitsWord value = true
  | .fraction value => value.canonical = value ∧ value.overflows = false
  | .moment content => isMoment .established content = true
  | .table entries => (entries.map Prod.fst).Nodup
  | _ => True

instance : DecidablePred Value.IsProper := fun value =>
  match value with
  | .integer _ => inferInstanceAs (Decidable (_ = _))
  | .fraction _ => inferInstanceAs (Decidable (_ ∧ _))
  | .moment _ => inferInstanceAs (Decidable (_ = _))
  | .table _ => inferInstanceAs (Decidable (List.Nodup _))
  | .text _ | .infinity _ | .notANumber | .truth _ | .array _ =>
    inferInstanceAs (Decidable True)

/-- Whether a value and all values inside it can be described by a text. -/
def Value.IsSound (value : Value) : Prop :=
  ∀ part ∈ value.parts, part.IsProper

instance (value : Value) : Decidable value.IsSound :=
  inferInstanceAs (Decidable (∀ part ∈ value.parts, part.IsProper))

namespace Value

theorem isSound_iff_isProper
    {value : Value}
    (single : value.isSingle = true) :
    value.IsSound ↔ value.IsProper := by
  rw [IsSound, parts_of_isSingle single, List.forall_mem_singleton]

theorem isSound_array_iff (items : List Value) :
    (Value.array items).IsSound ↔ ∀ item ∈ items, item.IsSound := by
  simp only [IsSound, mem_parts_array_iff]
  constructor
  · intro sound item member part inside
    exact sound part (Or.inr ⟨item, member, inside⟩)
  · rintro sound part (rfl | ⟨item, member, inside⟩)
    · trivial
    · exact sound item member part inside

theorem isSound_table_iff (entries : Table) :
    (Value.table entries).IsSound ↔
      (entries.map Prod.fst).Nodup ∧ ∀ entry ∈ entries, entry.2.IsSound := by
  simp only [IsSound, mem_parts_table_iff]
  constructor
  · intro sound
    refine ⟨sound _ (Or.inl rfl), fun entry member part inside => ?_⟩
    exact sound part (Or.inr ⟨entry, member, inside⟩)
  · rintro ⟨nodup, sound⟩ part (rfl | ⟨entry, member, inside⟩)
    · exact nodup
    · exact sound entry member part inside

namespace IsSound

theorem nodup
    {entries : Table}
    (sound : (Value.table entries).IsSound) :
    (entries.map Prod.fst).Nodup :=
  ((isSound_table_iff entries).1 sound).1

theorem of_mem
    {entries : Table}
    (sound : (Value.table entries).IsSound)
    {entry : Text × Value}
    (member : entry ∈ entries) :
    entry.2.IsSound :=
  ((isSound_table_iff entries).1 sound).2 entry member

theorem of_lookup
    {entries : Table}
    (sound : (Value.table entries).IsSound)
    {key : Text}
    {value : Value}
    (found : entries.lookup key = some value) :
    value.IsSound :=
  sound.of_mem (mem_of_lookup found)

theorem of_under?
    {value : Value}
    (sound : value.IsSound)
    {path : List Text}
    {inner : Value}
    (found : under? path value = some inner) :
    inner.IsSound := by
  induction path generalizing value with
  | nil =>
      obtain rfl : value = inner := by simpa using found
      exact sound
  | cons key rest induction =>
      cases value with
      | table entries =>
          obtain ⟨middle, here, below⟩ := Option.bind_eq_some_iff.1 found
          exact induction (sound.of_lookup here) below
      | _ => simp [under?] at found

theorem hasDistinctKeys
    {value : Value}
    (sound : value.IsSound) :
    HasDistinctKeys value :=
  fun _ _ found => (sound.of_under? found).nodup

theorem put
    {entries : Table}
    (sound : (Value.table entries).IsSound)
    (key : Text)
    {value : Value}
    (valueSound : value.IsSound) :
    (Value.table (Table.put key value entries)).IsSound := by
  refine (isSound_table_iff _).2 ⟨nodup_put key value sound.nodup, fun entry member => ?_⟩
  have found := (lookup_eq_some_iff_mem (nodup_put key value sound.nodup) entry.1 entry.2).2 member
  rw [lookup_put] at found
  split at found
  · obtain rfl : value = entry.2 := by simpa using found
    exact valueSound
  · exact sound.of_lookup found

theorem inner
    {entries : Table}
    (sound : (Value.table entries).IsSound)
    (key : Text) :
    (Value.table (Table.inner key entries)).IsSound := by
  rw [Table.inner]
  split
  · rename_i found
    exact sound.of_lookup found
  · exact (isSound_table_iff []).2 ⟨List.nodup_nil, by simp⟩

end IsSound

end Value

/-! ## Tables under construction -/

theorem finishDrafts_eq_map (drafts : Drafts) :
    finishDrafts drafts = drafts.map fun entry => (entry.1, entry.2.finish) := by
  induction drafts with
  | nil => rfl
  | cons entry rest induction =>
      obtain ⟨key, draft⟩ := entry
      rw [finishDrafts, induction, List.map_cons]

@[simp]
theorem finishDrafts_append (drafts more : Drafts) :
    finishDrafts (drafts ++ more) = finishDrafts drafts ++ finishDrafts more := by
  simp only [finishDrafts_eq_map, List.map_append]

theorem finishItems_eq_map (items : List Drafts) :
    finishItems items = items.map fun item => .table (finishDrafts item) := by
  induction items with
  | nil => rfl
  | cons item rest induction => rw [finishItems, induction, List.map_cons]

/-- Whether the table that drafts come to is sound. -/
def IsSoundDrafts (drafts : Drafts) : Prop :=
  (Value.table (finishDrafts drafts)).IsSound

theorem isSoundDrafts_iff (drafts : Drafts) :
    IsSoundDrafts drafts ↔
      (drafts.map Prod.fst).Nodup ∧ ∀ entry ∈ drafts, entry.2.finish.IsSound := by
  rw [IsSoundDrafts, Value.isSound_table_iff, finishDrafts_eq_map, List.map_map,
    List.forall_mem_map]
  rfl

theorem isSoundDrafts_nil : IsSoundDrafts [] :=
  (isSoundDrafts_iff []).2 ⟨List.nodup_nil, by simp⟩

theorem map_fst_putDraft
    (drafts : Drafts)
    (key : Text)
    (draft : Draft) :
    (putDraft drafts key draft).map Prod.fst =
      if key ∈ drafts.map Prod.fst then drafts.map Prod.fst
      else drafts.map Prod.fst ++ [key] := by
  have listed : (drafts.any fun entry => entry.1 == key) = true ↔ key ∈ drafts.map Prod.fst := by
    simp [List.any_eq_true]
  rw [putDraft]
  by_cases present : key ∈ drafts.map Prod.fst
  · rw [if_pos (listed.2 present), if_pos present, List.map_map]
    refine List.map_congr_left fun entry _ => ?_
    by_cases same : entry.1 = key <;> simp [same]
  · rw [if_neg (mt listed.1 present), if_neg present, List.map_append]
    rfl

theorem mem_putDraft
    {drafts : Drafts}
    {key : Text}
    {draft : Draft}
    {entry : Text × Draft}
    (member : entry ∈ putDraft drafts key draft) :
    entry = (key, draft) ∨ entry ∈ drafts := by
  rw [putDraft] at member
  split at member
  · obtain ⟨original, there, rfl⟩ := List.mem_map.1 member
    split
    · exact Or.inl rfl
    · exact Or.inr there
  · simpa [or_comm] using member

namespace IsSoundDrafts

variable {drafts : Drafts}

theorem put
    (sound : IsSoundDrafts drafts)
    (key : Text)
    {draft : Draft}
    (draftSound : draft.finish.IsSound) :
    IsSoundDrafts (putDraft drafts key draft) := by
  rw [isSoundDrafts_iff] at sound ⊢
  constructor
  · rw [map_fst_putDraft]
    split
    · exact sound.1
    · rename_i absent
      exact sound.1.append (List.nodup_singleton key) (by simpa using absent)
  · intro entry member
    rcases mem_putDraft member with rfl | earlier
    · exact draftSound
    · exact sound.2 entry earlier

theorem of_lookup
    (sound : IsSoundDrafts drafts)
    {key : Text}
    {draft : Draft}
    (found : drafts.lookup key = some draft) :
    draft.finish.IsSound :=
  ((isSoundDrafts_iff drafts).1 sound).2 _ (mem_of_lookup found)

theorem table
    (sound : IsSoundDrafts drafts)
    (origin : Origin) :
    (Draft.table origin drafts).finish.IsSound :=
  sound

end IsSoundDrafts

theorem isSound_finish_tables_iff (items : List Drafts) :
    (Draft.tables items).finish.IsSound ↔ ∀ item ∈ items, IsSoundDrafts item := by
  rw [Draft.finish, Value.isSound_array_iff, finishItems_eq_map]
  simp [IsSoundDrafts]

/-! ## Statements keep tables sound -/

/-- Whether a change of drafts keeps them sound when it succeeds. -/
def KeepsSound (change : Drafts → Except Problem Drafts) : Prop :=
  ∀ drafts after, IsSoundDrafts drafts → change drafts = .ok after → IsSoundDrafts after

theorem KeepsSound.passTables
    {change : Drafts → Except Problem Drafts}
    (keeps : KeepsSound change)
    (path : KeyPath) :
    KeepsSound (passTables change path) := by
  induction path with
  | nil => exact keeps
  | cons key path induction =>
      intro drafts after sound changed
      rw [Toml.passTables] at changed
      split at changed
      · obtain ⟨inner, passed, done⟩ := (bind_eq_ok_iff _ _ _).1 changed
        obtain rfl := Except.ok.inj done
        exact sound.put key ((induction _ _ isSoundDrafts_nil passed).table .passed)
      · rename_i origin inner found
        obtain ⟨changedInner, passed, done⟩ := (bind_eq_ok_iff _ _ _).1 changed
        obtain rfl := Except.ok.inj done
        exact sound.put key ((induction _ _ (sound.of_lookup found) passed).table origin)
      · rename_i latest earlier found
        obtain ⟨changedLatest, passed, done⟩ := (bind_eq_ok_iff _ _ _).1 changed
        obtain rfl := Except.ok.inj done
        have items := (isSound_finish_tables_iff _).1 (sound.of_lookup found)
        rw [List.forall_mem_cons] at items
        refine sound.put key ((isSound_finish_tables_iff _).2 ?_)
        exact List.forall_mem_cons.2 ⟨induction _ _ items.1 passed, items.2⟩
      · simp at changed

theorem keepsSound_openTable (key : Text) : KeepsSound (openTable key) := by
  intro drafts after sound opened
  rw [openTable] at opened
  split at opened
  · obtain rfl := Except.ok.inj opened
    exact sound.put key (isSoundDrafts_nil.table .opened)
  · rename_i inner found
    obtain rfl := Except.ok.inj opened
    exact sound.put key (IsSoundDrafts.table (sound.of_lookup found) .opened)
  · simp at opened

theorem keepsSound_openArrayItem (key : Text) : KeepsSound (openArrayItem key) := by
  intro drafts after sound opened
  rw [openArrayItem] at opened
  split at opened
  · obtain rfl := Except.ok.inj opened
    refine sound.put key ((isSound_finish_tables_iff _).2 ?_)
    exact List.forall_mem_singleton.2 isSoundDrafts_nil
  · rename_i items found
    obtain rfl := Except.ok.inj opened
    have earlier := (isSound_finish_tables_iff _).1 (sound.of_lookup found)
    refine sound.put key ((isSound_finish_tables_iff _).2 ?_)
    exact List.forall_mem_cons.2 ⟨isSoundDrafts_nil, earlier⟩
  · simp at opened

theorem keepsSound_putEntry
    {value : Value}
    (valueSound : value.IsSound)
    (path : KeyPath) :
    KeepsSound (putEntry value path) := by
  induction path with
  | nil =>
      intro drafts after _ entered
      simp [putEntry] at entered
  | cons key path induction =>
      intro drafts after sound entered
      cases path with
      | nil =>
          simp only [putEntry] at entered
          split at entered
          · obtain rfl := Except.ok.inj entered
            exact sound.put key valueSound
          · simp at entered
      | cons second rest =>
          simp only [putEntry] at entered
          split at entered
          · obtain ⟨inner, passed, done⟩ := (bind_eq_ok_iff _ _ _).1 entered
            obtain rfl := Except.ok.inj done
            exact sound.put key ((induction _ _ isSoundDrafts_nil passed).table .dotted)
          · simp at entered
          · rename_i origin inner _ found
            obtain ⟨changedInner, passed, done⟩ := (bind_eq_ok_iff _ _ _).1 entered
            obtain rfl := Except.ok.inj done
            exact sound.put key ((induction _ _ (sound.of_lookup found) passed).table origin)
          · simp at entered

/-! ## Literals -/

/-- Whether a literal stands for a sound value, if it has a meaning. -/
def Literal.DescribesSound (literal : Literal) : Prop :=
  ∀ value, literal.value = .ok value → value.IsSound

theorem forall_isSound_of_itemValues
    {items : List Literal}
    (sound : ∀ item ∈ items, item.DescribesSound)
    {values : List Value}
    (meant : itemValues items = .ok values) :
    ∀ value ∈ values, value.IsSound := by
  induction items generalizing values with
  | nil =>
      obtain rfl := Except.ok.inj meant
      simp
  | cons item rest induction =>
      rw [List.forall_mem_cons] at sound
      rw [itemValues] at meant
      obtain ⟨value, valued, meant⟩ := (bind_eq_ok_iff _ _ _).1 meant
      obtain ⟨others, restMeant, done⟩ := (bind_eq_ok_iff _ _ _).1 meant
      obtain rfl := Except.ok.inj done
      exact List.forall_mem_cons.2 ⟨sound.1 value valued, induction sound.2 restMeant⟩

theorem IsSoundDrafts.of_entryDrafts
    {entries : List (KeyPath × Literal)}
    (sound : ∀ entry ∈ entries, entry.2.DescribesSound)
    {drafts after : Drafts}
    (draftsSound : IsSoundDrafts drafts)
    (entered : entryDrafts drafts entries = .ok after) :
    IsSoundDrafts after := by
  induction entries generalizing drafts with
  | nil =>
      obtain rfl := Except.ok.inj entered
      exact draftsSound
  | cons entry rest induction =>
      obtain ⟨path, literal⟩ := entry
      rw [List.forall_mem_cons] at sound
      rw [entryDrafts] at entered
      obtain ⟨value, valued, entered⟩ := (bind_eq_ok_iff _ _ _).1 entered
      obtain ⟨next, put, entered⟩ := (bind_eq_ok_iff _ _ _).1 entered
      have nextSound := keepsSound_putEntry (sound.1 value valued) path _ _ draftsSound put
      exact induction sound.2 nextSound entered

namespace Literal.DescribesSound

theorem of_value
    {literal : Literal}
    {value : Value}
    (meant : literal.value = .ok value)
    (single : value.isSingle = true)
    (proper : value.IsProper) :
    literal.DescribesSound := by
  intro other valued
  rw [meant] at valued
  obtain rfl := Except.ok.inj valued
  exact (Value.isSound_iff_isProper single).2 proper

theorem text (content : Text) : (Literal.text content).DescribesSound :=
  .of_value rfl rfl trivial

theorem array
    {items : List Literal}
    (sound : ∀ item ∈ items, item.DescribesSound) :
    (Literal.array items).DescribesSound := by
  intro value valued
  rw [Literal.value] at valued
  obtain ⟨values, meant, done⟩ := (bind_eq_ok_iff _ _ _).1 valued
  obtain rfl := Except.ok.inj done
  exact (Value.isSound_array_iff values).2 (forall_isSound_of_itemValues sound meant)

theorem inlineTable
    {entries : List (KeyPath × Literal)}
    (sound : ∀ entry ∈ entries, entry.2.DescribesSound) :
    (Literal.inlineTable entries).DescribesSound := by
  intro value valued
  rw [Literal.value] at valued
  obtain ⟨drafts, entered, done⟩ := (bind_eq_ok_iff _ _ _).1 valued
  obtain rfl := Except.ok.inj done
  exact IsSoundDrafts.of_entryDrafts sound isSoundDrafts_nil entered

theorem of_numeral
    {word : Text}
    {literal : Literal}
    (read : numeral .established word = .ok literal) :
    literal.DescribesSound := by
  rw [numeral.eq_def] at read
  split at read
  · split_ifs at read with fits
    obtain rfl := Except.ok.inj read
    exact .of_value rfl rfl fits
  · split_ifs at read with overflows
    obtain rfl := Except.ok.inj read
    rw [Bool.not_eq_true] at overflows
    exact .of_value rfl rfl
      ⟨Text.Decimal.canonical_canonical _, Text.Decimal.overflows_canonical overflows⟩
  · split_ifs at read with moment
    obtain rfl := Except.ok.inj read
    exact .of_value rfl rfl moment

theorem of_atom
    {word : Text}
    {literal : Literal}
    (read : atom .established word = .ok literal) :
    literal.DescribesSound := by
  simp only [atom] at read
  repeat
    -- The words for truth values, infinity and what is not a number.
    split at read
    · obtain rfl := Except.ok.inj read
      exact .of_value rfl rfl trivial
  exact .of_numeral read

end Literal.DescribesSound

/-! ## Readers -/

/-- What the readers of values return is sound. -/
structure ReadsSound (steps : Nat) : Prop where
  value :
    ∀ {text literal rest}, readValue .established steps text = .ok (literal, rest) →
      literal.DescribesSound
  items :
    ∀ {text items rest}, readItems .established steps text = .ok (items, rest) →
      ∀ item ∈ items, item.DescribesSound
  entries :
    ∀ {first text entries rest},
      readEntries .established steps first text = .ok (entries, rest) →
        ∀ entry ∈ entries, entry.2.DescribesSound

theorem readsSound (steps : Nat) : ReadsSound steps := by
  induction steps with
  | zero => constructor <;> simp [readValue, readItems, readEntries]
  | succ steps induction =>
      constructor
      · intro text literal rest read
        rw [readValue.eq_def] at read
        dsimp only at read
        split at read
        · obtain ⟨rfl, -⟩ := Prod.mk.inj (Except.ok.inj read)
          exact .text _
        · simp at read
        · split at read
          · obtain ⟨⟨items, behind⟩, inner, done⟩ := (bind_eq_ok_iff _ _ _).1 read
            obtain ⟨rfl, -⟩ := Prod.mk.inj (Except.ok.inj done)
            exact .array (induction.items inner)
          · obtain ⟨⟨entries, behind⟩, inner, done⟩ := (bind_eq_ok_iff _ _ _).1 read
            obtain ⟨rfl, -⟩ := Prod.mk.inj (Except.ok.inj done)
            exact .inlineTable (induction.entries inner)
          · obtain ⟨atomLiteral, inner, done⟩ := (bind_eq_ok_iff _ _ _).1 read
            obtain ⟨rfl, -⟩ := Prod.mk.inj (Except.ok.inj done)
            exact .of_atom inner
      · intro text items rest read
        rw [readItems] at read
        obtain ⟨start, -, read⟩ := (bind_eq_ok_iff _ _ _).1 read
        split at read
        · obtain ⟨rfl, -⟩ := Prod.mk.inj (Except.ok.inj read)
          simp
        · obtain ⟨⟨item, behind⟩, inner, read⟩ := (bind_eq_ok_iff _ _ _).1 read
          obtain ⟨next, -, read⟩ := (bind_eq_ok_iff _ _ _).1 read
          have itemSound := induction.value inner
          dsimp only at read
          split at read
          · obtain ⟨⟨others, last⟩, more, done⟩ := (bind_eq_ok_iff _ _ _).1 read
            obtain ⟨rfl, -⟩ := Prod.mk.inj (Except.ok.inj done)
            exact List.forall_mem_cons.2 ⟨itemSound, induction.items more⟩
          · obtain ⟨rfl, -⟩ := Prod.mk.inj (Except.ok.inj read)
            exact List.forall_mem_singleton.2 itemSound
          · simp at read
      · intro first text entries rest read
        rw [readEntries] at read
        obtain ⟨start, -, read⟩ := (bind_eq_ok_iff _ _ _).1 read
        split_ifs at read
        · obtain ⟨rfl, -⟩ := Prod.mk.inj (Except.ok.inj read)
          simp
        · obtain ⟨⟨path, behind⟩, -, read⟩ := (bind_eq_ok_iff _ _ _).1 read
          dsimp only at read
          split at read
          · obtain ⟨⟨literal, after⟩, inner, read⟩ := (bind_eq_ok_iff _ _ _).1 read
            obtain ⟨next, -, read⟩ := (bind_eq_ok_iff _ _ _).1 read
            have literalSound := induction.value inner
            dsimp only at read
            split at read
            · obtain ⟨⟨others, last⟩, more, done⟩ := (bind_eq_ok_iff _ _ _).1 read
              obtain ⟨rfl, -⟩ := Prod.mk.inj (Except.ok.inj done)
              exact List.forall_mem_cons.2 ⟨literalSound, induction.entries more⟩
            · obtain ⟨rfl, -⟩ := Prod.mk.inj (Except.ok.inj read)
              exact List.forall_mem_singleton.2 literalSound
            · simp at read
          · simp at read

/-- Whether a statement gives a key a sound value, if it gives it one. -/
def Statement.IsSound : Statement → Prop
  | .entry _ literal => literal.DescribesSound
  | _ => True

theorem Statement.isSound_of_readStatement
    {text : Text}
    {statement : Statement}
    {rest : Text}
    (read : readStatement .established text = .ok (statement, rest)) :
    statement.IsSound := by
  rw [readStatement.eq_def] at read
  split at read
  · obtain ⟨⟨path, behind⟩, -, done⟩ := (bind_eq_ok_iff _ _ _).1 read
    obtain ⟨rfl, -⟩ := Prod.mk.inj (Except.ok.inj done)
    trivial
  · obtain ⟨⟨path, behind⟩, -, done⟩ := (bind_eq_ok_iff _ _ _).1 read
    obtain ⟨rfl, -⟩ := Prod.mk.inj (Except.ok.inj done)
    trivial
  · obtain ⟨⟨path, behind⟩, -, read⟩ := (bind_eq_ok_iff _ _ _).1 read
    dsimp only at read
    split at read
    · obtain ⟨⟨literal, last⟩, inner, done⟩ := (bind_eq_ok_iff _ _ _).1 read
      obtain ⟨rfl, -⟩ := Prod.mk.inj (Except.ok.inj done)
      exact (readsSound _).value inner
    · simp at read

theorem Statement.forall_isSound_of_readStatements
    {steps : Nat}
    {text : Text}
    {statements : List Statement}
    (read : readStatements .established steps text = .ok statements) :
    ∀ statement ∈ statements, statement.IsSound := by
  induction steps generalizing text statements with
  | zero =>
      obtain rfl := Except.ok.inj read
      simp
  | succ steps induction =>
      rw [readStatements] at read
      obtain ⟨start, -, read⟩ := (bind_eq_ok_iff _ _ _).1 read
      split at read
      · obtain rfl := Except.ok.inj read
        simp
      · obtain ⟨⟨statement, behind⟩, first, read⟩ := (bind_eq_ok_iff _ _ _).1 read
        obtain ⟨next, -, read⟩ := (bind_eq_ok_iff _ _ _).1 read
        obtain ⟨others, more, done⟩ := (bind_eq_ok_iff _ _ _).1 read
        obtain rfl := Except.ok.inj done
        exact List.forall_mem_cons.2 ⟨isSound_of_readStatement first, induction more⟩

/-! ## Documents -/

/-- One statement keeps the tables sound. -/
theorem IsSoundDrafts.of_apply
    {state after : Drafts × KeyPath}
    {statement : Statement}
    (statementSound : statement.IsSound)
    (sound : IsSoundDrafts state.1)
    (applied : apply state statement = .ok after) :
    IsSoundDrafts after.1 := by
  cases statement with
  | openTable path =>
      obtain ⟨drafts, passed, done⟩ := (bind_eq_ok_iff _ _ _).1 applied
      obtain rfl := Except.ok.inj done
      exact (keepsSound_openTable _).passTables _ _ _ sound passed
  | openArrayItem path =>
      obtain ⟨drafts, passed, done⟩ := (bind_eq_ok_iff _ _ _).1 applied
      obtain rfl := Except.ok.inj done
      exact (keepsSound_openArrayItem _).passTables _ _ _ sound passed
  | entry path literal =>
      obtain ⟨value, valued, applied⟩ := (bind_eq_ok_iff _ _ _).1 applied
      obtain ⟨drafts, passed, done⟩ := (bind_eq_ok_iff _ _ _).1 applied
      obtain rfl := Except.ok.inj done
      exact (keepsSound_putEntry (statementSound value valued) path).passTables _ _ _ sound passed

/-- So do any number of them. -/
theorem IsSoundDrafts.of_foldlM
    {statements : List Statement}
    (statementsSound : ∀ statement ∈ statements, statement.IsSound)
    {state after : Drafts × KeyPath}
    (sound : IsSoundDrafts state.1)
    (applied : statements.foldlM apply state = .ok after) :
    IsSoundDrafts after.1 := by
  induction statements generalizing state with
  | nil =>
      obtain rfl := Except.ok.inj applied
      exact sound
  | cons statement rest induction =>
      rw [List.forall_mem_cons] at statementsSound
      rw [List.foldlM_cons] at applied
      obtain ⟨next, first, applied⟩ := (bind_eq_ok_iff _ _ _).1 applied
      exact induction statementsSound.2 (sound.of_apply statementsSound.1 first) applied

/-- The table that a text describes is sound. -/
theorem isSound_of_parse
    {text : Text}
    {table : Table}
    (parsed : parse .established text = .ok table) :
    (Value.table table).IsSound := by
  obtain ⟨statements, read, described⟩ := (bind_eq_ok_iff _ _ _).1 parsed
  obtain ⟨after, applied, done⟩ := (bind_eq_ok_iff _ _ _).1 described
  obtain rfl := Except.ok.inj done
  exact isSoundDrafts_nil.of_foldlM (Statement.forall_isSound_of_readStatements read) applied

end UnoBindgen.Toml
