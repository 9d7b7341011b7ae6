import UnoBindgen.Proofs.Text.Sort
import UnoBindgen.Proofs.Toml.Soundness

/-!
# Values that say the same

The keys of a table may come in any order, and a moment may be spelled in more than one way.  Two
values say the same when they have the same normal form, in which all keys are sorted and all
moments have their usual spelling.  Normal forms do not depend on the order of entries, and paths
lead to the same places in them.
-/

namespace UnoBindgen.Toml

/-! ## Sorted tables -/

/-- The entries of a table, sorted by their keys at the top level only. -/
def arranged (entries : Table) : Table :=
  entries.foldr (fun entry rest => insertSorted entry.1 entry.2 rest) []

theorem insertSorted_perm
    (key : Text)
    (value : Value)
    (entries : Table) :
    (insertSorted key value entries).Perm ((key, value) :: entries) := by
  induction entries with
  | nil => exact List.Perm.refl _
  | cons entry rest induction =>
      obtain ⟨other, existing⟩ := entry
      rw [insertSorted]
      split
      · exact List.Perm.refl _
      · exact (induction.cons (other, existing)).trans (List.Perm.swap _ _ _)

theorem arranged_perm (entries : Table) :
    (arranged entries).Perm entries := by
  induction entries with
  | nil => exact List.Perm.refl _
  | cons entry rest induction =>
      exact (insertSorted_perm _ _ _).trans (induction.cons entry)

theorem insertSorted_comm
    {first second : Text}
    (differs : first ≠ second)
    (value other : Value)
    (entries : Table) :
    insertSorted first value (insertSorted second other entries) =
      insertSorted second other (insertSorted first value entries) := by
  have oneWay :
      (Text.notAfter first second = true ∧ Text.notAfter second first = false) ∨
        (Text.notAfter first second = false ∧ Text.notAfter second first = true) := by
    rcases Text.notAfter_total first second with before | after
    · refine Or.inl ⟨before, Bool.eq_false_iff.2 fun after => ?_⟩
      exact differs (Text.notAfter_antisymm before after)
    · refine Or.inr ⟨Bool.eq_false_iff.2 fun before => ?_, after⟩
      exact differs (Text.notAfter_antisymm before after)
  induction entries with
  | nil => rcases oneWay with ⟨forward, backward⟩ | ⟨forward, backward⟩ <;>
      simp [insertSorted, forward, backward]
  | cons entry rest induction =>
      obtain ⟨key, existing⟩ := entry
      cases firstBefore : Text.notAfter first key <;>
        cases secondBefore : Text.notAfter second key
      · simp [insertSorted, firstBefore, secondBefore, induction]
      · have backward : Text.notAfter first second = false := by
          refine Bool.eq_false_iff.2 fun before => ?_
          exact Bool.eq_false_iff.1 firstBefore (Text.notAfter_trans before secondBefore)
        simp [insertSorted, firstBefore, secondBefore, backward]
      · have backward : Text.notAfter second first = false := by
          refine Bool.eq_false_iff.2 fun before => ?_
          exact Bool.eq_false_iff.1 secondBefore (Text.notAfter_trans before firstBefore)
        simp [insertSorted, firstBefore, secondBefore, backward]
      · rcases oneWay with ⟨forward, backward⟩ | ⟨forward, backward⟩ <;>
          simp [insertSorted, firstBefore, secondBefore, forward, backward]

/-- Tables with the same entries are arranged alike. -/
theorem arranged_eq_of_perm
    {left right : Table}
    (nodup : (left.map Prod.fst).Nodup)
    (perm : left.Perm right) :
    arranged left = arranged right := by
  induction perm with
  | nil => rfl
  | cons entry _ induction =>
      rw [List.map_cons, List.nodup_cons] at nodup
      exact congrArg (insertSorted entry.1 entry.2) (induction nodup.2)
  | swap first second rest =>
      have differs : second.1 ≠ first.1 := by
        simp only [List.map_cons, List.nodup_cons, List.mem_cons, not_or] at nodup
        exact nodup.1.1
      exact insertSorted_comm differs _ _ (arranged rest)
  | trans first second inductionFirst inductionSecond =>
      rw [inductionFirst nodup]
      exact inductionSecond ((first.map Prod.fst).nodup_iff.1 nodup)

theorem sortKeys_of_isSingle
    {value : Value}
    (single : value.isSingle = true) :
    value.sortKeys = value := by
  cases value with
  | array items => simp [Value.isSingle] at single
  | table entries => simp [Value.isSingle] at single
  | _ => rfl

theorem sortItems_eq_map (items : List Value) :
    sortItems items = items.map Value.sortKeys := by
  induction items with
  | nil => rfl
  | cons item rest induction => rw [sortItems, induction, List.map_cons]

theorem sortEntries_eq_arranged (entries : Table) :
    sortEntries entries = arranged (entries.map fun entry => (entry.1, entry.2.sortKeys)) := by
  induction entries with
  | nil => rfl
  | cons entry rest induction =>
      obtain ⟨key, value⟩ := entry
      rw [sortEntries, induction]
      rfl

/-- Sorting a table sorts inside its entries and puts them into another order. -/
theorem sortEntries_perm (entries : Table) :
    (sortEntries entries).Perm (entries.map fun entry => (entry.1, entry.2.sortKeys)) := by
  rw [sortEntries_eq_arranged]
  exact arranged_perm _

theorem nodup_sortEntries_iff (entries : Table) :
    ((sortEntries entries).map Prod.fst).Nodup ↔ (entries.map Prod.fst).Nodup := by
  rw [((sortEntries_perm entries).map Prod.fst).nodup_iff, map_fst_map_snd]

/-! ## Normal forms -/

mutual

/-- A value with all its moments in their usual spelling. -/
def Value.respelled : Value → Value
  | .moment content => .moment (printMoment content)
  | .array items => .array (respelledItems items)
  | .table entries => .table (respelledEntries entries)
  | value => value

/-- The items of an array with their moments in their usual spelling. -/
def respelledItems : List Value → List Value
  | [] => []
  | item :: rest => item.respelled :: respelledItems rest

/-- The entries of a table with their moments in their usual spelling. -/
def respelledEntries : List (Text × Value) → List (Text × Value)
  | [] => []
  | (key, value) :: rest => (key, value.respelled) :: respelledEntries rest

end

theorem respelledItems_eq_map (items : List Value) :
    respelledItems items = items.map Value.respelled := by
  induction items with
  | nil => rfl
  | cons item rest induction => rw [respelledItems, induction, List.map_cons]

theorem respelledEntries_eq_map (entries : Table) :
    respelledEntries entries = entries.map fun entry => (entry.1, entry.2.respelled) := by
  induction entries with
  | nil => rfl
  | cons entry rest induction =>
      obtain ⟨key, value⟩ := entry
      rw [respelledEntries, induction, List.map_cons]

/-- The normal form of a value: its keys are sorted at every level, and its moments have their
usual spelling.  Values with the same normal form say the same. -/
def Value.normal (value : Value) : Value :=
  value.respelled.sortKeys

/-- The entries of a table with normal values. -/
def normalEntries (entries : Table) : Table :=
  entries.map fun entry => (entry.1, entry.2.normal)

@[simp]
theorem map_fst_normalEntries (entries : Table) :
    (normalEntries entries).map Prod.fst = entries.map Prod.fst :=
  map_fst_map_snd Value.normal entries

@[simp]
theorem normalEntries_append (entries more : Table) :
    normalEntries (entries ++ more) = normalEntries entries ++ normalEntries more :=
  List.map_append

theorem normal_array (items : List Value) :
    (Value.array items).normal = .array (items.map Value.normal) := by
  rw [Value.normal, Value.respelled, Value.sortKeys, sortItems_eq_map, respelledItems_eq_map,
    List.map_map]
  rfl

theorem normal_table (entries : Table) :
    (Value.table entries).normal = .table (arranged (normalEntries entries)) := by
  rw [Value.normal, Value.respelled, Value.sortKeys, sortEntries_eq_arranged,
    respelledEntries_eq_map, List.map_map]
  rfl

theorem isTable_respelled (value : Value) :
    value.respelled.isTable = value.isTable := by
  cases value <;> rfl

@[simp]
theorem isTable_normal (value : Value) :
    value.normal.isTable = value.isTable := by
  cases value <;> rfl

/-- The order of the entries of a table does not matter. -/
theorem normal_table_eq_of_perm
    {left right : Table}
    (nodup : (left.map Prod.fst).Nodup)
    (perm : (normalEntries left).Perm (normalEntries right)) :
    (Value.table left).normal = (Value.table right).normal := by
  rw [normal_table, normal_table]
  exact congrArg Value.table (arranged_eq_of_perm (by simpa using nodup) perm)

theorem lookup_eq_of_perm
    {left right : Table}
    (nodup : (left.map Prod.fst).Nodup)
    (perm : left.Perm right)
    (key : Text) :
    left.lookup key = right.lookup key := by
  refine Option.ext fun value => ?_
  have nodupRight := (perm.map Prod.fst).nodup_iff.1 nodup
  rw [lookup_eq_some_iff_mem nodup, lookup_eq_some_iff_mem nodupRight, perm.mem_iff]

/-- A path leads to the changed form of what it led to, if all that a change does to tables is to
change their values and to rearrange them. -/
theorem under?_of_arranged
    {change : Value → Value}
    (ofTable : ∀ entries, change (.table entries) =
      .table (arranged (entries.map fun entry => (entry.1, change entry.2))))
    (ofPlain : ∀ value, value.isTable = false → (change value).isTable = false)
    {value : Value}
    (distinct : HasDistinctKeys value)
    (path : List Text) :
    under? path (change value) = (under? path value).map change := by
  induction path generalizing value with
  | nil => rfl
  | cons key rest induction =>
      cases kind : value.isTable with
      | false =>
          rw [under?_of_isTable_eq_false (ofPlain value kind) (List.cons_ne_nil key rest),
            under?_of_isTable_eq_false kind (List.cons_ne_nil key rest)]
          rfl
      | true =>
          obtain ⟨entries, rfl⟩ : ∃ entries, value = .table entries := by
            cases value with
            | table entries => exact ⟨entries, rfl⟩
            | _ => simp [Value.isTable] at kind
          have nodup : ((entries.map fun entry => (entry.1, change entry.2)).map
              Prod.fst).Nodup := by
            rw [map_fst_map_snd]
            exact distinct.nodup
          have found := lookup_eq_of_perm
            (((arranged_perm _).map Prod.fst).nodup_iff.2 nodup) (arranged_perm _) key
          rw [ofTable, under?_cons_table, found, lookup_map_snd, under?_cons_table]
          cases here : entries.lookup key with
          | none => rfl
          | some inner => exact induction (distinct.of_mem (mem_of_lookup here))

theorem under?_normal
    {value : Value}
    (distinct : HasDistinctKeys value)
    (path : List Text) :
    under? path value.normal = (under? path value).map Value.normal :=
  under?_of_arranged normal_table (fun value plain => by rw [isTable_normal, plain]) distinct path

theorem under?_sortKeys
    {value : Value}
    (distinct : HasDistinctKeys value)
    (path : List Text) :
    under? path value.sortKeys = (under? path value).map Value.sortKeys :=
  under?_of_arranged (fun entries => by rw [Value.sortKeys, sortEntries_eq_arranged])
    (fun value plain => by rw [isTable_sortKeys, plain]) distinct path

/-! ## Sorting does not change what a value says -/

theorem Value.IsSound.sortKeys
    {value : Value}
    (sound : value.IsSound) :
    value.sortKeys.IsSound := by
  induction value using Value.partInduction with
  | single value alone =>
      have same := sortKeys_of_isSingle alone
      rwa [same]
  | array items induction =>
      rw [isSound_array_iff] at sound
      rw [Value.sortKeys, sortItems_eq_map, isSound_array_iff, List.forall_mem_map]
      exact fun item member => induction item member (sound item member)
  | table entries induction =>
      rw [Value.sortKeys, isSound_table_iff]
      refine ⟨(nodup_sortEntries_iff entries).2 sound.nodup, fun entry member => ?_⟩
      obtain ⟨original, there, rfl⟩ :=
        List.mem_map.1 ((sortEntries_perm entries).mem_iff.1 member)
      exact induction original there (sound.of_mem there)

theorem normal_sortKeys
    {value : Value}
    (sound : value.IsSound) :
    value.sortKeys.normal = value.normal := by
  induction value using Value.partInduction with
  | single value alone =>
      have same := sortKeys_of_isSingle alone
      rw [same]
  | array items induction =>
      rw [Value.isSound_array_iff] at sound
      rw [Value.sortKeys, sortItems_eq_map, normal_array, normal_array, List.map_map]
      exact congrArg Value.array
        (List.map_congr_left fun item member => induction item member (sound item member))
  | table entries induction =>
      rw [Value.sortKeys]
      refine normal_table_eq_of_perm ((nodup_sortEntries_iff entries).2 sound.nodup) ?_
      refine ((sortEntries_perm entries).map _).trans (List.Perm.of_eq ?_)
      rw [List.map_map]
      refine List.map_congr_left fun entry member => ?_
      exact congrArg (Prod.mk entry.1) (induction entry member (sound.of_mem member))

end UnoBindgen.Toml
