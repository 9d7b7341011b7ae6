import Mathlib
import UnoBindgen.Proofs.Association
import UnoBindgen.Settings.Document

/-!
# Values under paths

A path of keys leads from a value through its tables to a value inside.  Putting an entry into a
table changes what is under its key and nothing else, and leaves the keys distinct.
-/

namespace UnoBindgen.Toml

/-! ## Putting entries -/

theorem lookup_put
    (key : Text)
    (value : Value)
    (table : Table)
    (other : Text) :
    (Table.put key value table).lookup other =
      if other = key then some value else table.lookup other := by
  induction table with
  | nil => simp only [Table.put, lookup_cons_eq_ite, List.lookup_nil]
  | cons entry rest induction =>
      obtain ⟨first, existing⟩ := entry
      rw [Table.put, lookup_cons_eq_ite first existing rest other]
      by_cases here : first = key
      · subst here
        rw [if_pos rfl, lookup_cons_eq_ite]
        split <;> rfl
      · rw [if_neg here, lookup_cons_eq_ite, induction]
        by_cases same : other = key
        · have differs : other ≠ first := fun again => here (again ▸ same)
          rw [if_neg differs]
          simp only [if_pos same]
        · simp only [if_neg same]

/-- A key that was there keeps its position, and a new one comes last. -/
theorem map_fst_put
    (key : Text)
    (value : Value)
    (table : Table) :
    (Table.put key value table).map Prod.fst =
      if key ∈ table.map Prod.fst then table.map Prod.fst else table.map Prod.fst ++ [key] := by
  induction table with
  | nil => simp [Table.put]
  | cons entry rest induction =>
      obtain ⟨first, existing⟩ := entry
      rw [Table.put]
      by_cases here : first = key
      · simp [here]
      · rw [if_neg here, List.map_cons, induction, List.map_cons]
        have differs : key ≠ first := Ne.symm here
        by_cases later : key ∈ rest.map Prod.fst <;> simp [differs, later]

theorem nodup_put
    (key : Text)
    (value : Value)
    {table : Table}
    (nodup : (table.map Prod.fst).Nodup) :
    ((Table.put key value table).map Prod.fst).Nodup := by
  rw [map_fst_put]
  split
  · exact nodup
  · rename_i absent
    exact nodup.append (List.nodup_singleton key) (by simpa using absent)

theorem mem_map_fst_put
    (key : Text)
    (value : Value)
    (table : Table)
    (other : Text) :
    other ∈ (Table.put key value table).map Prod.fst ↔
      other = key ∨ other ∈ table.map Prod.fst := by
  rw [map_fst_put]
  split
  · rename_i present
    constructor
    · exact Or.inr
    · rintro (rfl | member)
      · exact present
      · exact member
  · rw [List.mem_append, List.mem_singleton, or_comm]

theorem mem_put
    {key : Text}
    {value : Value}
    {table : Table}
    {entry : Text × Value}
    (member : entry ∈ Table.put key value table) :
    entry = (key, value) ∨ entry ∈ table := by
  induction table with
  | nil => exact Or.inl (List.mem_singleton.1 member)
  | cons first rest induction =>
      obtain ⟨other, existing⟩ := first
      rw [Table.put] at member
      split at member
      · rcases List.mem_cons.1 member with rfl | later
        · exact Or.inl rfl
        · exact Or.inr (List.mem_cons_of_mem _ later)
      · rcases List.mem_cons.1 member with rfl | later
        · exact Or.inr List.mem_cons_self
        · exact (induction later).imp_right (List.mem_cons_of_mem _)

/-! ## Following paths -/

/-- What a path of keys leads to in a value. -/
def under? : List Text → Value → Option Value
  | [], value => some value
  | key :: rest, .table entries => (entries.lookup key).bind (under? rest)
  | _ :: _, _ => none

@[simp]
theorem under?_nil (value : Value) :
    under? [] value = some value := rfl

@[simp]
theorem under?_cons_table (key : Text) (rest : List Text) (entries : Table) :
    under? (key :: rest) (.table entries) = (entries.lookup key).bind (under? rest) := rfl

theorem under?_singleton_table (key : Text) (entries : Table) :
    under? [key] (.table entries) = entries.lookup key := by
  rw [under?_cons_table]
  cases entries.lookup key <;> rfl

/-- An entry that is put into a table changes what is under its key and nothing else. -/
theorem under?_put
    (key : Text)
    (value : Value)
    (table : Table)
    (first : Text)
    (rest : List Text) :
    under? (first :: rest) (.table (Table.put key value table)) =
      if first = key then under? rest value else under? (first :: rest) (.table table) := by
  rw [under?_cons_table, lookup_put]
  split <;> rfl

/-- Nothing is below a value that is no table. -/
theorem under?_of_isTable_eq_false
    {value : Value}
    (plain : value.isTable = false)
    {path : List Text}
    (nonempty : path ≠ []) :
    under? path value = none := by
  obtain ⟨key, rest, rfl⟩ := List.exists_cons_of_ne_nil nonempty
  cases value with
  | table entries => simp [Value.isTable] at plain
  | _ => rfl

theorem eq_nil_of_under?
    {value inner : Value}
    (plain : value.isTable = false)
    {path : List Text}
    (found : under? path value = some inner) :
    path = [] := by
  by_contra more
  rw [under?_of_isTable_eq_false plain more] at found
  exact absurd found (by simp)

@[simp]
theorem under?_table_nil
    {path : List Text}
    (nonempty : path ≠ []) :
    under? path (.table []) = none := by
  obtain ⟨key, rest, rfl⟩ := List.exists_cons_of_ne_nil nonempty
  rfl

theorem under?_append
    (start path : List Text)
    (value : Value) :
    under? (start ++ path) value = (under? start value).bind (under? path) := by
  induction start generalizing value with
  | nil => rfl
  | cons key rest induction =>
      cases value with
      | table entries =>
          rw [List.cons_append, under?_cons_table, under?_cons_table]
          cases entries.lookup key with
          | none => rfl
          | some inner => exact induction inner
      | _ => rfl

/-- The table under a path; what is no table counts as an empty one. -/
def tableUnder (path : List Text) (table : Table) : Table :=
  match under? path (.table table) with
  | some (.table entries) => entries
  | _ => []

@[simp]
theorem tableUnder_nil (table : Table) :
    tableUnder [] table = table := rfl

theorem inner_eq_tableUnder (key : Text) (table : Table) :
    Table.inner key table = tableUnder [key] table := by
  cases found : table.lookup key with
  | none => simp only [Table.inner, tableUnder, under?_singleton_table, found]
  | some inner =>
      cases inner <;> simp only [Table.inner, tableUnder, under?_singleton_table, found]

/-- Below a key it makes no difference whether the table there is missing or empty. -/
theorem under?_inner
    (key : Text)
    {rest : List Text}
    (nonempty : rest ≠ [])
    (table : Table) :
    under? rest (.table (Table.inner key table)) = under? (key :: rest) (.table table) := by
  rw [under?_cons_table, Table.inner]
  cases table.lookup key with
  | none => exact under?_table_nil nonempty
  | some value =>
      cases value with
      | table entries => rfl
      | _ =>
          refine (under?_table_nil nonempty).trans (Eq.symm ?_)
          exact under?_of_isTable_eq_false rfl nonempty

theorem tableUnder_inner
    (key : Text)
    (rest : List Text)
    (table : Table) :
    tableUnder rest (Table.inner key table) = tableUnder (key :: rest) table := by
  by_cases empty : rest = []
  · rw [empty, tableUnder_nil, inner_eq_tableUnder]
  · rw [tableUnder, tableUnder, under?_inner key empty]

/-! ## Values and the tables in them -/

/-- What holds of values that are no tables, and of a table when it holds of all its entries, holds
of every value. -/
@[elab_as_elim]
theorem Value.tableInduction
    {motive : Value → Prop}
    (plain : ∀ value, value.isTable = false → motive value)
    (table : ∀ entries, (∀ entry ∈ entries, motive entry.2) → motive (.table entries))
    (value : Value) :
    motive value := by
  cases value with
  | table entries =>
      apply table
      intro entry member
      exact Value.tableInduction plain table entry.2
  | _ => exact plain _ rfl
termination_by sizeOf value
decreasing_by
  have smaller := List.sizeOf_lt_of_mem member
  obtain ⟨key, inner⟩ := entry
  simp only [Prod.mk.sizeOf_spec, Value.table.sizeOf_spec] at smaller ⊢
  omega

/-- Whether no table inside a value, the value itself included, has a key twice. -/
def HasDistinctKeys (value : Value) : Prop :=
  ∀ path entries, under? path value = some (.table entries) → (entries.map Prod.fst).Nodup

namespace HasDistinctKeys

theorem nodup
    {entries : Table}
    (distinct : HasDistinctKeys (.table entries)) :
    (entries.map Prod.fst).Nodup :=
  distinct [] entries rfl

theorem of_under?
    {value : Value}
    (distinct : HasDistinctKeys value)
    {path : List Text}
    {inner : Value}
    (found : under? path value = some inner) :
    HasDistinctKeys inner := by
  intro below entries inside
  apply distinct (path ++ below) entries
  rw [under?_append, found]
  exact inside

theorem of_mem
    {entries : Table}
    (distinct : HasDistinctKeys (.table entries))
    {entry : Text × Value}
    (member : entry ∈ entries) :
    HasDistinctKeys entry.2 := by
  have found : under? [entry.1] (.table entries) = some entry.2 := by
    rw [under?_singleton_table]
    exact (lookup_eq_some_iff_mem distinct.nodup entry.1 entry.2).2 member
  exact distinct.of_under? found

/-- A path to a leaf of a table goes through one of the entries. -/
theorem under?_table_eq_some_iff
    {entries : Table}
    (distinct : HasDistinctKeys (.table entries))
    {leaf : Value}
    (plain : leaf.isTable = false)
    (path : List Text) :
    under? path (.table entries) = some leaf ↔
      ∃ entry ∈ entries, ∃ rest, path = entry.1 :: rest ∧ under? rest entry.2 = some leaf := by
  constructor
  · intro found
    cases path with
    | nil =>
        obtain rfl := Option.some.inj found
        simp [Value.isTable] at plain
    | cons first rest =>
        obtain ⟨inner, here, below⟩ := Option.bind_eq_some_iff.1 found
        exact ⟨(first, inner), mem_of_lookup here, rest, rfl, below⟩
  · rintro ⟨entry, member, rest, rfl, found⟩
    rw [under?_cons_table, (lookup_eq_some_iff_mem distinct.nodup _ _).2 member]
    exact found

end HasDistinctKeys

/-! ## Sorted tables -/

theorem mem_insertSorted_iff
    (key : Text)
    (value : Value)
    (table : Table)
    (entry : Text × Value) :
    entry ∈ insertSorted key value table ↔ entry = (key, value) ∨ entry ∈ table := by
  induction table with
  | nil => simp [insertSorted]
  | cons first rest induction =>
      obtain ⟨other, existing⟩ := first
      rw [insertSorted]
      split
      · simp
      · rw [List.mem_cons, induction, List.mem_cons, or_left_comm]

theorem mem_sortEntries_iff
    (table : Table)
    (entry : Text × Value) :
    entry ∈ sortEntries table ↔ ∃ original ∈ table, entry = (original.1, original.2.sortKeys) := by
  induction table with
  | nil => simp [sortEntries]
  | cons first rest induction =>
      obtain ⟨key, value⟩ := first
      rw [sortEntries, mem_insertSorted_iff, induction]
      simp

theorem isTable_sortKeys (value : Value) :
    value.sortKeys.isTable = value.isTable := by
  cases value <;> rfl

end UnoBindgen.Toml
