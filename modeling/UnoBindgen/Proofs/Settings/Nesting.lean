import Mathlib
import UnoBindgen.Proofs.Text.Split
import UnoBindgen.Proofs.Toml.Paths
import UnoBindgen.Settings.Layers

/-!
# Tables built from dotted keys

A value put under a path is found there, with all that is inside it; the tables on the way grow by
one entry, and whatever is neither on the way nor below stays as it is.  From this one step
follows what a table holds that is built from values under dotted keys: only what it was given,
and each value whose key no other key runs into.

Bringing a table over another one is described key by key.
-/

namespace UnoBindgen.Settings

open Toml

/-! ## Putting a value under a path -/

theorem putPath_cons
    (value : Value)
    (key : Text)
    {rest : List Text}
    (nonempty : rest ≠ [])
    (table : Table) :
    putPath value (key :: rest) table =
      Table.put key (.table (putPath value rest (Table.inner key table))) table := by
  cases rest with
  | nil => exact (nonempty rfl).elim
  | cons next others => rfl

/-- Only the entry of the first key changes. -/
theorem exists_putPath_eq_put
    (value : Value)
    (key : Text)
    (rest : List Text)
    (table : Table) :
    ∃ entry, putPath value (key :: rest) table = Table.put key entry table := by
  cases rest with
  | nil => exact ⟨value, rfl⟩
  | cons next others => exact ⟨_, putPath_cons value key (List.cons_ne_nil next others) table⟩

theorem under?_putPath_append
    (value : Value)
    {path : List Text}
    (nonempty : path ≠ [])
    (below : List Text)
    (table : Table) :
    under? (path ++ below) (.table (putPath value path table)) = under? below value := by
  induction path generalizing table with
  | nil => exact (nonempty rfl).elim
  | cons key rest induction =>
      by_cases last : rest = []
      · subst last
        simp [putPath, lookup_put]
      · rw [putPath_cons value key last, List.cons_append, under?_cons_table, lookup_put,
          if_pos rfl, Option.bind_some]
        exact induction last (Table.inner key table)

theorem under?_putPath_start
    (value : Value)
    (start : List Text)
    {rest : List Text}
    (nonempty : rest ≠ [])
    (table : Table) :
    under? start (.table (putPath value (start ++ rest) table)) =
      some (.table (putPath value rest (tableUnder start table))) := by
  induction start generalizing table with
  | nil => rfl
  | cons key others induction =>
      have behind : others ++ rest ≠ [] := by simp [nonempty]
      rw [List.cons_append, putPath_cons value key behind, under?_cons_table, lookup_put,
        if_pos rfl, Option.bind_some, induction, tableUnder_inner]

theorem under?_putPath_apart
    (value : Value)
    {path other : List Text}
    (notBelow : ¬ path <+: other)
    (notAbove : ¬ other <+: path)
    (table : Table) :
    under? other (.table (putPath value path table)) = under? other (.table table) := by
  induction path generalizing other table with
  | nil => exact (notBelow List.nil_prefix).elim
  | cons key rest induction =>
      cases other with
      | nil => exact (notAbove List.nil_prefix).elim
      | cons first others =>
          by_cases same : first = key
          · subst same
            rw [List.cons_prefix_cons] at notBelow notAbove
            have restApart : ¬ rest <+: others := fun start => notBelow ⟨rfl, start⟩
            have othersApart : ¬ others <+: rest := fun start => notAbove ⟨rfl, start⟩
            have restNonempty : rest ≠ [] := by
              rintro rfl
              exact restApart List.nil_prefix
            have othersNonempty : others ≠ [] := by
              rintro rfl
              exact othersApart List.nil_prefix
            rw [putPath_cons value first restNonempty, under?_cons_table, lookup_put, if_pos rfl,
              Option.bind_some, induction restApart othersApart, under?_inner first othersNonempty]
          · obtain ⟨entry, changed⟩ := exists_putPath_eq_put value key rest table
            rw [changed, under?_cons_table, lookup_put, if_neg same, under?_cons_table]

theorem nodup_putPath
    (value : Value)
    (path : List Text)
    {table : Table}
    (nodup : (table.map Prod.fst).Nodup) :
    ((putPath value path table).map Prod.fst).Nodup := by
  cases path with
  | nil => exact nodup
  | cons key rest =>
      obtain ⟨entry, changed⟩ := exists_putPath_eq_put value key rest table
      rw [changed]
      exact nodup_put key entry nodup

/-! ## Tables built from values under dotted keys -/

theorem path_cases (path other : List Text) :
    (∃ below, other = path ++ below) ∨ (∃ rest, rest ≠ [] ∧ path = other ++ rest) ∨
      ¬ path <+: other ∧ ¬ other <+: path := by
  by_cases start : path <+: other
  · obtain ⟨below, same⟩ := start
    exact Or.inl ⟨below, same.symm⟩
  · by_cases longer : other <+: path
    · obtain ⟨rest, same⟩ := longer
      refine Or.inr (Or.inl ⟨rest, ?_, same.symm⟩)
      rintro rfl
      rw [List.append_nil] at same
      exact start (same ▸ List.prefix_refl other)
    · exact Or.inr (Or.inr ⟨start, longer⟩)

theorem nested_concat
    (values : List (Text × Value))
    (last : Text × Value) :
    nested (values ++ [last]) = putPath last.2 (last.1.splitAt '.') (nested values) := by
  rw [nested, List.foldl_append]
  rfl

/-- What stands in a table built from values is one of the values or inside one, or it is a table
on the way to one. -/
theorem exists_of_under?_nested
    {values : List (Text × Value)}
    {path : List Text}
    (nonempty : path ≠ [])
    {value : Value}
    (found : under? path (.table (nested values)) = some value) :
    (∃ given ∈ values, ∃ below,
      path = given.1.splitAt '.' ++ below ∧ under? below given.2 = some value) ∨
      value.isTable = true ∧
        ∃ given ∈ values, ∃ rest, rest ≠ [] ∧ given.1.splitAt '.' = path ++ rest := by
  induction values using List.reverseRecOn with
  | nil => simp [nested, nonempty] at found
  | append_singleton values last induction =>
      have member : last ∈ values ++ [last] := by simp
      rw [nested_concat] at found
      rcases path_cases (last.1.splitAt '.') path with
        ⟨below, rfl⟩ | ⟨rest, more, split⟩ | ⟨notBelow, notAbove⟩
      · rw [under?_putPath_append _ (Text.splitAt_ne_nil _ _)] at found
        exact Or.inl ⟨last, member, below, rfl, found⟩
      · rw [split, under?_putPath_start _ _ more] at found
        refine Or.inr ⟨?_, last, member, rest, more, split⟩
        rw [← Option.some.inj found]
        rfl
      · rw [under?_putPath_apart _ notBelow notAbove] at found
        rcases induction found with ⟨given, old, rest⟩ | ⟨isTable, given, old, rest⟩
        · exact Or.inl ⟨given, List.mem_append_left [last] old, rest⟩
        · exact Or.inr ⟨isTable, given, List.mem_append_left [last] old, rest⟩

/-- What stands in a table built from values has come with a key. -/
theorem exists_splitAt_of_under?_nested
    {values : List (Text × Value)}
    {first : Text}
    {more : List Text}
    {value : Value}
    (found : under? (first :: more) (.table (nested values)) = some value) :
    ∃ given ∈ values, ∃ rest, given.1.splitAt '.' = first :: rest := by
  rcases exists_of_under?_nested (List.cons_ne_nil first more) found with
    ⟨given, member, below, split, -⟩ | ⟨-, given, member, rest, -, split⟩
  · obtain ⟨start, rest, pieces⟩ := List.exists_cons_of_ne_nil (Text.splitAt_ne_nil '.' given.1)
    rw [pieces, List.cons_append] at split
    refine ⟨given, member, rest, ?_⟩
    rw [pieces, (List.cons.inj split).1]
  · exact ⟨given, member, more ++ rest, split⟩

theorem mem_of_mem_concat
    {values : List (Text × Value)}
    {key : Text}
    {value : Value}
    {last : Text × Value}
    (member : (key, value) ∈ values ++ [last])
    (differs : last.1 ≠ key) :
    (key, value) ∈ values := by
  rcases List.mem_append.1 member with earlier | new
  · exact earlier
  · exact (differs (congrArg Prod.fst (List.mem_singleton.1 new)).symm).elim

/-- A value is found under its key when no other key leads to its place, above it or below it. -/
theorem under?_nested_of_mem
    {values : List (Text × Value)}
    {key : Text}
    {value : Value}
    (member : (key, value) ∈ values)
    (agree : ∀ given ∈ values, given.1 = key → given.2 = value)
    (apart : ∀ given ∈ values, given.1 ≠ key →
      ¬ given.1.splitAt '.' <+: key.splitAt '.' ∧ ¬ key.splitAt '.' <+: given.1.splitAt '.') :
    under? (key.splitAt '.') (.table (nested values)) = some value := by
  induction values using List.reverseRecOn with
  | nil => simp at member
  | append_singleton values last induction =>
      have lastMember : last ∈ values ++ [last] := by simp
      rw [nested_concat]
      by_cases same : last.1 = key
      · have here := under?_putPath_append last.2 (Text.splitAt_ne_nil '.' key) [] (nested values)
        rw [List.append_nil] at here
        rw [same, here, agree last lastMember same, under?_nil]
      · obtain ⟨notBelow, notAbove⟩ := apart last lastMember same
        rw [under?_putPath_apart _ notBelow notAbove]
        have old := mem_of_mem_concat member same
        exact induction old
          (fun given earlier => agree given (List.mem_append_left [last] earlier))
          (fun given earlier => apart given (List.mem_append_left [last] earlier))

/-- A table given under a key stays a table when no other key leads above it. -/
theorem exists_table_of_mem_nested
    {values : List (Text × Value)}
    {key : Text}
    {entries : Table}
    (member : (key, .table entries) ∈ values)
    (agree : ∀ given ∈ values, given.1 = key → given.2 = .table entries)
    (uncovered : ∀ given ∈ values, given.1 ≠ key → ¬ given.1.splitAt '.' <+: key.splitAt '.') :
    ∃ inner, under? (key.splitAt '.') (.table (nested values)) = some (.table inner) := by
  induction values using List.reverseRecOn with
  | nil => simp at member
  | append_singleton values last induction =>
      have lastMember : last ∈ values ++ [last] := by simp
      rw [nested_concat]
      by_cases same : last.1 = key
      · have here := under?_putPath_append last.2 (Text.splitAt_ne_nil '.' key) [] (nested values)
        rw [List.append_nil, agree last lastMember same] at here
        rw [same, agree last lastMember same, here]
        exact ⟨entries, rfl⟩
      · have notAbove := uncovered last lastMember same
        rcases path_cases (last.1.splitAt '.') (key.splitAt '.') with
          ⟨below, split⟩ | ⟨rest, more, split⟩ | ⟨-, notBelow⟩
        · exact (notAbove ⟨below, split.symm⟩).elim
        · rw [split, under?_putPath_start _ _ more]
          exact ⟨_, rfl⟩
        · rw [under?_putPath_apart _ notAbove notBelow]
          have old := mem_of_mem_concat member same
          exact induction old
            (fun given earlier => agree given (List.mem_append_left [last] earlier))
            (fun given earlier => uncovered given (List.mem_append_left [last] earlier))

/-- The tables on the way to the values have distinct keys. -/
theorem nodup_of_under?_nested
    {values : List (Text × Value)}
    {path : List Text}
    (outside : ∀ given ∈ values, ∀ below, path = given.1.splitAt '.' ++ below →
      ∀ entries, under? below given.2 ≠ some (.table entries))
    {entries : Table}
    (found : under? path (.table (nested values)) = some (.table entries)) :
    (entries.map Prod.fst).Nodup := by
  induction values using List.reverseRecOn generalizing entries with
  | nil =>
      by_cases empty : path = []
      · subst empty
        obtain rfl : [] = entries := by simpa [nested] using found
        exact List.nodup_nil
      · simp [nested, empty] at found
  | append_singleton values last induction =>
      have earlier (given : Text × Value) (old : given ∈ values) :=
        outside given (List.mem_append_left [last] old)
      rw [nested_concat] at found
      rcases path_cases (last.1.splitAt '.') path with
        ⟨below, rfl⟩ | ⟨rest, more, split⟩ | ⟨notBelow, notAbove⟩
      · rw [under?_putPath_append _ (Text.splitAt_ne_nil _ _)] at found
        exact (outside last (by simp) below rfl entries found).elim
      · rw [split, under?_putPath_start _ _ more] at found
        obtain rfl := Value.table.inj (Option.some.inj found)
        apply nodup_putPath
        rw [tableUnder]
        split
        · rename_i before
          exact induction earlier before
        · exact List.nodup_nil
      · rw [under?_putPath_apart _ notBelow notAbove] at found
        exact induction earlier found

theorem nodup_nested (values : List (Text × Value)) :
    ((nested values).map Prod.fst).Nodup := by
  have whole : under? [] (.table (nested values)) = some (.table (nested values)) := rfl
  apply nodup_of_under?_nested ?_ whole
  intro given member below split
  exact absurd (List.append_eq_nil_iff.1 split.symm).1 (Text.splitAt_ne_nil '.' given.1)

/-- The values in effect under their dotted keys. -/
def Layers.values (layers : Layers) (environment : List (Text × Text)) : List (Text × Value) :=
  layers.keys.filterMap fun key =>
    (layers.find? environment key).map fun value => (key, value)

theorem Layers.effective_eq_nested
    (layers : Layers)
    (environment : List (Text × Text)) :
    layers.effective environment = nested (layers.values environment) := rfl

theorem Layers.mem_values_iff
    {layers : Layers}
    {environment : List (Text × Text)}
    (key : Text)
    (value : Value) :
    (key, value) ∈ layers.values environment ↔
      key ∈ layers.keys ∧ layers.find? environment key = some value := by
  rw [Layers.values, List.mem_filterMap]
  constructor
  · rintro ⟨other, member, same⟩
    obtain ⟨found, here, equal⟩ := Option.map_eq_some_iff.1 same
    obtain ⟨rfl, rfl⟩ := Prod.mk.inj equal
    exact ⟨member, here⟩
  · rintro ⟨member, found⟩
    exact ⟨key, member, by rw [found]; rfl⟩

/-! ## Bringing a table over another -/

theorem mergeValue_none (value : Value) :
    mergeValue value none = value := by
  cases value <;> rfl

theorem mergeValue_table_table (entries existing : Table) :
    mergeValue (.table entries) (some (.table existing)) =
      .table (mergeEntries entries existing) := by
  rw [mergeValue]

theorem mergeValue_of_forall_isTable_eq_false
    (value : Value)
    {existing : Option Value}
    (single : ∀ old ∈ existing, old.isTable = false) :
    mergeValue value existing = value := by
  cases existing with
  | none => exact mergeValue_none value
  | some old =>
      cases old with
      | table entries => exact absurd (single _ rfl) (by simp [Value.isTable])
      | _ => cases value <;> rfl

theorem lookup_mergeEntries
    {entries : Table}
    (nodup : (entries.map Prod.fst).Nodup)
    (table : Table)
    (key : Text) :
    (mergeEntries entries table).lookup key =
      match entries.lookup key with
      | some value => some (mergeValue value (table.lookup key))
      | none => table.lookup key := by
  induction entries generalizing table with
  | nil => simp [mergeEntries]
  | cons entry rest induction =>
      obtain ⟨first, value⟩ := entry
      rw [List.map_cons, List.nodup_cons] at nodup
      rw [mergeEntries, induction nodup.2, lookup_put, lookup_cons_eq_ite]
      by_cases same : key = first
      · have absent : rest.lookup key = none := by
          rw [lookup_eq_none_iff_not_mem, same]
          exact nodup.1
        rw [absent]
        simp [same]
      · rw [if_neg same, if_neg same]

theorem nodup_mergeEntries
    (entries : Table)
    {table : Table}
    (nodup : (table.map Prod.fst).Nodup) :
    ((mergeEntries entries table).map Prod.fst).Nodup := by
  induction entries generalizing table with
  | nil => exact nodup
  | cons entry rest induction =>
      obtain ⟨key, value⟩ := entry
      rw [mergeEntries]
      exact induction (nodup_put _ _ nodup)

/-- The merged table has no keys of its own. -/
theorem forall_fst_mergeEntries
    (holds : Text → Prop)
    {entries table : Table}
    (upper : ∀ entry ∈ entries, holds entry.1)
    (lower : ∀ entry ∈ table, holds entry.1) :
    ∀ entry ∈ mergeEntries entries table, holds entry.1 := by
  induction entries generalizing table with
  | nil => exact lower
  | cons entry rest induction =>
      obtain ⟨key, value⟩ := entry
      rw [List.forall_mem_cons] at upper
      rw [mergeEntries]
      apply induction upper.2
      intro entry member
      rcases (mem_map_fst_put _ _ _ _).1 (List.mem_map_of_mem member) with same | old
      · exact same ▸ upper.1
      · obtain ⟨other, otherMember, same⟩ := List.mem_map.1 old
        exact same ▸ lower other otherMember

/-! ## Dotted keys -/

@[simp]
theorem keyBelow_nil (key : Text) :
    keyBelow [] key = key := rfl

theorem keyBelow_of_ne_nil
    {outer : Text}
    (nonempty : outer ≠ [])
    (key : Text) :
    keyBelow outer key = outer ++ '.' :: key := by
  have shown : outer.isEmpty = false := by simpa using nonempty
  rw [keyBelow, shown]
  simp

theorem splitAt_keyBelow
    {outer : Text}
    (nonempty : outer ≠ [])
    (key : Text) :
    (keyBelow outer key).splitAt '.' = outer.splitAt '.' ++ key.splitAt '.' := by
  rw [keyBelow_of_ne_nil nonempty, Text.splitAt_append]

theorem mem_leaves_iff
    (outer : Text)
    (table : Table)
    (leaf : Text × Value) :
    leaf ∈ leaves outer table ↔
      ∃ entry ∈ table, leaf ∈ leavesOfValue (keyBelow outer entry.1) entry.2 := by
  induction table with
  | nil => simp [leaves]
  | cons entry rest induction =>
      obtain ⟨key, value⟩ := entry
      rw [leaves, List.mem_append, induction]
      simp

theorem leavesOfValue_of_isTable_eq_false
    {value : Value}
    (plain : value.isTable = false)
    (key : Text) :
    leavesOfValue key value = [(key, value)] := by
  cases value with
  | table entries => simp [Value.isTable] at plain
  | _ => rfl

theorem follow_eq_under?
    (path : List Text)
    (table : Table) :
    follow path table = under? path (.table table) := by
  induction path generalizing table with
  | nil => rfl
  | cons key rest induction =>
      cases rest with
      | nil => rw [follow, under?_singleton_table]
      | cons next others =>
          simp only [follow, under?_cons_table]
          cases table.lookup key with
          | none => rfl
          | some value =>
              cases value with
              | table entries => exact induction entries
              | _ => rfl

theorem step_table (entries : Table) (key : Text) :
    step (.table entries) key = entries.lookup key := rfl

/-- A path of two keys is followed key by key unless there is a dotted key for both. -/
theorem search_pair
    {table : Table}
    {outer key : Text}
    (undotted : table.lookup (Text.join ['.'] [outer, key]) = none) :
    search (.table table) [outer, key] =
      (table.lookup outer).bind fun value => step value key := by
  have last (value : Value) : search value [key] = step value key := by
    rw [search]
    cases found : step value key <;> simp [List.range_succ, search, found]
  rw [search]
  simp only [List.length_cons, List.length_nil, List.range_succ, List.range_zero, List.nil_append,
    List.cons_append, List.reverse_cons, List.reverse_nil, List.findSome?_cons, List.take_succ_cons,
    List.take_zero, List.drop_zero, List.findSome?_nil, Text.join_singleton, step_table, undotted]
  cases table.lookup outer with
  | none => rfl
  | some value =>
      simp only [last, Option.bind_some]
      cases step value key <;> rfl

/-- The key of a value in an inner value continues the key of the inner value. -/
theorem exists_splitAt_of_mem_leavesOfValue
    {outer : Text}
    (nonempty : outer ≠ [])
    {value : Value}
    {leaf : Text × Value}
    (member : leaf ∈ leavesOfValue outer value) :
    ∃ rest, leaf.1.splitAt '.' = outer.splitAt '.' ++ rest := by
  induction value using Value.tableInduction generalizing outer with
  | plain value plain =>
      rw [leavesOfValue_of_isTable_eq_false plain, List.mem_singleton] at member
      exact ⟨[], by rw [member, List.append_nil]⟩
  | table entries induction =>
      rw [leavesOfValue, mem_leaves_iff] at member
      obtain ⟨entry, entryMember, inEntry⟩ := member
      have below : keyBelow outer entry.1 ≠ [] := by simp [keyBelow_of_ne_nil nonempty]
      obtain ⟨rest, split⟩ := induction entry entryMember below inEntry
      refine ⟨entry.1.splitAt '.' ++ rest, ?_⟩
      rw [split, splitAt_keyBelow nonempty, List.append_assoc]

/-- The leaves of a value with distinct keys are what paths lead to. -/
theorem mem_leavesOfValue_iff
    {value : Value}
    (distinct : HasDistinctKeys value)
    (outer key : Text)
    (leaf : Value) :
    (key, leaf) ∈ leavesOfValue outer value ↔
      ∃ path, under? path value = some leaf ∧ leaf.isTable = false ∧
        key = path.foldl keyBelow outer := by
  induction value using Value.tableInduction generalizing outer with
  | plain value plain =>
      rw [leavesOfValue_of_isTable_eq_false plain, List.mem_singleton]
      constructor
      · intro same
        obtain ⟨rfl, rfl⟩ := Prod.mk.inj same
        exact ⟨[], rfl, plain, rfl⟩
      · rintro ⟨path, found, -, rfl⟩
        obtain rfl := eq_nil_of_under? plain found
        obtain rfl := Option.some.inj found
        rfl
  | table entries induction =>
      rw [leavesOfValue, mem_leaves_iff]
      constructor
      · rintro ⟨entry, entryMember, inEntry⟩
        rw [induction entry entryMember (distinct.of_mem entryMember)] at inEntry
        obtain ⟨rest, found, plain, rfl⟩ := inEntry
        exact ⟨entry.1 :: rest,
          (distinct.under?_table_eq_some_iff plain _).2 ⟨entry, entryMember, rest, rfl, found⟩,
          plain, rfl⟩
      · rintro ⟨path, found, plain, rfl⟩
        obtain ⟨entry, entryMember, rest, rfl, below⟩ :=
          (distinct.under?_table_eq_some_iff plain path).1 found
        refine ⟨entry, entryMember, ?_⟩
        rw [induction entry entryMember (distinct.of_mem entryMember)]
        exact ⟨rest, below, plain, rfl⟩

/-- Sorting the keys of a value changes neither the keys of its leaves nor, up to the order of keys
in lists, the leaves. -/
theorem exists_of_mem_leavesOfValue_sortKeys
    {outer key : Text}
    {value shown : Value}
    (member : (key, shown) ∈ leavesOfValue outer value.sortKeys) :
    ∃ leaf, (key, leaf) ∈ leavesOfValue outer value ∧ shown = leaf.sortKeys := by
  induction value using Value.tableInduction generalizing outer with
  | plain value plain =>
      have sortedPlain : value.sortKeys.isTable = false := by rw [isTable_sortKeys, plain]
      rw [leavesOfValue_of_isTable_eq_false sortedPlain, List.mem_singleton] at member
      obtain ⟨rfl, rfl⟩ := Prod.mk.inj member
      refine ⟨value, ?_, rfl⟩
      rw [leavesOfValue_of_isTable_eq_false plain, List.mem_singleton]
  | table entries induction =>
      rw [Value.sortKeys, leavesOfValue, mem_leaves_iff] at member
      obtain ⟨entry, entryMember, inEntry⟩ := member
      obtain ⟨original, originalMember, rfl⟩ := (mem_sortEntries_iff _ _).1 entryMember
      obtain ⟨leaf, leafMember, same⟩ := induction original originalMember inEntry
      refine ⟨leaf, ?_, same⟩
      rw [leavesOfValue, mem_leaves_iff]
      exact ⟨original, originalMember, leafMember⟩

theorem exists_of_mem_leaves_sortEntries
    {outer key : Text}
    {table : Table}
    {shown : Value}
    (member : (key, shown) ∈ leaves outer (sortEntries table)) :
    ∃ leaf, (key, leaf) ∈ leaves outer table ∧ shown = leaf.sortKeys := by
  have inValue : (key, shown) ∈ leavesOfValue outer (Value.sortKeys (.table table)) := by
    rwa [Value.sortKeys, leavesOfValue]
  obtain ⟨leaf, leafMember, same⟩ := exists_of_mem_leavesOfValue_sortKeys inValue
  rw [leavesOfValue] at leafMember
  exact ⟨leaf, leafMember, same⟩

end UnoBindgen.Settings
