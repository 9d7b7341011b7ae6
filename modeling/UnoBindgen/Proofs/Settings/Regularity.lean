import Mathlib
import UnoBindgen.Proofs.Settings.Nesting

/-!
# Regular tables

In a regular table, and in every table inside it, keys are distinct and have no dots, and no key of
the table itself is empty.  Then dotted keys and paths say the same: every value has one dotted key,
and following the key finds the value.

What is built from the values of a regular table holds the same values, and a regular table brought
over another one gives a regular table, in which each value comes from the upper table or, where
that has none, from the lower one.
-/

namespace UnoBindgen.Settings

open Toml

/-! ## Regular values -/

/-- Whether all tables inside a value, the value itself included, have distinct keys without
dots. -/
def IsRegular (value : Value) : Prop :=
  ∀ path entries, under? path value = some (.table entries) →
    (entries.map Prod.fst).Nodup ∧ ∀ entry ∈ entries, '.' ∉ entry.1

/-- Whether a table is regular and has no empty key. -/
structure IsOrderly (table : Table) : Prop where
  regular : IsRegular (.table table)
  named : ∀ entry ∈ table, entry.1 ≠ []

namespace IsRegular

theorem of_under?
    {value : Value}
    (regular : IsRegular value)
    {path : List Text}
    {inner : Value}
    (found : under? path value = some inner) :
    IsRegular inner := by
  intro below entries inside
  apply regular (path ++ below) entries
  rw [under?_append, found]
  exact inside

theorem hasDistinctKeys
    {value : Value}
    (regular : IsRegular value) :
    HasDistinctKeys value :=
  fun path entries found => (regular path entries found).1

/-- On the way to a value in a regular value the keys have no dots. -/
theorem dotless_of_under?
    {value : Value}
    (regular : IsRegular value)
    {path : List Text}
    {inner : Value}
    (found : under? path value = some inner) :
    ∀ key ∈ path, '.' ∉ key := by
  induction path generalizing value with
  | nil => simp
  | cons first rest induction =>
      cases value with
      | table entries =>
          obtain ⟨next, here, below⟩ := Option.bind_eq_some_iff.1 found
          have nextFound : under? [first] (.table entries) = some next := by
            rw [under?_singleton_table, here]
          rw [List.forall_mem_cons]
          exact ⟨(regular [] entries rfl).2 _ (mem_of_lookup here),
            induction (regular.of_under? nextFound) below⟩
      | _ => exact absurd found (by simp [under?])

end IsRegular

theorem isRegular_of_isTable_eq_false
    {value : Value}
    (plain : value.isTable = false) :
    IsRegular value := by
  intro path entries found
  obtain rfl := eq_nil_of_under? plain found
  obtain rfl := Option.some.inj found
  simp [Value.isTable] at plain

theorem isRegular_table_iff (entries : Table) :
    IsRegular (.table entries) ↔
      ((entries.map Prod.fst).Nodup ∧ ∀ entry ∈ entries, '.' ∉ entry.1) ∧
        ∀ entry ∈ entries, IsRegular entry.2 := by
  constructor
  · intro regular
    refine ⟨regular [] entries rfl, fun entry member => ?_⟩
    have found : under? [entry.1] (.table entries) = some entry.2 := by
      rw [under?_singleton_table]
      exact (lookup_eq_some_iff_mem (regular [] entries rfl).1 _ _).2 member
    exact regular.of_under? found
  · rintro ⟨here, inside⟩ path inner found
    cases path with
    | nil =>
        obtain rfl := Value.table.inj (Option.some.inj found)
        exact here
    | cons first rest =>
        obtain ⟨next, nextFound, below⟩ := Option.bind_eq_some_iff.1 found
        exact inside _ (mem_of_lookup nextFound) rest inner below

mutual

/-- Whether a value is regular, by looking at its tables one after the other. -/
def checkRegular : Value → Bool
  | .table entries =>
    decide ((entries.map Prod.fst).Nodup ∧ ∀ entry ∈ entries, '.' ∉ entry.1) &&
      checkRegularEntries entries
  | _ => true

/-- Whether the values of entries are regular. -/
def checkRegularEntries : List (Text × Value) → Bool
  | [] => true
  | (_, value) :: rest => checkRegular value && checkRegularEntries rest

end

theorem checkRegularEntries_iff (entries : Table) :
    checkRegularEntries entries = true ↔ ∀ entry ∈ entries, checkRegular entry.2 = true := by
  induction entries with
  | nil => simp [checkRegularEntries]
  | cons entry rest induction =>
      obtain ⟨key, value⟩ := entry
      rw [checkRegularEntries, Bool.and_eq_true, induction, List.forall_mem_cons]

theorem checkRegular_iff (value : Value) :
    checkRegular value = true ↔ IsRegular value := by
  induction value using Value.tableInduction with
  | plain value plain =>
      have checked : checkRegular value = true := by
        cases value with
        | table entries => simp [Value.isTable] at plain
        | _ => rfl
      exact ⟨fun _ => isRegular_of_isTable_eq_false plain, fun _ => checked⟩
  | table entries induction =>
      rw [checkRegular, Bool.and_eq_true, decide_eq_true_iff, checkRegularEntries_iff,
        isRegular_table_iff]
      exact and_congr_right fun _ =>
        forall₂_congr fun entry member => induction entry member

instance (value : Value) : Decidable (IsRegular value) :=
  decidable_of_iff (checkRegular value = true) (checkRegular_iff value)

instance (table : Table) : Decidable (IsOrderly table) :=
  decidable_of_iff (IsRegular (.table table) ∧ ∀ entry ∈ table, entry.1 ≠ [])
    ⟨fun ⟨regular, named⟩ => ⟨regular, named⟩, fun orderly => ⟨orderly.regular, orderly.named⟩⟩

/-! ## Paths and dotted keys -/

theorem foldl_keyBelow
    {outer : Text}
    (nonempty : outer ≠ [])
    (path : List Text) :
    path.foldl keyBelow outer = Text.join ['.'] (outer :: path) := by
  induction path generalizing outer with
  | nil => rfl
  | cons key rest induction =>
      have below : keyBelow outer key ≠ [] := by simp [keyBelow_of_ne_nil nonempty]
      rw [List.foldl_cons, induction below, keyBelow_of_ne_nil nonempty,
        Text.join_cons_eq_append_flatten, Text.join_cons_eq_append_flatten]
      simp

/-- The values of a table that are no tables, by their paths. -/
def leaf? (path : List Text) (table : Table) : Option Value :=
  (follow path table).filter fun value => !value.isTable

theorem leaf?_eq_some_iff
    (path : List Text)
    (table : Table)
    (value : Value) :
    leaf? path table = some value ↔
      under? path (.table table) = some value ∧ value.isTable = false := by
  rw [leaf?, follow_eq_under?, Option.filter_eq_some_iff]
  simp

theorem ne_nil_of_leaf?
    {path : List Text}
    {table : Table}
    {value : Value}
    (found : leaf? path table = some value) :
    path ≠ [] := by
  rintro rfl
  obtain ⟨here, plain⟩ := (leaf?_eq_some_iff _ _ _).1 found
  obtain rfl := Option.some.inj here
  simp [Value.isTable] at plain

@[simp]
theorem leaf?_nil_table (path : List Text) :
    leaf? path [] = none := by
  by_contra found
  obtain ⟨value, here⟩ := Option.ne_none_iff_exists'.1 found
  have there := ((leaf?_eq_some_iff _ _ _).1 here).1
  rw [under?_table_nil (ne_nil_of_leaf? here)] at there
  exact absurd there (by simp)

/-- A value has nothing below it, so that no path to a value continues another one. -/
theorem eq_of_leaf?_of_start
    {path other : List Text}
    {table : Table}
    {value otherValue : Value}
    (found : leaf? path table = some value)
    (otherFound : leaf? other table = some otherValue)
    (start : path <+: other) :
    path = other := by
  obtain ⟨rest, rfl⟩ := start
  obtain ⟨here, plain⟩ := (leaf?_eq_some_iff _ _ _).1 found
  obtain ⟨there, -⟩ := (leaf?_eq_some_iff _ _ _).1 otherFound
  rw [under?_append, here, Option.bind_some] at there
  rw [eq_nil_of_under? plain there, List.append_nil]

namespace IsOrderly

variable
  {table : Table}

/-- The path to a value in an orderly table is the one that its dotted key says. -/
theorem splitAt_join
    (orderly : IsOrderly table)
    {path : List Text}
    {value : Value}
    (found : leaf? path table = some value) :
    (Text.join ['.'] path).splitAt '.' = path :=
  Text.splitAt_join (ne_nil_of_leaf? found)
    (orderly.regular.dotless_of_under? ((leaf?_eq_some_iff _ _ _).1 found).1)

theorem head_ne_nil
    (orderly : IsOrderly table)
    {first : Text}
    {rest : List Text}
    {value : Value}
    (found : under? (first :: rest) (.table table) = some value) :
    first ≠ [] := by
  obtain ⟨next, here, -⟩ := Option.bind_eq_some_iff.1 found
  exact orderly.named _ (mem_of_lookup here)

theorem mem_leaves_iff
    (orderly : IsOrderly table)
    (key : Text)
    (value : Value) :
    (key, value) ∈ leaves [] table ↔
      ∃ path, leaf? path table = some value ∧ key = Text.join ['.'] path := by
  have listed : leaves [] table = leavesOfValue [] (.table table) := rfl
  rw [listed, mem_leavesOfValue_iff orderly.regular.hasDistinctKeys]
  have joined {path : List Text} (found : leaf? path table = some value) :
      path.foldl keyBelow [] = Text.join ['.'] path := by
    obtain ⟨first, rest, rfl⟩ := List.exists_cons_of_ne_nil (ne_nil_of_leaf? found)
    exact foldl_keyBelow (orderly.head_ne_nil ((leaf?_eq_some_iff _ _ _).1 found).1) rest
  constructor
  · rintro ⟨path, found, plain, rfl⟩
    have leaf := (leaf?_eq_some_iff path table value).2 ⟨found, plain⟩
    exact ⟨path, leaf, joined leaf⟩
  · rintro ⟨path, leaf, rfl⟩
    obtain ⟨found, plain⟩ := (leaf?_eq_some_iff _ _ _).1 leaf
    exact ⟨path, found, plain, (joined leaf).symm⟩

theorem mem_leafKeys_iff
    (orderly : IsOrderly table)
    (key : Text) :
    key ∈ leafKeys table ↔ ∃ value, leaf? (key.splitAt '.') table = some value := by
  rw [leafKeys, List.mem_map]
  constructor
  · rintro ⟨⟨other, value⟩, member, rfl⟩
    obtain ⟨path, found, rfl⟩ := (orderly.mem_leaves_iff _ _).1 member
    exact ⟨value, by rwa [orderly.splitAt_join found]⟩
  · rintro ⟨value, found⟩
    refine ⟨(key, value), (orderly.mem_leaves_iff _ _).2 ⟨_, found, ?_⟩, rfl⟩
    rw [Text.join_splitAt]

end IsOrderly

/-! ## Finding values -/

/-- Where no key has a dot, the first key of a path is looked up by itself. -/
theorem search_cons_of_dotless
    {entries : Table}
    (dotless : ∀ entry ∈ entries, '.' ∉ entry.1)
    {first : Text}
    (rest : List Text)
    {next : Value}
    (here : entries.lookup first = some next) :
    search (.table entries) (first :: rest) = search next rest := by
  have undotted (count : Nat) (positive : 0 < count) (within : count ≤ rest.length) :
      step (.table entries) (Text.join ['.'] ((first :: rest).take (count + 1))) = none := by
    rw [step_table, lookup_eq_none_iff_not_mem, List.mem_map]
    rintro ⟨entry, member, same⟩
    apply dotless entry member
    have more : rest.take count ≠ [] := by
      intro nothing
      have size := congrArg List.length nothing
      rw [List.length_take, List.length_nil] at size
      omega
    rw [same, List.take_succ_cons, Text.join_cons _ _ more]
    simp
  have nothingLonger
      {answer : Nat → Option Value}
      (silent : ∀ count, 0 < count → count ≤ rest.length → answer count = none) :
      ((List.range rest.length).map Nat.succ).reverse.findSome? answer = none := by
    rw [List.findSome?_eq_none_iff]
    intro count member
    rw [List.mem_reverse, List.mem_map] at member
    obtain ⟨before, small, rfl⟩ := member
    exact silent _ (Nat.succ_pos before) (List.mem_range.1 small)
  have single : (first :: rest).take (0 + 1) = [first] := rfl
  rw [search, List.length_cons, List.range_succ_eq_map, List.reverse_cons, List.findSome?_append,
    nothingLonger fun count positive within => by rw [undotted count positive within],
    Option.none_or, List.findSome?_singleton, single, Text.join_singleton, step_table, here,
    List.drop_zero]

/-- In a regular value a path is followed key by key. -/
theorem search_of_under?
    {value : Value}
    (regular : IsRegular value)
    {path : List Text}
    {inner : Value}
    (found : under? path value = some inner) :
    search value path = some inner := by
  induction path generalizing value with
  | nil =>
      rw [search]
      exact found
  | cons first rest induction =>
      cases value with
      | table entries =>
          obtain ⟨next, here, below⟩ := Option.bind_eq_some_iff.1 found
          have nextFound : under? [first] (.table entries) = some next := by
            rw [under?_singleton_table, here]
          rw [search_cons_of_dotless (regular [] entries rfl).2 rest here]
          exact induction (regular.of_under? nextFound) below
      | _ => exact absurd found (by simp [under?])

/-! ## Tables built from single values -/

section Building

variable
  {values : List (Text × Value)}
  (plain : ∀ given ∈ values, given.2.isTable = false)

include plain in
theorem mem_of_leaf?_nested
    {path : List Text}
    {value : Value}
    (found : leaf? path (nested values) = some value) :
    ∃ key, (key, value) ∈ values ∧ path = key.splitAt '.' := by
  obtain ⟨here, single⟩ := (leaf?_eq_some_iff _ _ _).1 found
  rcases exists_of_under?_nested (ne_nil_of_leaf? found) here with
    ⟨given, member, below, split, inside⟩ | ⟨isTable, -⟩
  · obtain rfl := eq_nil_of_under? (plain _ member) inside
    obtain rfl := Option.some.inj inside
    exact ⟨given.1, member, by rw [split, List.append_nil]⟩
  · rw [single] at isTable
    exact absurd isTable (by simp)

include plain in
theorem isRegular_nested :
    IsRegular (.table (nested values)) := by
  intro path entries found
  have distinct : (entries.map Prod.fst).Nodup := by
    apply nodup_of_under?_nested ?_ found
    intro given member below split inner inside
    obtain rfl := eq_nil_of_under? (plain _ member) inside
    have single := plain given member
    rw [Option.some.inj inside] at single
    simp [Value.isTable] at single
  refine ⟨distinct, fun entry member => ?_⟩
  have inside : under? (path ++ [entry.1]) (.table (nested values)) = some entry.2 := by
    rw [under?_append, found, Option.bind_some, under?_singleton_table]
    exact (lookup_eq_some_iff_mem distinct _ _).2 member
  have piece : ∃ given ∈ values, entry.1 ∈ given.1.splitAt '.' := by
    rcases exists_of_under?_nested (by simp) inside with
      ⟨given, givenMember, below, split, there⟩ | ⟨-, given, givenMember, rest, -, split⟩
    · obtain rfl := eq_nil_of_under? (plain _ givenMember) there
      rw [List.append_nil] at split
      exact ⟨given, givenMember, by simp [← split]⟩
    · exact ⟨given, givenMember, by simp [split]⟩
  obtain ⟨given, -, pieceMember⟩ := piece
  exact Text.not_mem_of_mem_splitAt pieceMember

end Building

/-! ## The values of one table -/

section OneDocument

variable
  {document : Table}

theorem find?_ofDocument
    (document : Table)
    (key : Text) :
    (Layers.ofDocument [] document).find? [] key =
      search (.table (lowerEntries document)) (key.splitAt '.') := by
  have noDefault : follow (key.splitAt '.') [] = none := by
    rw [follow_eq_under?, under?_table_nil (Text.splitAt_ne_nil '.' key)]
  have noOverride (key : Text) : override? [] key = none := rfl
  simp only [Layers.find?, Layers.ofDocument, noOverride, Option.isSome_none, List.any_eq_true,
    Bool.false_eq_true, and_false, exists_false, if_false, noDefault, ite_self]
  cases search (.table (lowerEntries document)) (key.splitAt '.') <;> rfl

theorem mem_keys_ofDocument
    (document : Table)
    (key : Text) :
    key ∈ (Layers.ofDocument [] document).keys ↔ key ∈ leafKeys (lowerEntries document) := by
  rw [Layers.keys, Text.distinct, List.mem_eraseDups, List.mem_append]
  simp [Layers.ofDocument, leafKeys, leaves]

theorem mem_values_ofDocument
    (orderly : IsOrderly (lowerEntries document))
    (key : Text)
    (value : Value) :
    (key, value) ∈ (Layers.ofDocument [] document).values [] ↔
      leaf? (key.splitAt '.') (lowerEntries document) = some value := by
  rw [Layers.mem_values_iff, mem_keys_ofDocument, find?_ofDocument, orderly.mem_leafKeys_iff]
  constructor
  · rintro ⟨⟨leaf, found⟩, searched⟩
    rw [search_of_under? orderly.regular ((leaf?_eq_some_iff _ _ _).1 found).1] at searched
    rw [found, searched]
  · intro found
    exact ⟨⟨value, found⟩,
      search_of_under? orderly.regular ((leaf?_eq_some_iff _ _ _).1 found).1⟩

theorem plain_of_mem_values_ofDocument
    (orderly : IsOrderly (lowerEntries document)) :
    ∀ given ∈ (Layers.ofDocument [] document).values [], given.2.isTable = false := by
  rintro ⟨key, value⟩ member
  exact ((leaf?_eq_some_iff _ _ _).1 ((mem_values_ofDocument orderly key value).1 member)).2

/-- What is gathered from an orderly document are its own values. -/
theorem leaf?_effective_ofDocument
    (orderly : IsOrderly (lowerEntries document))
    (path : List Text) :
    leaf? path ((Layers.ofDocument [] document).effective []) =
      leaf? path (lowerEntries document) := by
  apply Option.ext
  intro value
  constructor
  · intro found
    obtain ⟨key, given, rfl⟩ :=
      mem_of_leaf?_nested (plain_of_mem_values_ofDocument orderly) found
    exact (mem_values_ofDocument orderly key value).1 given
  · intro found
    have split := orderly.splitAt_join found
    rw [← split] at found
    rw [leaf?_eq_some_iff, ← split]
    refine ⟨?_, ((leaf?_eq_some_iff _ _ _).1 found).2⟩
    apply under?_nested_of_mem ((mem_values_ofDocument orderly _ _).2 found)
    · rintro ⟨other, otherValue⟩ given same
      have otherFound := (mem_values_ofDocument orderly _ _).1 given
      dsimp only at same
      rw [same, found] at otherFound
      exact (Option.some.inj otherFound).symm
    · rintro ⟨other, otherValue⟩ given differs
      have otherFound := (mem_values_ofDocument orderly _ _).1 given
      -- Two values have paths of which neither starts the other.
      have distinct : other.splitAt '.' ≠ (Text.join ['.'] path).splitAt '.' := by
        intro same
        apply differs
        rw [← Text.join_splitAt '.' other, same, Text.join_splitAt]
      exact ⟨fun above => distinct (eq_of_leaf?_of_start otherFound found above),
        fun below => distinct (eq_of_leaf?_of_start found otherFound below).symm⟩

theorem isOrderly_effective_ofDocument
    (orderly : IsOrderly (lowerEntries document)) :
    IsOrderly ((Layers.ofDocument [] document).effective []) := by
  have regular := isRegular_nested (plain_of_mem_values_ofDocument orderly)
  refine ⟨regular, fun entry member => ?_⟩
  have found : under? [entry.1] (.table ((Layers.ofDocument [] document).effective [])) =
      some entry.2 := by
    rw [under?_singleton_table]
    exact (lookup_eq_some_iff_mem regular.hasDistinctKeys.nodup _ _).2 member
  obtain ⟨⟨key, value⟩, given, rest, split⟩ := exists_splitAt_of_under?_nested found
  have leaf := (mem_values_ofDocument orderly key value).1 given
  rw [split] at leaf
  exact orderly.head_ne_nil ((leaf?_eq_some_iff _ _ _).1 leaf).1

end OneDocument

/-! ## One table over another -/

theorem leaf?_cons_of_lookup
    {table inner : Table}
    {key : Text}
    (here : table.lookup key = some (.table inner))
    (rest : List Text) :
    leaf? (key :: rest) table = leaf? rest inner := by
  rw [leaf?, leaf?, follow_eq_under?, follow_eq_under?, under?_cons_table, here, Option.bind_some]

theorem leaf?_congr_of_lookup
    {table other : Table}
    {key : Text}
    (same : table.lookup key = other.lookup key)
    (rest : List Text) :
    leaf? (key :: rest) table = leaf? (key :: rest) other := by
  rw [leaf?, leaf?, follow_eq_under?, follow_eq_under?, under?_cons_table, same,
    under?_cons_table]

section Merging

variable
  {entries table : Table}

/-- Under each key the merged table has what one of the tables has, or two tables merged.  A single
value does not take the place of a table. -/
theorem lookup_mergeEntries_cases
    (nodup : (entries.map Prod.fst).Nodup)
    (table : Table)
    (key : Text) :
    ((mergeEntries entries table).lookup key = table.lookup key ∧
      (entries.lookup key = none ∨
        ∃ value inner, entries.lookup key = some value ∧ value.isTable = false ∧
          table.lookup key = some (.table inner))) ∨
    ((mergeEntries entries table).lookup key = entries.lookup key ∧
      entries.lookup key ≠ none ∧ ∀ inner, table.lookup key ≠ some (.table inner)) ∨
    ∃ above below, entries.lookup key = some (.table above) ∧
      table.lookup key = some (.table below) ∧
      (mergeEntries entries table).lookup key = some (.table (mergeEntries above below)) := by
  rw [lookup_mergeEntries nodup]
  cases upper : entries.lookup key with
  | none => exact Or.inl ⟨rfl, Or.inl rfl⟩
  | some value =>
      dsimp only
      cases lower : table.lookup key with
      | none =>
          rw [mergeValue_none]
          exact Or.inr (Or.inl ⟨rfl, by simp, by simp⟩)
      | some existing =>
          cases existing with
          | table below =>
              cases value with
              | table above =>
                  rw [mergeValue_table_table]
                  exact Or.inr (Or.inr ⟨above, below, rfl, rfl, rfl⟩)
              | _ => exact Or.inl ⟨rfl, Or.inr ⟨_, below, rfl, rfl, rfl⟩⟩
          | _ =>
              rw [mergeValue_of_forall_isTable_eq_false]
              · exact Or.inr (Or.inl ⟨rfl, by simp, by simp⟩)
              · rintro old ⟨⟩
                rfl

/-- A value of the merged table comes from the upper table, or from the lower table where the upper
one has no value. -/
theorem leaf?_mergeEntries
    (upper : HasDistinctKeys (.table entries))
    {path : List Text}
    {value : Value}
    (found : leaf? path (mergeEntries entries table) = some value) :
    leaf? path entries = some value ∨
      leaf? path entries = none ∧ leaf? path table = some value := by
  induction path generalizing entries table with
  | nil => exact (ne_nil_of_leaf? found rfl).elim
  | cons key rest induction =>
      rcases lookup_mergeEntries_cases upper.nodup table key with
        ⟨same, absent | ⟨single, inner, above, plain, below⟩⟩ | ⟨same, -, -⟩ |
          ⟨above, below, hasUpper, hasLower, merged⟩
      · rw [leaf?_congr_of_lookup same] at found
        refine Or.inr ⟨?_, found⟩
        rw [leaf?, follow_eq_under?, under?_cons_table, absent]
        rfl
      · rw [leaf?_congr_of_lookup same] at found
        refine Or.inr ⟨?_, found⟩
        have more : rest ≠ [] := by
          rintro rfl
          rw [leaf?_cons_of_lookup below] at found
          exact ne_nil_of_leaf? found rfl
        rw [leaf?, follow_eq_under?, under?_cons_table, above, Option.bind_some,
          under?_of_isTable_eq_false plain more]
        rfl
      · rw [leaf?_congr_of_lookup same] at found
        exact Or.inl found
      · rw [leaf?_cons_of_lookup merged] at found
        rw [leaf?_cons_of_lookup hasUpper, leaf?_cons_of_lookup hasLower]
        exact induction (upper.of_mem (mem_of_lookup hasUpper)) found

/-- Where the upper table has a value or the lower one has anything, the merged one has something. -/
theorem under?_mergeEntries_ne_none
    (upper : HasDistinctKeys (.table entries))
    {path : List Text}
    (present : leaf? path entries ≠ none ∨ under? path (.table table) ≠ none) :
    under? path (.table (mergeEntries entries table)) ≠ none := by
  induction path generalizing entries table with
  | nil => simp
  | cons key rest induction =>
      rcases lookup_mergeEntries_cases upper.nodup table key with
        ⟨same, upperCases⟩ | ⟨same, hasUpper, noTable⟩ |
          ⟨above, below, hasUpper, hasLower, merged⟩
      · rw [under?_cons_table, same]
        rcases present with leaf | lower
        · obtain ⟨value, found⟩ := Option.ne_none_iff_exists'.1 leaf
          have there := ((leaf?_eq_some_iff _ _ _).1 found).1
          rw [under?_cons_table] at there
          rcases upperCases with absent | ⟨single, inner, above, plain, below⟩
          · rw [absent] at there
            exact absurd there (by simp)
          · rw [above, Option.bind_some] at there
            obtain rfl := eq_nil_of_under? plain there
            simp [below]
        · exact lower
      · rw [under?_cons_table, same]
        rcases present with leaf | lower
        · obtain ⟨value, found⟩ := Option.ne_none_iff_exists'.1 leaf
          have there := ((leaf?_eq_some_iff _ _ _).1 found).1
          rw [under?_cons_table] at there
          simp [there]
        · obtain ⟨value, found⟩ := Option.ne_none_iff_exists'.1 lower
          obtain ⟨next, here, inside⟩ := Option.bind_eq_some_iff.1 found
          have plain : next.isTable = false := by
            cases next with
            | table inner => exact (noTable inner here).elim
            | _ => rfl
          obtain rfl := eq_nil_of_under? plain inside
          obtain ⟨entry, upperFound⟩ := Option.ne_none_iff_exists'.1 hasUpper
          simp [upperFound]
      · rw [under?_cons_table, merged, Option.bind_some]
        apply induction (upper.of_mem (mem_of_lookup hasUpper))
        rw [leaf?_cons_of_lookup hasUpper, under?_cons_table, hasLower, Option.bind_some] at present
        exact present

theorem isRegular_mergeEntries
    (upper : IsRegular (.table entries))
    (lower : IsRegular (.table table)) :
    IsRegular (.table (mergeEntries entries table)) := by
  intro path inner found
  induction path generalizing entries table with
  | nil =>
      obtain rfl := Value.table.inj (Option.some.inj found)
      exact ⟨nodup_mergeEntries entries lower.hasDistinctKeys.nodup,
        forall_fst_mergeEntries (fun key => '.' ∉ key) (upper [] entries rfl).2
          (lower [] table rfl).2⟩
  | cons key rest induction =>
      rw [under?_cons_table] at found
      rcases lookup_mergeEntries_cases upper.hasDistinctKeys.nodup table key with
        ⟨same, -⟩ | ⟨same, -, -⟩ | ⟨above, below, hasUpper, hasLower, merged⟩
      · rw [same] at found
        exact lower (key :: rest) inner found
      · rw [same] at found
        exact upper (key :: rest) inner found
      · rw [merged, Option.bind_some] at found
        have aboveFound : under? [key] (.table entries) = some (.table above) := by
          rw [under?_singleton_table, hasUpper]
        have belowFound : under? [key] (.table table) = some (.table below) := by
          rw [under?_singleton_table, hasLower]
        exact induction (upper.of_under? aboveFound) (lower.of_under? belowFound) found

theorem IsOrderly.mergeEntries
    (upper : IsOrderly entries)
    (lower : IsOrderly table) :
    IsOrderly (Settings.mergeEntries entries table) :=
  ⟨isRegular_mergeEntries upper.regular lower.regular,
    forall_fst_mergeEntries (fun key => key ≠ []) upper.named lower.named⟩

end Merging

end UnoBindgen.Settings
