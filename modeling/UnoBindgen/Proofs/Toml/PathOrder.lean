import UnoBindgen.Proofs.Text.ByteOrder
import UnoBindgen.Proofs.Toml.Sameness

/-!
# The order of paths

When the keys of all tables in a value are sorted, the paths to its leaves come in the order in which
paths are compared key by key.  An entry that is put into a table gets its own place in the sorted
table and moves no other entry.
-/

namespace UnoBindgen.Toml

/-! ## Comparing paths -/

/-- Whether a path comes before another one when paths are compared key by key. -/
inductive ComesBefore : List Text → List Text → Prop where
  | here {key later : Text} (before : key.bytes < later.bytes) (rest others : List Text) :
    ComesBefore (key :: rest) (later :: others)
  | inside (key : Text) {rest others : List Text} (before : ComesBefore rest others) :
    ComesBefore (key :: rest) (key :: others)

namespace ComesBefore

theorem asymm
    {path other : List Text}
    (before : ComesBefore path other) :
    ¬ ComesBefore other path := by
  induction before with
  | here smaller rest others =>
      intro backward
      cases backward with
      | here greater => exact List.lt_asymm smaller greater
      | inside => exact List.lt_irrefl _ smaller
  | inside key before induction =>
      intro backward
      cases backward with
      | here greater => exact List.lt_irrefl _ greater
      | inside key backward => exact induction backward

/-- The first keys that differ decide. -/
theorem exists_parting
    {path other : List Text}
    (before : ComesBefore path other) :
    ∃ outer key later rest others,
      path = outer ++ key :: rest ∧ other = outer ++ later :: others ∧ key.bytes < later.bytes := by
  induction before with
  | here before rest others => exact ⟨[], _, _, rest, others, rfl, rfl, before⟩
  | inside first before induction =>
      obtain ⟨outer, key, later, rest, others, rfl, rfl, smaller⟩ := induction
      exact ⟨first :: outer, key, later, rest, others, rfl, rfl, smaller⟩

theorem of_parting
    (outer : List Text)
    {key later : Text}
    (before : key.bytes < later.bytes)
    (rest others : List Text) :
    ComesBefore (outer ++ key :: rest) (outer ++ later :: others) := by
  induction outer with
  | nil => exact here before rest others
  | cons first outer induction => exact inside first induction

/-- The order of paths, by looking at their keys one after the other. -/
def check : List Text → List Text → Bool
  | key :: rest, later :: others =>
    decide (key.bytes < later.bytes) || (key == later && check rest others)
  | _, _ => false

theorem check_iff (path other : List Text) :
    check path other = true ↔ ComesBefore path other := by
  constructor
  · intro checked
    induction path generalizing other with
    | nil => simp [check] at checked
    | cons key rest induction =>
        cases other with
        | nil => simp [check] at checked
        | cons later others =>
            rw [check, Bool.or_eq_true, Bool.and_eq_true, decide_eq_true_iff, beq_iff_eq]
              at checked
            rcases checked with before | ⟨rfl, inside⟩
            · exact .here before rest others
            · exact .inside key (induction others inside)
  · intro before
    induction before with
    | here smaller rest others => simp [check, smaller]
    | inside key before induction => simp [check, induction]

instance (path other : List Text) : Decidable (ComesBefore path other) :=
  decidable_of_iff (check path other = true) (check_iff path other)

end ComesBefore

/-! ## The leaves of a table by their paths -/

mutual

/-- The values in a value that are no tables, by their paths. -/
def pathsOfValue : Value → List (List Text × Value)
  | .table entries => pathsOfEntries entries
  | value => [([], value)]

/-- The values in a table that are no tables, by their paths. -/
def pathsOfEntries : List (Text × Value) → List (List Text × Value)
  | [] => []
  | (key, value) :: rest =>
    (pathsOfValue value).map (fun leaf => (key :: leaf.1, leaf.2)) ++ pathsOfEntries rest

end

theorem pathsOfValue_of_isTable_eq_false
    {value : Value}
    (plain : value.isTable = false) :
    pathsOfValue value = [([], value)] := by
  cases value with
  | table entries => simp [Value.isTable] at plain
  | _ => rfl

theorem pathsOfEntries_eq_flatMap (entries : Table) :
    pathsOfEntries entries =
      entries.flatMap fun entry =>
        (pathsOfValue entry.2).map fun leaf => (entry.1 :: leaf.1, leaf.2) := by
  induction entries with
  | nil => rfl
  | cons entry rest induction =>
      obtain ⟨key, value⟩ := entry
      rw [pathsOfEntries, induction, List.flatMap_cons]

theorem mem_pathsOfValue_iff
    {value : Value}
    (distinct : HasDistinctKeys value)
    (path : List Text)
    (leaf : Value) :
    (path, leaf) ∈ pathsOfValue value ↔ under? path value = some leaf ∧ leaf.isTable = false := by
  induction value using Value.tableInduction generalizing path with
  | plain value plain =>
      rw [pathsOfValue_of_isTable_eq_false plain, List.mem_singleton, Prod.mk.injEq]
      constructor
      · rintro ⟨rfl, rfl⟩
        exact ⟨rfl, plain⟩
      · rintro ⟨found, -⟩
        obtain rfl := eq_nil_of_under? plain found
        exact ⟨rfl, (Option.some.inj found).symm⟩
  | table entries induction =>
      rw [pathsOfValue, pathsOfEntries_eq_flatMap, List.mem_flatMap]
      constructor
      · rintro ⟨entry, member, inEntry⟩
        obtain ⟨⟨rest, inner⟩, inside, same⟩ := List.mem_map.1 inEntry
        obtain ⟨rfl, rfl⟩ := Prod.mk.inj same
        obtain ⟨found, plain⟩ := (induction entry member (distinct.of_mem member) rest).1 inside
        exact ⟨(distinct.under?_table_eq_some_iff plain _).2 ⟨entry, member, rest, rfl, found⟩,
          plain⟩
      · rintro ⟨found, plain⟩
        obtain ⟨entry, member, rest, rfl, below⟩ :=
          (distinct.under?_table_eq_some_iff plain path).1 found
        refine ⟨entry, member, List.mem_map.2 ⟨(rest, leaf), ?_, rfl⟩⟩
        exact (induction entry member (distinct.of_mem member) rest).2 ⟨below, plain⟩

/-! ## Sorted leaves -/

theorem pairwise_insertSorted
    {entries : Table}
    (sorted : entries.Pairwise fun earlier later => Text.notAfter earlier.1 later.1 = true)
    (key : Text)
    (value : Value) :
    (insertSorted key value entries).Pairwise fun earlier later =>
      Text.notAfter earlier.1 later.1 = true := by
  induction entries with
  | nil => simp [insertSorted]
  | cons entry rest induction =>
      obtain ⟨other, existing⟩ := entry
      rw [List.pairwise_cons] at sorted
      rw [insertSorted]
      split
      · rename_i before
        refine List.pairwise_cons.2 ⟨?_, List.pairwise_cons.2 sorted⟩
        rw [List.forall_mem_cons]
        exact ⟨before, fun later member => Text.notAfter_trans before (sorted.1 later member)⟩
      · rename_i behind
        refine List.pairwise_cons.2 ⟨fun later member => ?_, induction sorted.2⟩
        rcases (mem_insertSorted_iff _ _ _ _).1 member with rfl | old
        · exact (Text.notAfter_total key other).resolve_left behind
        · exact sorted.1 later old

/-- The keys of a sorted table increase. -/
theorem pairwise_sortEntries
    {entries : Table}
    (nodup : (entries.map Prod.fst).Nodup) :
    (sortEntries entries).Pairwise fun earlier later => earlier.1.bytes < later.1.bytes := by
  have sorted : (sortEntries entries).Pairwise fun earlier later =>
      Text.notAfter earlier.1 later.1 = true := by
    clear nodup
    induction entries with
    | nil => exact List.Pairwise.nil
    | cons entry rest induction => exact pairwise_insertSorted induction entry.1 entry.2.sortKeys
  have distinct : (sortEntries entries).Pairwise fun earlier later => earlier.1 ≠ later.1 :=
    List.pairwise_map.1 ((nodup_sortEntries_iff entries).2 nodup)
  exact (sorted.and distinct).imp fun ⟨before, differs⟩ => Text.bytes_lt_of_notAfter before differs

theorem pairwise_pathsOfEntries
    {entries : Table}
    (increasing : entries.Pairwise fun earlier later => earlier.1.bytes < later.1.bytes)
    (inside : ∀ entry ∈ entries,
      (pathsOfValue entry.2).Pairwise fun earlier later => ComesBefore earlier.1 later.1) :
    (pathsOfEntries entries).Pairwise fun earlier later => ComesBefore earlier.1 later.1 := by
  rw [pathsOfEntries_eq_flatMap, List.pairwise_flatMap]
  constructor
  · intro entry member
    rw [List.pairwise_map]
    exact (inside entry member).imp fun before => .inside entry.1 before
  · refine increasing.imp fun before => ?_
    rintro leaf leafMember later laterMember
    obtain ⟨⟨rest, value⟩, -, rfl⟩ := List.mem_map.1 leafMember
    obtain ⟨⟨others, otherValue⟩, -, rfl⟩ := List.mem_map.1 laterMember
    exact .here before rest others

/-- The leaves of a sorted value come in the order of their paths. -/
theorem pairwise_pathsOfValue_sortKeys
    {value : Value}
    (distinct : HasDistinctKeys value) :
    (pathsOfValue value.sortKeys).Pairwise fun earlier later =>
      ComesBefore earlier.1 later.1 := by
  induction value using Value.tableInduction with
  | plain value plain =>
      rw [pathsOfValue_of_isTable_eq_false (by rw [isTable_sortKeys, plain])]
      exact List.pairwise_singleton _ _
  | table entries induction =>
      rw [Value.sortKeys, pathsOfValue]
      apply pairwise_pathsOfEntries (pairwise_sortEntries distinct.nodup)
      intro entry member
      obtain ⟨original, originalMember, rfl⟩ := (mem_sortEntries_iff _ _).1 member
      exact induction original originalMember (distinct.of_mem originalMember)

theorem hasDistinctKeys_sortKeys
    {value : Value}
    (distinct : HasDistinctKeys value) :
    HasDistinctKeys value.sortKeys := by
  intro path entries found
  rw [under?_sortKeys distinct] at found
  obtain ⟨inner, there, sorted⟩ := Option.map_eq_some_iff.1 found
  cases inner with
  | table original =>
      rw [Value.sortKeys, Value.table.injEq] at sorted
      rw [← sorted, nodup_sortEntries_iff]
      exact distinct path original there
  | _ => simp [Value.sortKeys] at sorted

theorem exists_put_perm
    (entries : Table)
    (key : Text)
    (value : Value) :
    ∃ others,
      (Table.put key value entries).Perm ((key, value) :: others) ∧
      entries.Perm (((entries.lookup key).map fun old => (key, old)).toList ++ others) := by
  induction entries with
  | nil => exact ⟨[], List.Perm.refl _, List.Perm.refl _⟩
  | cons entry rest induction =>
      obtain ⟨first, existing⟩ := entry
      rw [Table.put, lookup_cons_eq_ite]
      by_cases same : first = key
      · subst same
        refine ⟨rest, ?_, ?_⟩
        · rw [if_pos rfl]
        · rw [if_pos rfl]
          exact List.Perm.refl _
      · obtain ⟨others, putPerm, perm⟩ := induction
        refine ⟨(first, existing) :: others, ?_, ?_⟩
        · rw [if_neg same]
          exact (putPerm.cons _).trans (List.Perm.swap _ _ _)
        · rw [if_neg (Ne.symm same)]
          exact (perm.cons _).trans List.perm_middle.symm

section Put

variable
  {entries : Table}
  {key : Text}
  {value : Value}
  {before after : Table}
  (split : sortEntries (Table.put key value entries) = before ++ (key, value.sortKeys) :: after)

include split

/-- Around the entry that was put stand the other entries. -/
theorem sortEntries_perm_around_put :
    (sortEntries entries).Perm
      (before ++ ((entries.lookup key).map fun old => (key, old.sortKeys)).toList ++ after) := by
  obtain ⟨others, putPerm, perm⟩ := exists_put_perm entries key value
  have listed := (sortEntries_perm (Table.put key value entries)).trans
    (putPerm.map fun entry => (entry.1, entry.2.sortKeys))
  rw [split, List.map_cons] at listed
  have remaining := (List.perm_middle.symm.trans listed).cons_inv
  have mapped := perm.map fun entry => (entry.1, entry.2.sortKeys)
  have optional : (((entries.lookup key).map fun old => (key, old)).toList.map
      fun entry => (entry.1, entry.2.sortKeys)) =
        ((entries.lookup key).map fun old => (key, old.sortKeys)).toList := by
    cases entries.lookup key <;> rfl
  rw [List.map_append, optional] at mapped
  refine ((sortEntries_perm entries).trans mapped).trans ?_
  refine (List.Perm.append_left _ remaining.symm).trans ?_
  rw [← List.append_assoc]
  exact List.perm_append_comm.append_right after

/-- With the earlier value in its place, or without it, the entries still come in order. -/
theorem pairwise_around_put
    (nodup : (entries.map Prod.fst).Nodup)
    (earlier : Option Value) :
    (before ++ (earlier.map fun old => (key, old.sortKeys)).toList ++ after).Pairwise
      fun first second => first.1.bytes < second.1.bytes := by
  have increasing := pairwise_sortEntries (nodup_put key value nodup)
  rw [split] at increasing
  cases earlier with
  | none =>
      refine increasing.sublist ?_
      simp
  | some old =>
      have keys : ((before ++ (key, value.sortKeys) :: after).map Prod.fst).Pairwise
          fun first second => first.bytes < second.bytes := List.pairwise_map.2 increasing
      have again : ((before ++ [(key, old.sortKeys)] ++ after).map Prod.fst).Pairwise
          fun first second => first.bytes < second.bytes := by
        simpa using keys
      have inOrder := List.pairwise_map.1 again
      exact inOrder

end Put

/-- An entry that is put into a table stands in the sorted table where its key stood before or would
have stood. -/
theorem exists_sortEntries_put
    {entries : Table}
    (nodup : (entries.map Prod.fst).Nodup)
    (key : Text)
    (value : Value) :
    ∃ before after,
      sortEntries (Table.put key value entries) = before ++ (key, value.sortKeys) :: after ∧
      sortEntries entries =
        before ++ ((entries.lookup key).map fun old => (key, old.sortKeys)).toList ++ after ∧
      ∀ entry ∈ after, key.bytes < entry.1.bytes := by
  have increasing := pairwise_sortEntries (nodup_put key value nodup)
  obtain ⟨others, putPerm, -⟩ := exists_put_perm entries key value
  have listed := (sortEntries_perm (Table.put key value entries)).trans
    (putPerm.map fun entry => (entry.1, entry.2.sortKeys))
  rw [List.map_cons] at listed
  obtain ⟨before, after, split⟩ := List.append_of_mem (listed.mem_iff.2 List.mem_cons_self)
  rw [split] at increasing
  refine ⟨before, after, split, ?_, (List.pairwise_cons.1 (List.pairwise_append.1 increasing).2.1).1⟩
  refine (sortEntries_perm_around_put split).eq_of_pairwise
    (fun first second _ _ forward backward => ?_) (pairwise_sortEntries nodup)
    (pairwise_around_put split nodup (entries.lookup key))
  exact (List.lt_asymm forward backward).elim

end UnoBindgen.Toml
