import Mathlib
import UnoBindgen.Proofs.Settings.Nesting

/-!
# Tables of sections

Settings stand in sections: tables of single values.  A table that has each section in that form,
and no other entry that a dotted key of a section could lead to, stays so when it is brought over
another one and when the environment and the defaults are added to it, and for each setting the
strongest of the tables decides by itself.

A value beside the sections may have any form.  It must not be reached by a key that starts with
the name of a section, and its own key must not be empty: the key of what is inside would lose its
first part.
-/

namespace UnoBindgen.Settings

open Toml

/-! ## Tables of sections -/

/-- The names of the sections that settings belong to. -/
def sectionNames : List Text := Text.words ["generate", "log"]

/-- Whether a table has nothing but single values, under distinct keys without dots. -/
structure IsFlat (entries : Table) : Prop where
  single : ∀ entry ∈ entries, entry.2.isTable = false
  dotless : ∀ entry ∈ entries, '.' ∉ entry.1
  nodup : (entries.map Prod.fst).Nodup

/-- Whether a value is a flat table. -/
def IsSection : Value → Prop
  | .table entries => IsFlat entries
  | _ => False

/-- Whether a path starts outside of the sections. -/
def IsElsewhere : List Text → Prop
  | [] => False
  | first :: _ => first ≠ [] ∧ first ∉ sectionNames

/-- Whether a table with keys in lower case has each section once, as a flat table, and nothing
else that a dotted key of a section could lead to. -/
structure IsSectioned (table : Table) : Prop where
  sections : ∀ entry ∈ table, entry.1 ∈ sectionNames → IsSection entry.2
  once : ((table.filter fun entry => sectionNames.contains entry.1).map Prod.fst).Nodup
  others : ∀ entry ∈ table, entry.1 ∉ sectionNames → IsElsewhere (entry.1.splitAt '.')

instance (entries : Table) : Decidable (IsFlat entries) :=
  decidable_of_iff
    ((∀ entry ∈ entries, entry.2.isTable = false) ∧ (∀ entry ∈ entries, '.' ∉ entry.1) ∧
      (entries.map Prod.fst).Nodup)
    ⟨fun ⟨single, dotless, nodup⟩ => ⟨single, dotless, nodup⟩,
      fun flat => ⟨flat.single, flat.dotless, flat.nodup⟩⟩

instance : DecidablePred IsSection
  | .table entries => inferInstanceAs (Decidable (IsFlat entries))
  | .text _ | .integer _ | .fraction _ | .infinity _ | .notANumber | .truth _ | .moment _
  | .array _ => inferInstanceAs (Decidable False)

instance : DecidablePred IsElsewhere
  | [] => inferInstanceAs (Decidable False)
  | first :: _ => inferInstanceAs (Decidable (first ≠ [] ∧ first ∉ sectionNames))

instance (table : Table) : Decidable (IsSectioned table) :=
  decidable_of_iff
    ((∀ entry ∈ table, sectionNames.contains entry.1 = true → IsSection entry.2) ∧
      ((table.filter fun entry => sectionNames.contains entry.1).map Prod.fst).Nodup ∧
      ∀ entry ∈ table, sectionNames.contains entry.1 = false → IsElsewhere (entry.1.splitAt '.'))
    ⟨fun ⟨sections, once, others⟩ =>
        ⟨fun entry member inside => sections entry member (List.contains_iff_mem.2 inside), once,
          fun entry member outside => others entry member (by simpa using outside)⟩,
      fun ⟨sections, once, others⟩ =>
        ⟨fun entry member inside => sections entry member (List.contains_iff_mem.1 inside), once,
          fun entry member outside => others entry member (by simpa using outside)⟩⟩

theorem isSection_iff (value : Value) :
    IsSection value ↔ ∃ entries, value = .table entries ∧ IsFlat entries := by
  cases value <;> simp [IsSection]

theorem ne_nil_of_mem_sectionNames
    {name : Text}
    (member : name ∈ sectionNames) :
    name ≠ [] := by
  rintro rfl
  exact absurd member (by decide)

theorem dot_not_mem_of_mem_sectionNames
    {name : Text}
    (member : name ∈ sectionNames) :
    '.' ∉ name := by
  have all : ∀ name ∈ sectionNames, '.' ∉ name := by decide
  exact all name member

theorem splitAt_keyBelow_of_mem
    {outer name : Text}
    (member : outer ∈ sectionNames)
    (dotless : '.' ∉ name) :
    (keyBelow outer name).splitAt '.' = [outer, name] := by
  rw [splitAt_keyBelow (ne_nil_of_mem_sectionNames member),
    Text.splitAt_of_not_mem (dot_not_mem_of_mem_sectionNames member),
    Text.splitAt_of_not_mem dotless, List.singleton_append]

theorem not_isElsewhere
    {outer : Text}
    (member : outer ∈ sectionNames)
    (rest : List Text) :
    ¬ IsElsewhere (outer :: rest) := by
  rintro ⟨-, outside⟩
  exact outside member

namespace IsSectioned

variable
  {table : Table}

theorem lookup_section
    (sectioned : IsSectioned table)
    {outer : Text}
    (member : outer ∈ sectionNames) :
    table.lookup outer = none ∨
      ∃ entries, table.lookup outer = some (.table entries) ∧ IsFlat entries := by
  cases found : table.lookup outer with
  | none => exact Or.inl rfl
  | some value =>
      obtain ⟨entries, rfl, flat⟩ :=
        (isSection_iff value).1 (sectioned.sections (outer, value) (mem_of_lookup found) member)
      exact Or.inr ⟨entries, rfl, flat⟩

/-- A section is listed once. -/
theorem eq_of_mem
    (sectioned : IsSectioned table)
    {outer : Text}
    {value other : Value}
    (member : (outer, value) ∈ table)
    (otherMember : (outer, other) ∈ table)
    (inside : outer ∈ sectionNames) :
    value = other := by
  have listed {value : Value} (member : (outer, value) ∈ table) :
      (outer, value) ∈ table.filter fun entry => sectionNames.contains entry.1 :=
    List.mem_filter.2 ⟨member, by simpa using inside⟩
  exact congrArg Prod.snd
    (List.inj_on_of_nodup_map sectioned.once (listed member) (listed otherMember) rfl)

/-- What is found in a section is a single value, and its name has no dot. -/
theorem of_under?
    (sectioned : IsSectioned table)
    {outer name : Text}
    (member : outer ∈ sectionNames)
    {value : Value}
    (found : under? [outer, name] (.table table) = some value) :
    value.isTable = false ∧ '.' ∉ name := by
  rcases sectioned.lookup_section member with absent | ⟨entries, present, flat⟩
  · rw [under?_cons_table, absent] at found
    exact absurd found (by simp)
  · rw [under?_cons_table, present, Option.bind_some, under?_singleton_table] at found
    have inside := mem_of_lookup found
    exact ⟨flat.single _ inside, flat.dotless _ inside⟩

/-- The dotted keys of a table of sections. -/
theorem path_of_mem_leafKeys
    (sectioned : IsSectioned table)
    {key : Text}
    (member : key ∈ leafKeys table) :
    (∃ outer ∈ sectionNames, ∃ name value,
      key = keyBelow outer name ∧ under? [outer, name] (.table table) = some value) ∨
      IsElsewhere (key.splitAt '.') := by
  rw [leafKeys, List.mem_map] at member
  obtain ⟨leaf, leafMember, rfl⟩ := member
  rw [mem_leaves_iff] at leafMember
  obtain ⟨entry, entryMember, inEntry⟩ := leafMember
  rw [keyBelow_nil] at inEntry
  by_cases inSection : entry.1 ∈ sectionNames
  · obtain ⟨entries, same, flat⟩ :=
      (isSection_iff entry.2).1 (sectioned.sections entry entryMember inSection)
    rw [same, leavesOfValue, mem_leaves_iff] at inEntry
    obtain ⟨inner, innerMember, inInner⟩ := inEntry
    rw [leavesOfValue_of_isTable_eq_false (flat.single inner innerMember),
      List.mem_singleton] at inInner
    refine Or.inl ⟨entry.1, inSection, inner.1, inner.2, by rw [inInner], ?_⟩
    -- The section is listed once, so that looking it up finds this entry.
    have present : table.lookup entry.1 = some (.table entries) := by
      rcases sectioned.lookup_section inSection with absent | ⟨others, present, -⟩
      · rw [lookup_eq_none_iff_not_mem] at absent
        exact (absent (List.mem_map_of_mem entryMember)).elim
      · rw [present, ← same, sectioned.eq_of_mem entryMember (mem_of_lookup present) inSection]
    rw [under?_cons_table, present, Option.bind_some, under?_singleton_table]
    exact (lookup_eq_some_iff_mem flat.nodup _ _).2 innerMember
  · have away := sectioned.others entry entryMember inSection
    obtain ⟨first, rest, split⟩ := List.exists_cons_of_ne_nil (Text.splitAt_ne_nil '.' entry.1)
    rw [split] at away
    have named : entry.1 ≠ [] := by
      intro empty
      rw [empty] at split
      exact away.1 (List.cons.inj split).1.symm
    obtain ⟨below, longer⟩ := exists_splitAt_of_mem_leavesOfValue named inEntry
    rw [longer, split, List.cons_append]
    exact Or.inr away

theorem mem_leafKeys
    (sectioned : IsSectioned table)
    {outer name : Text}
    (member : outer ∈ sectionNames)
    {value : Value}
    (found : under? [outer, name] (.table table) = some value) :
    keyBelow outer name ∈ leafKeys table := by
  have single := (sectioned.of_under? member found).1
  obtain ⟨inner, here, below⟩ := Option.bind_eq_some_iff.1 found
  rw [leafKeys, List.mem_map]
  refine ⟨(keyBelow outer name, value), ?_, rfl⟩
  rw [mem_leaves_iff]
  refine ⟨(outer, inner), mem_of_lookup here, ?_⟩
  cases inner with
  | table entries =>
      rw [under?_singleton_table] at below
      rw [keyBelow_nil, leavesOfValue, mem_leaves_iff]
      refine ⟨(name, value), mem_of_lookup below, ?_⟩
      rw [leavesOfValue_of_isTable_eq_false single, List.mem_singleton]
  | _ => exact absurd below (by simp [under?])

theorem search_section
    (sectioned : IsSectioned table)
    {outer name : Text}
    (member : outer ∈ sectionNames) :
    search (.table table) [outer, name] = under? [outer, name] (.table table) := by
  have undotted : table.lookup (Text.join ['.'] [outer, name]) = none := by
    rw [lookup_eq_none_iff_not_mem, List.mem_map]
    rintro ⟨entry, entryMember, dotted⟩
    have joined : entry.1 = outer ++ '.' :: name := by
      rw [dotted, Text.join_cons _ _ (List.cons_ne_nil name []), Text.join_singleton,
        List.append_assoc, List.singleton_append]
    have outside : entry.1 ∉ sectionNames := by
      intro inside
      apply dot_not_mem_of_mem_sectionNames inside
      rw [joined]
      simp
    have elsewhere := sectioned.others entry entryMember outside
    rw [joined, Text.splitAt_append,
      Text.splitAt_of_not_mem (dot_not_mem_of_mem_sectionNames member)] at elsewhere
    exact not_isElsewhere member _ elsewhere
  rw [search_pair undotted, under?_cons_table]
  rcases sectioned.lookup_section member with absent | ⟨entries, present, -⟩
  · rw [absent]
    rfl
  · rw [present, Option.bind_some, Option.bind_some, step_table, under?_singleton_table]

theorem isHidden_section
    (sectioned : IsSectioned table)
    {outer : Text}
    (member : outer ∈ sectionNames)
    (name : Text) :
    isHidden [outer, name] table = false := by
  rcases sectioned.lookup_section member with absent | ⟨entries, present, -⟩
  · simp only [isHidden, absent]
  · simp only [isHidden, present]

end IsSectioned

/-! ## Values in effect -/

section Effective

variable
  {layers : Layers}
  {environment : List (Text × Text)}
  (files : IsSectioned layers.files)
  (defaults : IsSectioned layers.defaults)
  (unhidden : ∀ outer ∈ sectionNames, override? environment outer = none)

include files in
/-- A value in a section comes from the environment, from the files or from the defaults. -/
theorem Layers.find?_section
    (unhidden : ∀ outer ∈ sectionNames, override? environment outer = none)
    {outer name : Text}
    (member : outer ∈ sectionNames)
    (dotless : '.' ∉ name) :
    layers.find? environment (keyBelow outer name) =
      ((override? environment (keyBelow outer name)).map Value.text).or
        ((under? [outer, name] (.table layers.files)).or
          (under? [outer, name] (.table layers.defaults))) := by
  have starts : properStarts [outer, name] = [outer] := rfl
  rw [Layers.find?, splitAt_keyBelow_of_mem member dotless]
  cases override? environment (keyBelow outer name) with
  | some content => rfl
  | none =>
      simp only [starts, List.any_cons, List.any_nil, unhidden outer member, Option.isSome_none,
        Bool.or_self, Bool.false_eq_true, if_false, files.search_section member,
        files.isHidden_section member, follow_eq_under?, Option.map_none, Option.none_or]
      cases under? [outer, name] (.table layers.files) <;> rfl

include files defaults in
theorem Layers.path_of_mem_keys
    {key : Text}
    (member : key ∈ layers.keys) :
    (∃ outer ∈ sectionNames, ∃ name, '.' ∉ name ∧ key = keyBelow outer name ∧
      (under? [outer, name] (.table layers.files)).or
        (under? [outer, name] (.table layers.defaults)) ≠ none) ∨
      IsElsewhere (key.splitAt '.') := by
  rw [Layers.keys, Text.distinct, List.mem_eraseDups, List.mem_append] at member
  rcases member with ofFiles | ofDefaults
  · rcases files.path_of_mem_leafKeys ofFiles with ⟨outer, inside, name, value, same, found⟩ | away
    · refine Or.inl ⟨outer, inside, name, (files.of_under? inside found).2, same, ?_⟩
      simp [found]
    · exact Or.inr away
  · rcases defaults.path_of_mem_leafKeys (List.mem_filter.1 ofDefaults).1 with
      ⟨outer, inside, name, value, same, found⟩ | away
    · refine Or.inl ⟨outer, inside, name, (defaults.of_under? inside found).2, same, ?_⟩
      simp [found]
    · exact Or.inr away

include files defaults in
theorem Layers.mem_keys
    {outer name : Text}
    (member : outer ∈ sectionNames)
    {value : Value}
    (found : (under? [outer, name] (.table layers.files)).or
      (under? [outer, name] (.table layers.defaults)) = some value) :
    '.' ∉ name ∧ keyBelow outer name ∈ layers.keys := by
  rw [Layers.keys, Text.distinct, List.mem_eraseDups, List.mem_append]
  rcases Option.or_eq_some_iff.1 found with inFiles | ⟨-, inDefaults⟩
  · exact ⟨(files.of_under? member inFiles).2, Or.inl (files.mem_leafKeys member inFiles)⟩
  · have dotless := (defaults.of_under? member inDefaults).2
    refine ⟨dotless, Or.inr (List.mem_filter.2 ⟨defaults.mem_leafKeys member inDefaults, ?_⟩)⟩
    have starts : properStarts [outer, name] = [outer] := rfl
    -- No file has a single value in the place of a section.
    have sectionAbsent : outer ∉ leafKeys layers.files := by
      intro leaf
      have split := Text.splitAt_of_not_mem (dot_not_mem_of_mem_sectionNames member)
      rcases files.path_of_mem_leafKeys leaf with
        ⟨other, inside, inner, innerValue, same, present⟩ | away
      · rw [same, splitAt_keyBelow_of_mem inside (files.of_under? inside present).2] at split
        exact absurd split (by simp)
      · rw [split] at away
        exact not_isElsewhere member _ away
    rw [splitAt_keyBelow_of_mem member dotless, starts]
    simpa using sectionAbsent

include files defaults in
/-- The keys that start with the name of a section are those of its values. -/
theorem Layers.of_splitAt_eq_cons
    {key : Text}
    (member : key ∈ layers.keys)
    {outer : Text}
    (inside : outer ∈ sectionNames)
    {rest : List Text}
    (split : key.splitAt '.' = outer :: rest) :
    ∃ name, '.' ∉ name ∧ rest = [name] ∧ key = keyBelow outer name ∧
      (under? [outer, name] (.table layers.files)).or
        (under? [outer, name] (.table layers.defaults)) ≠ none := by
  rcases Layers.path_of_mem_keys files defaults member with
    ⟨other, otherInside, name, dotless, same, found⟩ | away
  · rw [same, splitAt_keyBelow_of_mem otherInside dotless] at split
    obtain ⟨rfl, rfl⟩ := List.cons.inj split
    exact ⟨name, dotless, rfl, same, found⟩
  · rw [split] at away
    exact (not_isElsewhere inside rest away).elim

include files defaults in
/-- No other key leads to the place of a value in a section, above it or below it. -/
theorem Layers.of_comparable
    {key : Text}
    (member : key ∈ layers.keys)
    {outer name : Text}
    (inside : outer ∈ sectionNames)
    (related : key.splitAt '.' <+: [outer, name] ∨ [outer, name] <+: key.splitAt '.') :
    key = keyBelow outer name ∧
      (under? [outer, name] (.table layers.files)).or
        (under? [outer, name] (.table layers.defaults)) ≠ none := by
  obtain ⟨first, rest, split⟩ := List.exists_cons_of_ne_nil (Text.splitAt_ne_nil '.' key)
  have same : first = outer := by
    rw [split, List.cons_prefix_cons, List.cons_prefix_cons] at related
    exact related.elim And.left fun below => below.1.symm
  subst same
  obtain ⟨other, -, rfl, equal, found⟩ :=
    Layers.of_splitAt_eq_cons files defaults member inside split
  have last : other = name := by
    rw [split] at related
    simpa [eq_comm] using related
  exact last ▸ ⟨equal, found⟩

include files defaults unhidden in
/-- A setting has the value of the environment, of the files or of the defaults, whichever comes
first; the environment adds no settings of its own. -/
theorem Layers.under?_effective
    {outer : Text}
    (inside : outer ∈ sectionNames)
    (name : Text) :
    under? [outer, name] (.table (layers.effective environment)) =
      ((under? [outer, name] (.table layers.files)).or
        (under? [outer, name] (.table layers.defaults))).map fun value =>
          ((override? environment (keyBelow outer name)).map Value.text).getD value := by
  rw [Layers.effective_eq_nested]
  cases found : (under? [outer, name] (.table layers.files)).or
      (under? [outer, name] (.table layers.defaults)) with
  | some value =>
      obtain ⟨dotless, member⟩ := Layers.mem_keys files defaults inside found
      have split := splitAt_keyBelow_of_mem inside dotless
      have effective : layers.find? environment (keyBelow outer name) =
          some (((override? environment (keyBelow outer name)).map Value.text).getD value) := by
        rw [Layers.find?_section files unhidden inside dotless, found]
        cases override? environment (keyBelow outer name) <;> rfl
      rw [Option.map_some, ← split]
      apply under?_nested_of_mem ((Layers.mem_values_iff _ _).2 ⟨member, effective⟩)
      · rintro ⟨other, otherValue⟩ given same
        obtain ⟨-, otherFound⟩ := (Layers.mem_values_iff _ _).1 given
        dsimp only at same
        rw [same, effective] at otherFound
        exact (Option.some.inj otherFound).symm
      · rintro ⟨other, otherValue⟩ given differs
        obtain ⟨otherMember, -⟩ := (Layers.mem_values_iff _ _).1 given
        rw [split]
        constructor
        · intro above
          exact differs (Layers.of_comparable files defaults otherMember inside (Or.inl above)).1
        · intro below
          exact differs (Layers.of_comparable files defaults otherMember inside (Or.inr below)).1
  | none =>
      by_contra present
      obtain ⟨value, there⟩ := Option.ne_none_iff_exists'.1 present
      have comparable :
          ∃ key ∈ layers.keys,
            key.splitAt '.' <+: [outer, name] ∨ [outer, name] <+: key.splitAt '.' := by
        rcases exists_of_under?_nested (List.cons_ne_nil outer [name]) there with
          ⟨⟨key, given⟩, member, below, split, -⟩ | ⟨-, ⟨key, given⟩, member, rest, -, split⟩
        · exact ⟨key, ((Layers.mem_values_iff _ _).1 member).1, Or.inl ⟨below, split.symm⟩⟩
        · exact ⟨key, ((Layers.mem_values_iff _ _).1 member).1, Or.inr ⟨rest, split.symm⟩⟩
      obtain ⟨key, member, related⟩ := comparable
      exact (Layers.of_comparable files defaults member inside related).2 found

theorem Layers.under?_of_mem_effective
    {entry : Text × Value}
    (member : entry ∈ layers.effective environment) :
    under? [entry.1] (.table (layers.effective environment)) = some entry.2 := by
  rw [under?_singleton_table]
  exact (lookup_eq_some_iff_mem (nodup_nested _) entry.1 entry.2).2 member

include files defaults in
/-- No key is the name of a section or a start of it. -/
theorem Layers.singleton_ne_splitAt_append
    {outer : Text}
    (inside : outer ∈ sectionNames)
    {key : Text}
    (member : key ∈ layers.keys)
    (below : List Text) :
    [outer] ≠ key.splitAt '.' ++ below := by
  intro split
  obtain ⟨start, rest, pieces⟩ := List.exists_cons_of_ne_nil (Text.splitAt_ne_nil '.' key)
  rw [pieces, List.cons_append] at split
  obtain ⟨rfl, nothing⟩ := List.cons.inj split
  obtain ⟨name, -, rfl, -, -⟩ :=
    Layers.of_splitAt_eq_cons files defaults member inside pieces
  exact absurd nothing (by simp)

include files defaults unhidden in
/-- What the effective settings hold in a section was a single value under a plain key before. -/
theorem Layers.isTable_eq_false_of_under?_effective
    {outer name : Text}
    (inside : outer ∈ sectionNames)
    {value : Value}
    (found : under? [outer, name] (.table (layers.effective environment)) = some value) :
    value.isTable = false ∧ '.' ∉ name := by
  rw [Layers.under?_effective files defaults unhidden inside] at found
  obtain ⟨given, listed, chosen⟩ := Option.map_eq_some_iff.1 found
  refine ⟨?_, (Layers.mem_keys files defaults inside listed).1⟩
  rw [← chosen]
  cases override? environment (keyBelow outer name) with
  | some content => rfl
  | none =>
      rcases Option.or_eq_some_iff.1 listed with inFiles | ⟨-, inDefaults⟩
      · exact (files.of_under? inside inFiles).1
      · exact (defaults.of_under? inside inDefaults).1

include files defaults unhidden in
theorem Layers.isSection_of_mem_effective
    {entry : Text × Value}
    (member : entry ∈ layers.effective environment)
    (inside : entry.1 ∈ sectionNames) :
    IsSection entry.2 := by
  have found := Layers.under?_of_mem_effective member
  rcases exists_of_under?_nested (List.cons_ne_nil entry.1 []) found with
    ⟨⟨key, given⟩, givenMember, below, split, -⟩ | ⟨isTable, -⟩
  · have keyMember := ((Layers.mem_values_iff _ _).1 givenMember).1
    exact (Layers.singleton_ne_splitAt_append files defaults inside keyMember below split).elim
  · obtain ⟨entries, same⟩ : ∃ entries, entry.2 = .table entries := by
      cases shape : entry.2 with
      | table entries => exact ⟨entries, rfl⟩
      | _ => simp [shape, Value.isTable] at isTable
    rw [same] at found
    have distinct : (entries.map Prod.fst).Nodup := by
      apply nodup_of_under?_nested ?_ found
      rintro ⟨key, given⟩ givenMember below split
      have keyMember := ((Layers.mem_values_iff _ _).1 givenMember).1
      exact (Layers.singleton_ne_splitAt_append files defaults inside keyMember below split).elim
    have plain {inner : Text × Value} (innerMember : inner ∈ entries) :
        inner.2.isTable = false ∧ '.' ∉ inner.1 := by
      apply Layers.isTable_eq_false_of_under?_effective files defaults unhidden inside
      rw [← List.singleton_append, under?_append, found, Option.bind_some,
        under?_singleton_table]
      exact (lookup_eq_some_iff_mem distinct inner.1 inner.2).2 innerMember
    rw [same]
    exact ⟨fun inner innerMember => (plain innerMember).1,
      fun inner innerMember => (plain innerMember).2, distinct⟩

include files defaults in
theorem Layers.isElsewhere_of_mem_effective
    {entry : Text × Value}
    (member : entry ∈ layers.effective environment)
    (outside : entry.1 ∉ sectionNames) :
    IsElsewhere (entry.1.splitAt '.') := by
  obtain ⟨⟨key, given⟩, givenMember, rest, split⟩ :=
    exists_splitAt_of_under?_nested (Layers.under?_of_mem_effective member)
  have keyMember := ((Layers.mem_values_iff _ _).1 givenMember).1
  have piece : entry.1 ∈ key.splitAt '.' := by
    rw [split]
    exact List.mem_cons_self
  have dotless : '.' ∉ entry.1 := Text.not_mem_of_mem_splitAt piece
  rw [Text.splitAt_of_not_mem dotless]
  rcases Layers.path_of_mem_keys files defaults keyMember with
    ⟨outer, inside, name, nameDotless, same, -⟩ | away
  · rw [same, splitAt_keyBelow_of_mem inside nameDotless] at split
    exact (outside ((List.cons.inj split).1 ▸ inside)).elim
  · rw [split] at away
    exact away

include files defaults unhidden in
theorem Layers.isSectioned_effective :
    IsSectioned (layers.effective environment) where
  sections _ member inside :=
    Layers.isSection_of_mem_effective files defaults unhidden member inside
  once := (nodup_nested _).sublist (List.filter_sublist.map _)
  others _ member outside := Layers.isElsewhere_of_mem_effective files defaults member outside

end Effective

/-! ## One file over the others -/

theorem IsFlat.lookup_mergeEntries
    {entries table : Table}
    (upper : IsFlat entries)
    (lower : IsFlat table)
    (name : Text) :
    (mergeEntries entries table).lookup name =
      (entries.lookup name).or (table.lookup name) := by
  rw [Settings.lookup_mergeEntries upper.nodup]
  cases entries.lookup name with
  | none => rfl
  | some value =>
      dsimp only
      rw [mergeValue_of_forall_isTable_eq_false]
      · rfl
      · intro old found
        exact lower.single _ (mem_of_lookup found)

theorem IsFlat.mergeEntries
    {entries table : Table}
    (upper : IsFlat entries)
    (lower : IsFlat table) :
    IsFlat (Settings.mergeEntries entries table) := by
  have nodup := nodup_mergeEntries entries lower.nodup
  have origin {entry : Text × Value} (member : entry ∈ Settings.mergeEntries entries table) :
      entry ∈ entries ∨ entry ∈ table := by
    have found := (lookup_eq_some_iff_mem nodup entry.1 entry.2).2 member
    rw [upper.lookup_mergeEntries lower, Option.or_eq_some_iff] at found
    exact found.imp mem_of_lookup fun old => mem_of_lookup old.2
  refine ⟨fun entry member => ?_, fun entry member => ?_, nodup⟩
  · exact (origin member).elim (upper.single entry) (lower.single entry)
  · exact (origin member).elim (upper.dotless entry) (lower.dotless entry)

section Merging

variable
  {entries table : Table}
  (upper : IsSectioned entries)
  (upperNodup : (entries.map Prod.fst).Nodup)
  (lower : IsSectioned table)

include upper upperNodup lower in
/-- In a section the upper table decides, name by name, and what it does not have stays. -/
theorem IsSectioned.under?_mergeEntries
    {outer : Text}
    (inside : outer ∈ sectionNames)
    (name : Text) :
    under? [outer, name] (.table (mergeEntries entries table)) =
      (under? [outer, name] (.table entries)).or (under? [outer, name] (.table table)) := by
  simp only [under?_cons_table, lookup_mergeEntries upperNodup]
  rcases upper.lookup_section inside with noUpper | ⟨above, hasUpper, aboveFlat⟩
  · simp [noUpper]
  · rcases lower.lookup_section inside with noLower | ⟨below, hasLower, belowFlat⟩
    · simp [hasUpper, noLower, mergeValue_none]
    · simp only [hasUpper, hasLower, mergeValue_table_table, Option.bind_some, under?_singleton_table,
        aboveFlat.lookup_mergeEntries belowFlat]

include upper upperNodup lower in
theorem IsSectioned.mergeEntries
    (lowerNodup : (table.map Prod.fst).Nodup) :
    IsSectioned (Settings.mergeEntries entries table) := by
  have nodup := nodup_mergeEntries entries lowerNodup
  refine ⟨?_, ?_, ?_⟩
  · intro entry member inside
    have here := (lookup_eq_some_iff_mem nodup entry.1 entry.2).2 member
    rw [lookup_mergeEntries upperNodup] at here
    rcases upper.lookup_section inside with noUpper | ⟨above, hasUpper, aboveFlat⟩
    · rw [noUpper] at here
      exact lower.sections entry (mem_of_lookup here) inside
    · rcases lower.lookup_section inside with noLower | ⟨below, hasLower, belowFlat⟩
      · rw [hasUpper, noLower] at here
        rw [← Option.some.inj here]
        exact aboveFlat
      · rw [hasUpper, hasLower] at here
        rw [← Option.some.inj here, mergeValue_table_table]
        exact aboveFlat.mergeEntries belowFlat
  · exact nodup.sublist (List.filter_sublist.map _)
  · exact forall_fst_mergeEntries
      (fun key => key ∉ sectionNames → IsElsewhere (key.splitAt '.')) upper.others lower.others

end Merging

/-! ## The tables of settings -/

theorem isSectioned_nil :
    IsSectioned [] := by
  decide

theorem sectionName_mem (setting : Setting) :
    setting.sectionName ∈ sectionNames := by
  cases setting <;> decide

theorem dot_not_mem_name (setting : Setting) :
    '.' ∉ setting.name := by
  cases setting <;> decide

theorem isSectioned_document (settings : Settings) :
    IsSectioned settings.document := by
  have shape {entry : Text × Value} (member : entry ∈ settings.document) :
      entry.1 ∈ sectionNames ∧ entry.2 = .table (settings.sectionEntries entry.1) := by
    obtain ⟨name, inside, rfl⟩ := List.mem_map.1 member
    exact ⟨inside, rfl⟩
  refine ⟨?_, ?_, ?_⟩
  · intro entry member _
    rw [(shape member).2]
    refine ⟨?_, ?_, ?_⟩
    · intro inner innerMember
      obtain ⟨setting, -, rfl⟩ := List.mem_map.1 innerMember
      cases setting <;> rfl
    · intro inner innerMember
      obtain ⟨setting, -, rfl⟩ := List.mem_map.1 innerMember
      exact dot_not_mem_name setting
    · rw [sectionEntries, List.map_map]
      have names : (Setting.all.map Setting.name).Nodup := by decide
      exact names.sublist (List.filter_sublist.map _)
  · have names : settings.document.map Prod.fst = sectionNames := rfl
    have nodup : sectionNames.Nodup := by decide
    exact (names ▸ nodup).sublist (List.filter_sublist.map _)
  · intro entry member outside
    exact (outside (shape member).1).elim

theorem under?_document
    (settings : Settings)
    (setting : Setting) :
    under? [setting.sectionName, setting.name] (.table settings.document) =
      some (settings.value setting) := by
  cases setting <;> rfl

end UnoBindgen.Settings
