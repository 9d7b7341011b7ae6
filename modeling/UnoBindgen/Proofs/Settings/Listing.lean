import UnoBindgen.Proofs.Settings.Provenance
import UnoBindgen.Proofs.Toml.PathOrder

/-!
# The order in which values are listed

The values in effect are listed table by table, and the keys of each table are sorted.  So their
paths come in the order in which paths are compared key by key, and there is one entry for each path
to a value.

Dotted keys are compared character by character, and that is another order: a section stands behind
an entry whose key continues that of the section with a character before the dot, although the
values inside the section are listed first.  The main theorem states that the dotted keys increase
exactly when no section has such an entry beside it.
-/

namespace UnoBindgen

namespace Text

/-! ## Where texts part -/

theorem bytes_append (left right : Text) :
    (left ++ right).bytes = left.bytes ++ right.bytes :=
  List.flatMap_append

theorem bytes_lt_of_char_lt
    (shared : Text)
    {first second : Char}
    (smaller : first.toNat < second.toNat)
    (rest others : Text) :
    (shared ++ first :: rest).bytes < (shared ++ second :: others).bytes := by
  rw [bytes_append, bytes_append, bytes_cons, bytes_cons]
  exact List.append_left_lt (utf8EncodeChar_append_lt smaller (bytes rest) (bytes others))

theorem bytes_lt_iff_of_parting
    (shared : Text)
    {first second : Char}
    (differ : first.toNat ≠ second.toNat)
    (rest others : Text) :
    (shared ++ first :: rest).bytes < (shared ++ second :: others).bytes ↔
      first.toNat < second.toNat := by
  rcases Nat.lt_or_gt_of_ne differ with smaller | greater
  · exact iff_of_true (bytes_lt_of_char_lt shared smaller rest others) smaller
  · refine iff_of_false (fun forward => ?_) (Nat.lt_asymm greater)
    exact List.lt_asymm forward (bytes_lt_of_char_lt shared greater others rest)

theorem bytes_lt_append
    (text : Text)
    (mark : Char)
    (more : Text) :
    text.bytes < (text ++ mark :: more).bytes := by
  obtain ⟨byte, others, encoded⟩ :=
    List.exists_cons_of_ne_nil (String.utf8EncodeChar_ne_nil (c := mark))
  have extended : text.bytes ++ [] < text.bytes ++ byte :: (others ++ bytes more) :=
    List.append_left_lt (List.nil_lt_cons byte (others ++ bytes more))
  rwa [List.append_nil, ← List.cons_append, ← encoded, ← bytes_cons, ← bytes_append] at extended

/-- A text comes before another one because of the first characters that differ, or because the
other one continues it. -/
theorem exists_parting_of_bytes_lt
    {left right : Text}
    (before : left.bytes < right.bytes) :
    (∃ (shared : Text) (first second : Char) (rest others : Text),
      left = shared ++ first :: rest ∧ right = shared ++ second :: others ∧
        first.toNat < second.toNat) ∨
      ∃ mark more, right = left ++ mark :: more := by
  have notAfter := (notAfter_iff_bytes_le left right).2 (List.le_of_lt before)
  have differs : left ≠ right := by
    rintro rfl
    exact List.lt_irrefl _ before
  clear before
  induction left generalizing right with
  | nil =>
      obtain ⟨mark, more, rfl⟩ := List.exists_cons_of_ne_nil differs.symm
      exact Or.inr ⟨mark, more, rfl⟩
  | cons first rest induction =>
      cases right with
      | nil => simp [Text.notAfter] at notAfter
      | cons second others =>
          rcases (notAfter_cons_iff first second rest others).1 notAfter with
            smaller | ⟨same, tails⟩
          · exact Or.inl ⟨[], first, second, rest, others, rfl, rfl, smaller⟩
          · obtain rfl : first = second := Char.toNat_inj.1 same
            rcases induction tails fun equal => differs (equal ▸ rfl) with
              ⟨shared, left, right, restLeft, restRight, rfl, rfl, smaller⟩ | ⟨mark, more, rfl⟩
            · exact Or.inl ⟨first :: shared, left, right, restLeft, restRight, rfl, rfl, smaller⟩
            · exact Or.inr ⟨mark, more, rfl⟩

theorem join_append_cons
    (separator part : Text)
    (parts rest : List Text) :
    join separator (parts ++ part :: rest) =
      (parts.map (· ++ separator)).flatten ++ join separator (part :: rest) := by
  induction parts with
  | nil => rfl
  | cons first others induction =>
      rw [List.cons_append, join_cons separator first (by simp), induction]
      simp

/-- Of two dotted keys that part at a key, the one with the smaller key there comes first, unless
the greater key continues the smaller one with a character before the dot. -/
theorem bytes_join_lt_iff
    (outer : List Text)
    {first second : Text}
    (before : first.bytes < second.bytes)
    (dotless : '.' ∉ second)
    (rest others : List Text) :
    (join ['.'] (outer ++ first :: rest)).bytes < (join ['.'] (outer ++ second :: others)).bytes ↔
      ¬ (rest ≠ [] ∧ ∃ mark more, second = first ++ mark :: more ∧ mark.toNat < '.'.toNat) := by
  rw [join_append_cons, join_append_cons, join_cons_eq_append_flatten, join_cons_eq_append_flatten]
  rcases exists_parting_of_bytes_lt before with
    ⟨shared, smaller, greater, more, moreOthers, rfl, rfl, inOrder⟩ | ⟨mark, more, rfl⟩
  · -- A character decides before the keys end.
    have differ : ¬ ∃ mark tail, shared ++ greater :: moreOthers =
        (shared ++ smaller :: more) ++ mark :: tail := by
      rintro ⟨mark, tail, same⟩
      rw [List.append_assoc, List.append_cancel_left_eq, List.cons_append, List.cons.injEq] at same
      exact absurd inOrder (same.1 ▸ Nat.lt_irrefl _)
    constructor
    · rintro - ⟨-, mark, tail, same, -⟩
      exact differ ⟨mark, tail, same⟩
    · intro _
      simpa using bytes_lt_of_char_lt ((outer.map (· ++ ['.'])).flatten ++ shared) inOrder
        (more ++ (rest.map (['.'] ++ ·)).flatten) (moreOthers ++ (others.map (['.'] ++ ·)).flatten)
  · -- The greater key goes on where the smaller one ends.
    have noDot : mark.toNat ≠ '.'.toNat := by
      intro same
      obtain rfl := Char.toNat_inj.1 same
      exact dotless (by simp)
    cases rest with
    | nil =>
        simp only [ne_eq, not_true_eq_false, false_and, not_false_eq_true, iff_true]
        simpa using bytes_lt_append ((outer.map (· ++ ['.'])).flatten ++ first) mark
          (more ++ (others.map (['.'] ++ ·)).flatten)
    | cons next behind =>
        have continued : (∃ other tail, first ++ mark :: more = first ++ other :: tail ∧
            other.toNat < '.'.toNat) ↔ mark.toNat < '.'.toNat := by
          constructor
          · rintro ⟨other, tail, same, below⟩
            rw [List.append_cancel_left_eq, List.cons.injEq] at same
            exact same.1 ▸ below
          · exact fun below => ⟨mark, more, rfl, below⟩
        have parting := bytes_lt_iff_of_parting ((outer.map (· ++ ['.'])).flatten ++ first)
          noDot.symm (next ++ (behind.map (['.'] ++ ·)).flatten)
          (more ++ (others.map (['.'] ++ ·)).flatten)
        have order : '.'.toNat < mark.toNat ↔ ¬ mark.toNat < '.'.toNat := by omega
        rw [order] at parting
        simpa [continued] using parting

end Text

namespace Settings

open Toml

/-- In a list that is ordered one way, another order holds of all neighbours exactly when it holds
wherever the first does. -/
theorem pairwise_iff_of_pairwise
    {Item : Type}
    {order other : Item → Item → Prop}
    (asymm : ∀ first second, order first second → ¬ order second first)
    {items : List Item}
    (ordered : items.Pairwise order) :
    items.Pairwise other ↔
      ∀ first ∈ items, ∀ second ∈ items, order first second → other first second := by
  constructor
  · intro otherwise first firstMember second secondMember inOrder
    obtain ⟨i, iBound, rfl⟩ := List.getElem_of_mem firstMember
    obtain ⟨j, jBound, rfl⟩ := List.getElem_of_mem secondMember
    rcases Nat.lt_trichotomy i j with earlier | rfl | later
    · exact List.pairwise_iff_getElem.1 otherwise i j iBound jBound earlier
    · exact (asymm _ _ inOrder inOrder).elim
    · exact (asymm _ _ inOrder (List.pairwise_iff_getElem.1 ordered j i jBound iBound later)).elim
  · intro holds
    exact ordered.imp_of_mem fun firstMember secondMember inOrder =>
      holds _ firstMember _ secondMember inOrder

/-! ## The leaves of a table by their dotted keys -/

theorem leaves_eq_flatMap
    (outer : Text)
    (entries : Table) :
    leaves outer entries =
      entries.flatMap fun entry => leavesOfValue (keyBelow outer entry.1) entry.2 := by
  induction entries with
  | nil => rfl
  | cons entry rest induction =>
      obtain ⟨key, value⟩ := entry
      rw [leaves, induction, List.flatMap_cons]

/-- The dotted keys of leaves are made of their paths. -/
theorem leavesOfValue_eq_map
    (outer : Text)
    (value : Value) :
    leavesOfValue outer value =
      (pathsOfValue value).map fun leaf => (leaf.1.foldl keyBelow outer, leaf.2) := by
  induction value using Value.tableInduction generalizing outer with
  | plain value plain =>
      rw [leavesOfValue_of_isTable_eq_false plain, pathsOfValue_of_isTable_eq_false plain]
      rfl
  | table entries induction =>
      rw [leavesOfValue, pathsOfValue, leaves_eq_flatMap, pathsOfEntries_eq_flatMap,
        List.map_flatMap]
      refine List.flatMap_congr fun entry member => ?_
      rw [induction entry member, List.map_map]
      rfl

/-! ## The listed keys -/

/-- Whether entries are listed for the leaves of a table: one for each, under its dotted key. -/
def ListsLeaves (table : Table) (listed : List Listed) : Prop :=
  ∃ paths : List (List Text),
    paths.Nodup ∧ (∀ path, path ∈ paths ↔ leaf? path table ≠ none) ∧
      List.Forall₂ (fun path entry => entry.key = Text.join ['.'] path ∧
        (leaf? path table).map Value.sortKeys = some entry.value) paths listed

/-- Whether a section has an entry beside it whose key continues that of the section with a
character before the dot. -/
def HasOvertaking (table : Table) : Prop :=
  ∃ (outer : List Text) (name : Text) (mark : Char) (more : Text) (inside others : List Text),
    mark.toNat < '.'.toNat ∧ inside ≠ [] ∧
      leaf? (outer ++ name :: inside) table ≠ none ∧
      leaf? (outer ++ (name ++ mark :: more) :: others) table ≠ none

/-- The paths to the leaves of a table, in the order of the sorted table. -/
def sortedPaths (table : Table) : List (List Text) :=
  (pathsOfValue (Value.table table).sortKeys).map Prod.fst

section Orderly

variable
  {table : Table}
  (orderly : IsOrderly table)

include orderly

theorem mem_pathsOfValue_sortKeys_iff
    (path : List Text)
    (leaf : Value) :
    (path, leaf) ∈ pathsOfValue (Value.table table).sortKeys ↔
      (leaf? path table).map Value.sortKeys = some leaf := by
  have distinct := orderly.regular.hasDistinctKeys
  rw [mem_pathsOfValue_iff (hasDistinctKeys_sortKeys distinct), under?_sortKeys distinct,
    Option.map_eq_some_iff, Option.map_eq_some_iff]
  constructor
  · rintro ⟨⟨value, found, rfl⟩, plain⟩
    rw [isTable_sortKeys] at plain
    exact ⟨value, (leaf?_eq_some_iff _ _ _).2 ⟨found, plain⟩, rfl⟩
  · rintro ⟨value, found, rfl⟩
    obtain ⟨there, plain⟩ := (leaf?_eq_some_iff _ _ _).1 found
    exact ⟨⟨value, there, rfl⟩, by rw [isTable_sortKeys, plain]⟩

theorem mem_sortedPaths_iff (path : List Text) :
    path ∈ sortedPaths table ↔ leaf? path table ≠ none := by
  rw [sortedPaths, List.mem_map, Option.ne_none_iff_exists']
  constructor
  · rintro ⟨⟨path, leaf⟩, member, rfl⟩
    rw [mem_pathsOfValue_sortKeys_iff orderly] at member
    obtain ⟨value, found, -⟩ := Option.map_eq_some_iff.1 member
    exact ⟨value, found⟩
  · rintro ⟨value, found⟩
    refine ⟨(path, value.sortKeys), ?_, rfl⟩
    rw [mem_pathsOfValue_sortKeys_iff orderly, found]
    rfl

theorem pairwise_sortedPaths :
    (sortedPaths table).Pairwise ComesBefore := by
  rw [sortedPaths, List.pairwise_map]
  exact pairwise_pathsOfValue_sortKeys orderly.regular.hasDistinctKeys

theorem nodup_sortedPaths :
    (sortedPaths table).Nodup := by
  refine (pairwise_sortedPaths orderly).imp fun before same => ?_
  subst same
  exact before.asymm before

/-- The entries of the sorted table have the dotted keys of their paths. -/
theorem leaves_sortEntries :
    leaves [] (sortEntries table) =
      (pathsOfValue (Value.table table).sortKeys).map fun leaf =>
        (Text.join ['.'] leaf.1, leaf.2) := by
  have listed : leaves [] (sortEntries table) =
      leavesOfValue [] (Value.table table).sortKeys := rfl
  rw [listed, leavesOfValue_eq_map]
  refine List.map_congr_left ?_
  rintro ⟨path, leaf⟩ member
  rw [mem_pathsOfValue_sortKeys_iff orderly] at member
  obtain ⟨value, found, -⟩ := Option.map_eq_some_iff.1 member
  obtain ⟨first, rest, rfl⟩ := List.exists_cons_of_ne_nil (ne_nil_of_leaf? found)
  have named := orderly.head_ne_nil ((leaf?_eq_some_iff _ _ _).1 found).1
  exact congrArg (fun key => (key, leaf)) (foldl_keyBelow named rest)

/-- The dotted keys increase exactly when no section is overtaken. -/
theorem pairwise_join_sortedPaths_iff :
    ((sortedPaths table).Pairwise fun earlier later =>
        (Text.join ['.'] earlier).bytes < (Text.join ['.'] later).bytes) ↔
      ¬ HasOvertaking table := by
  rw [pairwise_iff_of_pairwise (fun _ _ before => before.asymm) (pairwise_sortedPaths orderly)]
  have present (path : List Text) := mem_sortedPaths_iff orderly path
  have dotless {outer others : List Text} {name : Text}
      (found : leaf? (outer ++ name :: others) table ≠ none) : '.' ∉ name := by
    obtain ⟨value, there⟩ := Option.ne_none_iff_exists'.1 found
    have keys := orderly.regular.dotless_of_under? ((leaf?_eq_some_iff _ _ _).1 there).1
    exact keys name (by simp)
  constructor
  · rintro increasing ⟨outer, name, mark, more, inside, others, below, nonempty, found, beside⟩
    have before := Text.bytes_lt_append name mark more
    have inOrder := increasing _ ((present _).2 found) _ ((present _).2 beside)
      (.of_parting outer before inside others)
    exact (Text.bytes_join_lt_iff outer before (dotless beside) inside others).1 inOrder
      ⟨nonempty, mark, more, rfl, below⟩
  · intro noOvertaking first firstMember second secondMember before
    obtain ⟨outer, name, later, inside, others, rfl, rfl, smaller⟩ := before.exists_parting
    rw [present] at firstMember secondMember
    rw [Text.bytes_join_lt_iff outer smaller (dotless secondMember)]
    rintro ⟨nonempty, mark, more, rfl, below⟩
    exact noOvertaking
      ⟨outer, name, mark, more, inside, others, below, nonempty, firstMember, secondMember⟩

end Orderly

/-- Once the settings have been loaded with nothing remembered, there is one listed entry for each
leaf of the values in effect, and the keys of the entries increase exactly when no section has an
entry beside it that continues its key with a character before the dot. -/
theorem list_increases_iff
    (surroundings : Surroundings)
    (settings : Settings)
    (loaded : (Memory.empty.load surroundings).1 = .ok settings)
    (orderly : IsOrderly
      ((Layers.gather surroundings).effective surroundings.environment)) :
    ∃ listed, (Memory.empty.list surroundings).1 = .ok listed ∧
      ListsLeaves ((Layers.gather surroundings).effective surroundings.environment) listed ∧
      ((listed.map Listed.key).Pairwise (fun earlier later => earlier.bytes < later.bytes) ↔
        ¬ HasOvertaking
          ((Layers.gather surroundings).effective surroundings.environment)) := by
  have usable := (load_empty_eq_ok_iff surroundings settings).1 loaded
  refine ⟨_, (list_eq_ok_iff surroundings _).2 ⟨⟨settings, usable⟩, rfl⟩, ?_⟩
  rw [Layers.list, leaves_sortEntries orderly, List.map_map]
  constructor
  · refine ⟨_, nodup_sortedPaths orderly, mem_sortedPaths_iff orderly, ?_⟩
    rw [sortedPaths, List.forall₂_map_left_iff, List.forall₂_map_right_iff, List.forall₂_same]
    rintro ⟨path, leaf⟩ member
    exact ⟨rfl, (mem_pathsOfValue_sortKeys_iff orderly path leaf).1 member⟩
  · rw [← pairwise_join_sortedPaths_iff orderly, sortedPaths, List.map_map, List.pairwise_map,
      List.pairwise_map]
    rfl

/-- A file with a section inside another one, an entry of its own and a list of tables, under a
variable that overrides a setting. -/
def nestedSections : Surroundings where
  store :=
    ⟨.memory, ["w".toList],
      [ (["w".toList], .directory),
        (["w".toList, "hsuno.toml".toList],
          .file "zeal = [\x7bb = 1, A = 2\x7d]\n[generate.extra]\nDepth = 3\n[generate]\nworkers = 2\n") ],
      fun _ _ => none, fun _ => none⟩
  home := "/u"
  environment := [("HSUNO_LOG_JSON", "true")]

theorem list_nestedSections :
    IsOrderly ((Layers.gather nestedSections).effective nestedSections.environment) ∧
      ∃ settings listed, (Memory.empty.load nestedSections).1 = .ok settings ∧
        (Memory.empty.list nestedSections).1 = .ok listed ∧
        "generate.extra.depth".toList ∈ listed.map Listed.key ∧
        ListsLeaves ((Layers.gather nestedSections).effective nestedSections.environment) listed ∧
        ¬ HasOvertaking
          ((Layers.gather nestedSections).effective nestedSections.environment) := by
  have orderly :
      IsOrderly ((Layers.gather nestedSections).effective nestedSections.environment) := by
    decide +kernel
  have checked : ((Memory.empty.list nestedSections).1.toOption.any fun entries =>
      decide ("generate.extra.depth".toList ∈ entries.map Listed.key ∧
        (entries.map Listed.key).Pairwise fun earlier later =>
          earlier.bytes < later.bytes)) = true := by
    decide +kernel
  obtain ⟨settings, loaded⟩ : ∃ settings, (Memory.empty.load nestedSections).1 = .ok settings := by
    cases result : (Memory.empty.load nestedSections).1 with
    | ok settings => exact ⟨settings, rfl⟩
    | error fault =>
        have succeeds : (Memory.empty.load nestedSections).1.toOption.isSome = true := by
          decide +kernel
        rw [result] at succeeds
        simp [Except.toOption] at succeeds
  obtain ⟨listed, succeeded, leaves, increases⟩ :=
    list_increases_iff nestedSections settings loaded orderly
  rw [succeeded] at checked
  have shown : "generate.extra.depth".toList ∈ listed.map Listed.key ∧
      (listed.map Listed.key).Pairwise fun earlier later => earlier.bytes < later.bytes := by
    simpa [Except.toOption] using checked
  exact ⟨orderly, settings, listed, loaded, succeeded, shown.1, leaves, increases.1 shown.2⟩

/-! ## Sections that are overtaken -/

/-- A file with a section whose key continues that of the generator's settings. -/
def overtakenSection : Surroundings where
  store :=
    ⟨.memory, ["w".toList],
      [ (["w".toList], .directory),
        (["w".toList, "hsuno.toml".toList], .file "[generate-x]\ny = 1\n") ],
      fun _ _ => none, fun _ => none⟩
  home := "/u"
  environment := []

/-- The values are listed, and their keys do not increase. -/
theorem exists_list_not_increasing :
    ∃ listed, (Memory.empty.list overtakenSection).1 = .ok listed ∧
      ¬ (listed.map Listed.key).Pairwise fun earlier later => earlier.bytes < later.bytes := by
  have behind : ((Memory.empty.list overtakenSection).1.toOption.any fun entries =>
      !decide ((entries.map Listed.key).Pairwise fun earlier later =>
        earlier.bytes < later.bytes)) = true := by
    decide +kernel
  cases result : (Memory.empty.list overtakenSection).1 with
  | error fault =>
      rw [result] at behind
      exact absurd behind (by simp [Except.toOption])
  | ok listed =>
      rw [result] at behind
      exact ⟨listed, rfl, by simpa [Except.toOption] using behind⟩

end Settings

end UnoBindgen
