import UnoBindgen.Proofs.Toml.Lines

/-!
# Printed documents describe what was printed

The statements of a printed table change nothing but that table: they are put into effect in a
table of their own, and the result stands in its place in the table around it.  So a printed
document is put together again table by table.  What is read back is the document that was printed,
laid out anew: the plain entries of each table come first in it, and moments have their usual
spelling.  So both say the same.
-/

namespace UnoBindgen.Toml

/-! ## Statements inside one entry -/

/-- Whether a draft is open for statements: a table, or an array with its latest table. -/
def IsOpenAt (draftOf : Drafts → Draft) : Prop :=
  (∃ origin, draftOf = .table origin) ∨ ∃ earlier, draftOf = fun latest => .tables (latest :: earlier)

/-- Whether the header of a statement, if it is one, names a path below the table it stands in. -/
def Statement.IsInner : Statement → Prop
  | .openTable path => path ≠ []
  | .openArrayItem path => path ≠ []
  | .entry _ _ => True

section Inside

variable
  {front : Drafts}
  {key : Text}
  (fresh : key ∉ front.map Prod.fst)
  {draftOf : Drafts → Draft}
  (isOpen : IsOpenAt draftOf)

include fresh

theorem lookup_append_last (draft : Draft) :
    (front ++ [(key, draft)]).lookup key = some draft := by
  rw [List.lookup_append, (lookup_eq_none_iff_not_mem front key).2 fresh]
  simp

theorem putDraft_append_last (draft replaced : Draft) :
    putDraft (front ++ [(key, replaced)]) key draft = front ++ [(key, draft)] := by
  have others : front.map (fun entry => if entry.1 == key then (key, draft) else entry) = front := by
    refine (List.map_congr_left fun entry member => ?_).trans (List.map_id front)
    refine if_neg fun same => fresh ?_
    exact List.mem_map.2 ⟨entry, member, beq_iff_eq.1 same⟩
  rw [putDraft, if_pos (by simp), List.map_append, others]
  simp

include isOpen

theorem passTables_last
    (change : Drafts → Except Problem Drafts)
    (path : KeyPath)
    (drafts : Drafts) :
    passTables change (key :: path) (front ++ [(key, draftOf drafts)]) =
      (passTables change path drafts).map fun after => front ++ [(key, draftOf after)] := by
  rw [passTables]
  rcases isOpen with ⟨origin, rfl⟩ | ⟨earlier, rfl⟩ <;>
    simp only [lookup_append_last fresh, bind, Except.bind] <;>
    cases passTables change path drafts <;>
    simp [putDraft_append_last fresh, Except.map, pure, Except.pure]

/-- One statement inside an entry changes the entry as it changes a table of its own. -/
theorem apply_within
    {statement : Statement}
    (isInner : statement.IsInner)
    (drafts : Drafts)
    (opened : KeyPath) :
    apply (front ++ [(key, draftOf drafts)], key :: opened) (statement.within [key]) =
      (apply (drafts, opened) statement).map fun after =>
        (front ++ [(key, draftOf after.1)], key :: after.2) := by
  have passed := passTables_last fresh isOpen
  cases statement with
  | openTable path =>
      obtain ⟨first, more, rfl⟩ := List.exists_cons_of_ne_nil isInner
      simp only [Statement.within, apply, List.singleton_append, List.dropLast_cons_cons,
        List.getLastD_cons, passed]
      cases passTables _ _ drafts <;> rfl
  | openArrayItem path =>
      obtain ⟨first, more, rfl⟩ := List.exists_cons_of_ne_nil isInner
      simp only [Statement.within, apply, List.singleton_append, List.dropLast_cons_cons,
        List.getLastD_cons, passed]
      cases passTables _ _ drafts <;> rfl
  | entry path literal =>
      simp only [Statement.within, apply, passed]
      cases literal.value with
      | error problem => rfl
      | ok value =>
          simp only [bind, Except.bind]
          cases passTables (putEntry value path) opened drafts <;> rfl

/-- So do any number of them. -/
theorem foldlM_within
    {statements : List Statement}
    (areInner : ∀ statement ∈ statements, statement.IsInner)
    (drafts : Drafts)
    (opened : KeyPath) :
    (statements.map (Statement.within [key])).foldlM apply
        (front ++ [(key, draftOf drafts)], key :: opened) =
      (statements.foldlM apply (drafts, opened)).map fun after =>
        (front ++ [(key, draftOf after.1)], key :: after.2) := by
  induction statements generalizing drafts opened with
  | nil => rfl
  | cons statement rest induction =>
      rw [List.forall_mem_cons] at areInner
      rw [List.map_cons, List.foldlM_cons, List.foldlM_cons,
        apply_within fresh isOpen areInner.1]
      cases apply (drafts, opened) statement with
      | error problem => rfl
      | ok after => exact induction areInner.2 after.1 after.2

end Inside

/-! ## The layout of printed tables -/

mutual

/-- A value as it is read back from under its header: the plain entries of each table come first,
and moments have their usual spelling. -/
def Value.laidOut : Value → Value
  | .array items => .array (laidOutItems items)
  | .table entries =>
    .table (respelledEntries (plainEntries entries) ++ laidOutSections entries)
  | value => value.respelled

/-- The items of an array as they are read back. -/
def laidOutItems : List Value → List Value
  | [] => []
  | item :: rest => item.laidOut :: laidOutItems rest

/-- The entries with headers as they are read back. -/
def laidOutSections : List (Text × Value) → List (Text × Value)
  | [] => []
  | (key, value) :: rest =>
    if value.hasHeader then (key, value.laidOut) :: laidOutSections rest
    else laidOutSections rest

end

/-- A table as it is read back after it was printed. -/
def Table.laidOut (entries : Table) : Table :=
  respelledEntries (plainEntries entries) ++ laidOutSections entries

theorem isTable_laidOut (value : Value) :
    value.laidOut.isTable = value.isTable := by
  cases value <;> rfl

theorem laidOutItems_eq_map (items : List Value) :
    laidOutItems items = items.map Value.laidOut := by
  induction items with
  | nil => rfl
  | cons item rest induction => rw [laidOutItems, induction, List.map_cons]

theorem laidOutSections_eq_map (entries : Table) :
    laidOutSections entries =
      (headedEntries entries).map fun entry => (entry.1, entry.2.laidOut) := by
  induction entries with
  | nil => rfl
  | cons entry rest induction =>
      obtain ⟨key, value⟩ := entry
      rw [laidOutSections, headedEntries, List.filter_cons]
      cases headed : value.hasHeader <;> simp [induction, headedEntries]

/-! ## Tables and their headed entries -/

/-- Whether the lines of a table are read as statements that build given drafts of it. -/
structure TableReadsBack
    (entries : Table)
    (statements : List Statement)
    (drafts : Drafts) : Prop where
  yields :
    ∀ path, Yields (printBody entries (printSections path entries))
      (statements.map (Statement.within path))
  inner : ∀ statement ∈ statements, statement.IsInner
  builds : ∃ opened, statements.foldlM apply ([], []) = .ok (drafts, opened)
  means : finishDrafts drafts = Table.laidOut entries

/-- Whether the lines of an entry with a header are read as statements that add a given draft to a
table. -/
structure SectionReadsBack
    (entry : Text × Value)
    (statements : List Statement)
    (draft : Text × Draft) : Prop where
  yields :
    ∀ path, Yields (printSection (path ++ [entry.1]) entry.2)
      (statements.map (Statement.within path))
  inner : ∀ statement ∈ statements, statement.IsInner
  named : draft.1 = entry.1
  builds :
    ∀ drafts opened, entry.1 ∉ drafts.map Prod.fst →
      ∃ last, statements.foldlM apply (drafts, opened) = .ok (drafts ++ [draft], last)
  means : draft.2.finish = entry.2.laidOut

/-- The statements of a table behind its header. -/
def headedStatements
    (header : KeyPath → Statement)
    (key : Text)
    (statements : List Statement) :
    List Statement :=
  header [key] :: statements.map (Statement.within [key])

theorem map_within_within
    (path : KeyPath)
    (key : Text)
    (statements : List Statement) :
    (statements.map (Statement.within [key])).map (Statement.within path) =
      statements.map (Statement.within (path ++ [key])) := by
  rw [List.map_map]
  exact List.map_congr_left fun statement _ => statement.within_within path [key]

theorem forall_isInner_headedStatements
    (header : KeyPath → Statement)
    {key : Text}
    (headerInner : (header [key]).IsInner)
    {statements : List Statement}
    (inner : ∀ statement ∈ statements, statement.IsInner) :
    ∀ statement ∈ headedStatements header key statements, statement.IsInner := by
  refine List.forall_mem_cons.2 ⟨headerInner, List.forall_mem_map.2 fun statement member => ?_⟩
  have isInner := inner statement member
  cases statement with
  | openTable path => exact List.cons_ne_nil _ _
  | openArrayItem path => exact List.cons_ne_nil _ _
  | entry path literal => trivial

theorem concat_ne_nil (path : KeyPath) (key : Text) :
    path ++ [key] ≠ [] :=
  List.append_ne_nil_of_right_ne_nil path (List.cons_ne_nil key [])

theorem apply_openTable
    {front : Drafts}
    {key : Text}
    (fresh : key ∉ front.map Prod.fst)
    (opened : KeyPath) :
    apply (front, opened) (.openTable [key]) =
      .ok (front ++ [(key, .table .opened [])], [key]) := by
  have absent := (lookup_eq_none_iff_not_mem front key).2 fresh
  simp only [apply, List.getLastD_cons, List.getLastD_nil, List.dropLast_singleton, passTables,
    openTable, absent, putDraft_of_not_mem fresh]
  rfl

theorem SectionReadsBack.table
    (key : Text)
    {entries : Table}
    {statements : List Statement}
    {drafts : Drafts}
    (readBack : TableReadsBack entries statements drafts) :
    SectionReadsBack (key, .table entries) (headedStatements .openTable key statements)
      (key, .table .opened drafts) where
  named := rfl
  yields := by
    intro path
    have header := yields_openTable (concat_ne_nil path key)
    have body := readBack.yields (path ++ [key])
    rw [headedStatements, List.map_cons, map_within_within]
    exact header.append body
  inner := forall_isInner_headedStatements .openTable (List.cons_ne_nil key []) readBack.inner
  builds := by
    intro front opened fresh
    obtain ⟨last, built⟩ := readBack.builds
    have within := foldlM_within fresh (Or.inl ⟨.opened, rfl⟩) readBack.inner [] []
    refine ⟨key :: last, ?_⟩
    rw [headedStatements, List.foldlM_cons, apply_openTable fresh]
    exact within.trans (by rw [built]; rfl)
  means := congrArg Value.table readBack.means

/-! ## Arrays of tables -/

theorem printItems_map_table
    (path : KeyPath)
    (tables : List Table) :
    printItems path (tables.map Value.table) =
      tables.map fun entries =>
        '[' :: '[' :: printKey path ++ [']', ']', '\n'] ++
          printBody entries (printSections path entries) := by
  induction tables with
  | nil => rfl
  | cons entries rest induction => rw [List.map_cons, printItems, induction, List.map_cons]

section Items

variable
  {front : Drafts}
  {key : Text}
  (fresh : key ∉ front.map Prod.fst)

include fresh

theorem apply_openArrayItem
    (opened : KeyPath) :
    apply (front, opened) (.openArrayItem [key]) = .ok (front ++ [(key, .tables [[]])], [key]) := by
  have absent := (lookup_eq_none_iff_not_mem front key).2 fresh
  simp only [apply, List.getLastD_cons, List.getLastD_nil, List.dropLast_singleton, passTables,
    openArrayItem, absent, putDraft_of_not_mem fresh]
  rfl

theorem apply_openArrayItem_again
    (items : List Drafts)
    (opened : KeyPath) :
    apply (front ++ [(key, .tables items)], opened) (.openArrayItem [key]) =
      .ok (front ++ [(key, .tables ([] :: items))], [key]) := by
  simp only [apply, List.getLastD_cons, List.getLastD_nil, List.dropLast_singleton, passTables,
    openArrayItem, lookup_append_last fresh, putDraft_append_last fresh]
  rfl

/-- Each header adds a table to the array. -/
theorem builds_items
    {tables : List Table}
    {bodies : List (List Statement × Drafts)}
    (readBack :
      List.Forall₂ (fun entries body => TableReadsBack entries body.1 body.2) tables bodies)
    (earlier : List Drafts)
    (opened : KeyPath) :
    ∃ last,
      (bodies.flatMap fun body => headedStatements .openArrayItem key body.1).foldlM apply
          (front ++ [(key, .tables earlier)], opened) =
        .ok (front ++ [(key, .tables ((bodies.map Prod.snd).reverse ++ earlier))], last) := by
  induction readBack generalizing earlier opened with
  | nil => exact ⟨opened, rfl⟩
  | @cons entries body tables bodies first _ induction =>
      obtain ⟨last, built⟩ := first.builds
      have inside := foldlM_within fresh (Or.inr ⟨earlier, rfl⟩) first.inner [] []
      have item :
          (headedStatements .openArrayItem key body.1).foldlM apply (front ++ [(key, .tables earlier)], opened) =
            .ok (front ++ [(key, .tables (body.2 :: earlier))], key :: last) := by
        rw [headedStatements, List.foldlM_cons, apply_openArrayItem_again fresh]
        exact inside.trans (by rw [built]; rfl)
      obtain ⟨final, later⟩ := induction (body.2 :: earlier) (key :: last)
      refine ⟨final, ?_⟩
      rw [List.flatMap_cons, List.foldlM_append, item, List.map_cons, List.reverse_cons,
        List.append_assoc]
      exact later

end Items

theorem SectionReadsBack.array
    (key : Text)
    {tables : List Table}
    (nonempty : tables ≠ [])
    {bodies : List (List Statement × Drafts)}
    (readBack :
      List.Forall₂ (fun entries body => TableReadsBack entries body.1 body.2) tables bodies) :
    SectionReadsBack (key, .array (tables.map Value.table))
      (bodies.flatMap fun body => headedStatements .openArrayItem key body.1)
      (key, .tables (bodies.map Prod.snd).reverse) where
  named := rfl
  yields := by
    intro path
    rw [printSection, printItems_map_table, List.map_flatMap, List.flatMap_def]
    refine .join (List.forall₂_map_left_iff.2 (List.forall₂_map_right_iff.2 ?_))
    refine readBack.imp fun entries body bodyReadsBack => ?_
    have header := yields_openArrayItem (concat_ne_nil path key)
    rw [headedStatements, List.map_cons, map_within_within]
    exact header.append (bodyReadsBack.yields (path ++ [key]))
  inner := by
    intro statement member
    obtain ⟨body, listed, member⟩ := List.mem_flatMap.1 member
    obtain ⟨entries, -, bodyReadsBack⟩ := exists_of_mem_right readBack listed
    exact forall_isInner_headedStatements .openArrayItem (List.cons_ne_nil key [])
      bodyReadsBack.inner statement member
  builds := by
    intro front opened fresh
    obtain ⟨last, built⟩ := builds_items fresh readBack [] opened
    refine ⟨last, ?_⟩
    -- The first header makes the array, and from then on it is there.
    cases readBack with
    | nil => exact absurd rfl nonempty
    | @cons entries body tables bodies first later =>
        rw [List.append_nil] at built
        rw [← built, List.flatMap_cons, List.foldlM_append, List.foldlM_append, headedStatements,
          List.foldlM_cons, List.foldlM_cons, apply_openArrayItem fresh,
          apply_openArrayItem_again fresh]
  means := by
    have same := map_eq_map_of_forall₂ readBack fun body _ entries bodyReadsBack =>
      congrArg Value.table bodyReadsBack.means
    dsimp only
    rw [Draft.finish, finishItems_eq_map, List.map_reverse, List.reverse_reverse, Value.laidOut,
      laidOutItems_eq_map, List.map_map, List.map_map]
    exact congrArg Value.array same

/-! ## Whole tables -/

/-- The plain entries of a table follow the rules of entries in braces. -/
theorem foldlM_entryStatement
    (written : List (KeyPath × Literal))
    (drafts : Drafts) :
    (written.map entryStatement).foldlM apply (drafts, []) =
      (entryDrafts drafts written).map fun after => (after, []) := by
  induction written generalizing drafts with
  | nil => rfl
  | cons entry rest induction =>
      obtain ⟨path, literal⟩ := entry
      rw [List.map_cons, List.foldlM_cons, entryDrafts, entryStatement, apply]
      cases literal.value with
      | error problem => rfl
      | ok value =>
          simp only [bind, Except.bind, passTables]
          cases putEntry value path drafts with
          | error problem => rfl
          | ok after => exact induction after

theorem builds_sections
    {entries : Table}
    {sections : List (List Statement × (Text × Draft))}
    (readBack :
      List.Forall₂ (fun entry built => SectionReadsBack entry built.1 built.2) entries sections)
    {drafts : Drafts}
    (distinct : (drafts.map Prod.fst ++ entries.map Prod.fst).Nodup)
    (opened : KeyPath) :
    ∃ last,
      (sections.flatMap Prod.fst).foldlM apply (drafts, opened) =
        .ok (drafts ++ sections.map Prod.snd, last) := by
  induction readBack generalizing drafts opened with
  | nil => exact ⟨opened, by rw [List.map_nil, List.append_nil]; rfl⟩
  | @cons entry built entries sections first _ induction =>
      have fresh : entry.1 ∉ drafts.map Prod.fst := fun member =>
        (List.nodup_append.1 distinct).2.2 _ member _ List.mem_cons_self rfl
      obtain ⟨middle, here⟩ := first.builds drafts opened fresh
      have laterDistinct :
          ((drafts ++ [built.2]).map Prod.fst ++ entries.map Prod.fst).Nodup := by
        simpa [List.append_assoc, first.named] using distinct
      obtain ⟨last, later⟩ := induction laterDistinct middle
      refine ⟨last, ?_⟩
      rw [List.flatMap_cons, List.foldlM_append, here]
      rw [List.append_assoc] at later
      exact later

/-- A moment in its usual spelling stays as it is. -/
theorem respelled_respelled
    {value : Value}
    (sound : value.IsSound) :
    value.respelled.respelled = value.respelled := by
  induction value using Value.partInduction with
  | single value single =>
      have proper := (Value.isSound_iff_isProper single).1 sound
      cases value with
      | moment content =>
          exact congrArg Value.moment (isUsualMoment_printMoment ((isMoment_iff content).1 proper)).fixed
      | array items => simp [Value.isSingle] at single
      | table entries => simp [Value.isSingle] at single
      | _ => rfl
  | array items induction =>
      rw [Value.isSound_array_iff] at sound
      rw [Value.respelled, Value.respelled, respelledItems_eq_map, respelledItems_eq_map,
        List.map_map]
      exact congrArg Value.array
        (List.map_congr_left fun item member => induction item member (sound item member))
  | table entries induction =>
      rw [Value.respelled, Value.respelled, respelledEntries_eq_map, respelledEntries_eq_map,
        List.map_map]
      refine congrArg Value.table (List.map_congr_left fun entry member => ?_)
      exact congrArg (Prod.mk entry.1) (induction entry member (sound.of_mem member))

theorem normal_respelled
    {value : Value}
    (sound : value.IsSound) :
    value.respelled.normal = value.normal :=
  congrArg Value.sortKeys (respelled_respelled sound)

theorem plainEntries_append_headedEntries_perm (entries : Table) :
    (plainEntries entries ++ headedEntries entries).Perm entries :=
  List.perm_append_comm.trans (List.filter_append_perm _ entries)

/-- A table is put together from its plain entries and its headed ones. -/
theorem TableReadsBack.of_entries
    {entries : Table}
    (sound : (Value.table entries).IsSound)
    {written : List (KeyPath × Literal)}
    (plain : List.Forall₂ PairReadsBack (plainEntries entries) written)
    {sections : List (List Statement × (Text × Draft))}
    (headed :
      List.Forall₂ (fun entry built => SectionReadsBack entry built.1 built.2)
        (headedEntries entries) sections) :
    TableReadsBack entries (written.map entryStatement ++ sections.flatMap Prod.fst)
      ((plainEntries entries).map entryDraft ++ sections.map Prod.snd) where
  yields := by
    intro path
    have pairs : (written.map entryStatement).map (Statement.within path) =
        written.map entryStatement := by
      rw [List.map_map]
      rfl
    rw [List.map_append, pairs, List.map_flatMap, List.flatMap_def, printSections_eq_map]
    refine yields_printBody (yields_printPairs plain) ?_
    refine List.forall₂_map_left_iff.2 (List.forall₂_map_right_iff.2 (headed.imp ?_))
    exact fun entry built readBack => readBack.yields path
  inner := by
    intro statement member
    rcases List.mem_append.1 member with inPairs | inSections
    · obtain ⟨entry, -, rfl⟩ := List.mem_map.1 inPairs
      trivial
    · obtain ⟨built, listed, inBuilt⟩ := List.mem_flatMap.1 inSections
      obtain ⟨entry, -, readBack⟩ := exists_of_mem_right headed listed
      exact readBack.inner statement inBuilt
  builds := by
    have distinct :
        ((plainEntries entries).map Prod.fst ++ (headedEntries entries).map Prod.fst).Nodup := by
      rw [← List.map_append]
      exact ((plainEntries_append_headedEntries_perm entries).map Prod.fst).nodup_iff.2 sound.nodup
    have pairs : entryDrafts [] written = .ok ([] ++ (plainEntries entries).map entryDraft) :=
      entryDrafts_of_forall₂ plain (List.nodup_append.1 distinct).1
    rw [← map_fst_map_entryDraft] at distinct
    obtain ⟨last, built⟩ := builds_sections headed distinct []
    refine ⟨last, ?_⟩
    rw [List.foldlM_append, foldlM_entryStatement, pairs]
    exact built
  means := by
    have inner : finishDrafts (sections.map Prod.snd) = laidOutSections entries := by
      rw [finishDrafts_eq_map, List.map_map, laidOutSections_eq_map]
      refine map_eq_map_of_forall₂ headed fun built _ entry readBack => ?_
      exact Prod.ext readBack.named readBack.means
    rw [finishDrafts_append, finishDrafts_map_entryDraft, inner, Table.laidOut]

/-! ## Whole documents -/

/-- What the induction over a value carries: tables are put together again, and so are values under
headers. -/
def IsReadBack (value : Value) : Prop :=
  (∀ entries, value = .table entries →
      ∃ statements drafts, TableReadsBack entries statements drafts) ∧
    (value.hasHeader = true →
      ∀ key, ∃ built : List Statement × (Text × Draft),
        SectionReadsBack (key, value) built.1 built.2)

theorem exists_map_table
    {items : List Value}
    (areTables : ∀ item ∈ items, item.isTable = true) :
    ∃ tables : List Table, items = tables.map Value.table := by
  induction items with
  | nil => exact ⟨[], rfl⟩
  | cons item rest induction =>
      rw [List.forall_mem_cons] at areTables
      obtain ⟨tables, rfl⟩ := induction areTables.2
      cases item with
      | table entries => exact ⟨entries :: tables, rfl⟩
      | _ => simp [Value.isTable] at areTables

theorem isReadBack_array
    {items : List Value}
    (readBack : ∀ item ∈ items, IsReadBack item) :
    IsReadBack (.array items) := by
  refine ⟨fun entries same => by simp at same, fun headed key => ?_⟩
  rw [Value.hasHeader, Bool.and_eq_true, List.all_eq_true] at headed
  obtain ⟨tables, rfl⟩ := exists_map_table headed.2
  have nonempty : tables ≠ [] := by
    rintro rfl
    exact absurd headed.1 (by decide)
  have bodies : ∀ entries ∈ tables, ∃ body : List Statement × Drafts,
      TableReadsBack entries body.1 body.2 := by
    intro entries member
    obtain ⟨statements, drafts, body⟩ :=
      (readBack _ (List.mem_map_of_mem member)).1 entries rfl
    exact ⟨(statements, drafts), body⟩
  obtain ⟨bodies, bodiesReadBack⟩ := exists_forall₂_of_forall bodies
  exact ⟨(_, _), .array key nonempty bodiesReadBack⟩

theorem isReadBack_table
    {entries : Table}
    (sound : (Value.table entries).IsSound)
    (readBack : ∀ entry ∈ entries, IsReadBack entry.2) :
    IsReadBack (.table entries) := by
  have body : ∃ statements drafts, TableReadsBack entries statements drafts := by
    have plain : ∀ entry ∈ plainEntries entries, ∃ written, PairReadsBack entry written := by
      intro entry member
      have inTable := List.mem_of_mem_filter member
      exact exists_pairReadsBack (exists_readsBack (sound.of_mem inTable))
    have headed : ∀ entry ∈ headedEntries entries, ∃ built : List Statement × (Text × Draft),
        SectionReadsBack entry built.1 built.2 := by
      intro entry member
      have inTable := List.mem_of_mem_filter member
      exact (readBack entry inTable).2 (List.mem_filter.1 member).2 entry.1
    obtain ⟨written, plain⟩ := exists_forall₂_of_forall plain
    obtain ⟨sections, headed⟩ := exists_forall₂_of_forall headed
    exact ⟨_, _, .of_entries sound plain headed⟩
  constructor
  · rintro _ ⟨⟩
    exact body
  · intro _ key
    obtain ⟨statements, drafts, readBack⟩ := body
    exact ⟨(_, _), .table key readBack⟩

theorem isReadBack
    {value : Value}
    (sound : value.IsSound) :
    IsReadBack value := by
  induction value using Value.partInduction with
  | single value single => cases value <;> simp_all [IsReadBack, Value.isSingle, Value.hasHeader]
  | array items induction =>
      rw [Value.isSound_array_iff] at sound
      exact isReadBack_array fun item member => induction item member (sound item member)
  | table entries induction =>
      exact isReadBack_table sound fun entry member =>
        induction entry member (sound.of_mem member)

/-- What is read back from the text of a sound document is the document, laid out anew. -/
theorem parse_print
    {table : Table}
    (sound : (Value.table table).IsSound) :
    parse .established (print table) = .ok table.laidOut := by
  obtain ⟨statements, drafts, readBack⟩ := (isReadBack sound).1 table rfl
  obtain ⟨opened, built⟩ := readBack.builds
  have yields : Yields (print table) statements := by
    have body := readBack.yields []
    rwa [List.map_congr_left fun statement _ => statement.within_nil, List.map_id'] at body
  rw [← readBack.means, parse, yields.statements]
  simp only [bind, Except.bind, tableOf, built]
  rfl

/-! ## The layout does not change what a document says -/

theorem normal_laidOut
    {value : Value}
    (sound : value.IsSound) :
    value.laidOut.normal = value.normal := by
  induction value using Value.partInduction with
  | single value single =>
      have same : value.laidOut = value.respelled := by
        cases value with
        | array items => simp [Value.isSingle] at single
        | table entries => simp [Value.isSingle] at single
        | _ => rfl
      rw [same, normal_respelled sound]
  | array items induction =>
      rw [Value.isSound_array_iff] at sound
      rw [Value.laidOut, laidOutItems_eq_map, normal_array, normal_array, List.map_map]
      exact congrArg Value.array
        (List.map_congr_left fun item member => induction item member (sound item member))
  | table entries induction =>
      have plain : normalEntries (respelledEntries (plainEntries entries)) =
          normalEntries (plainEntries entries) := by
        rw [respelledEntries_eq_map, normalEntries, List.map_map]
        refine List.map_congr_left fun entry member => ?_
        exact congrArg (Prod.mk entry.1)
          (normal_respelled (sound.of_mem (List.mem_of_mem_filter member)))
      have headed : normalEntries (laidOutSections entries) =
          normalEntries (headedEntries entries) := by
        rw [laidOutSections_eq_map, normalEntries, List.map_map]
        refine List.map_congr_left fun entry member => ?_
        have inTable := List.mem_of_mem_filter member
        exact congrArg (Prod.mk entry.1) (induction entry inTable (sound.of_mem inTable))
      refine (normal_table_eq_of_perm sound.nodup ?_).symm
      rw [normalEntries_append, plain, headed, ← normalEntries_append]
      exact ((plainEntries_append_headedEntries_perm entries).map _).symm

end UnoBindgen.Toml
