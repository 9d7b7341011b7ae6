import UnoBindgen.Proofs.Toml.Inline

/-!
# Printed lines are read back

A printed table is a row of lines, and the statements of the row are the statements of its lines one
behind the other.  A header names the path of its table, and a line below it names a key and its
value; the lines of a table say the same under every path.
-/

namespace UnoBindgen.Toml

/-! ## Rows of lines -/

/-- Whether a text of whole lines is read as given statements, whatever comes behind. -/
structure Yields (text : Text) (statements : List Statement) : Prop where
  short : statements.length ≤ text.length
  read :
    ∀ steps rest,
      readStatements .established (statements.length + steps) (text ++ rest) =
        (readStatements .established steps rest).map (statements ++ ·)

namespace Yields

theorem nil : Yields [] [] where
  short := Nat.le_refl _
  read := by
    intro steps rest
    cases h : readStatements .established steps rest <;> simp [h, Except.map]

theorem append
    {text more : Text}
    {statements others : List Statement}
    (first : Yields text statements)
    (second : Yields more others) :
    Yields (text ++ more) (statements ++ others) where
  short := by
    rw [List.length_append, List.length_append]
    exact Nat.add_le_add first.short second.short
  read := by
    intro steps rest
    rw [List.append_assoc, List.length_append, Nat.add_assoc, first.read, second.read]
    cases readStatements .established steps rest <;> simp [Except.map]

/-- An empty line says nothing. -/
theorem lineBreak : Yields ['\n'] [] where
  short := Nat.zero_le _
  read := by
    intro steps rest
    cases steps with
    | zero => rfl
    | succ steps =>
        have same : dropLayout ((['\n'] ++ rest).length + 1) (['\n'] ++ rest) =
            dropLayout (rest.length + 1) rest := rfl
        rw [List.length_nil, Nat.zero_add, readStatements, same, ← readStatements]
        cases readStatements .established (steps + 1) rest <;> simp [Except.map]

/-- A line that holds one statement. -/
theorem line
    {text : Text}
    {statement : Statement}
    (starts : ∃ first tail, text = first :: tail ∧ IsSolid first)
    (read :
      ∀ rest, readStatement .established (text ++ '\n' :: rest) = .ok (statement, '\n' :: rest)) :
    Yields (text ++ ['\n']) [statement] where
  short := by simp
  read := by
    intro steps rest
    obtain ⟨first, tail, rfl, solid⟩ := starts
    have start := dropLayout_append isBlank_nil solid
    have ended : dropLineEnd ('\n' :: rest) = .ok rest := rfl
    have found := read rest
    rw [List.append_assoc, List.singleton_append, List.length_singleton, Nat.add_comm,
      readStatements]
    simp only [List.cons_append, List.nil_append] at start found ⊢
    simp only [start, found, ended, bind, Except.bind]
    cases readStatements .established steps rest <;> rfl

/-- Lines between which empty ones stand. -/
theorem join
    {texts : List Text}
    {statements : List (List Statement)}
    (yields : List.Forall₂ Yields texts statements) :
    Yields (Text.join ['\n'] texts) statements.flatten := by
  induction yields with
  | nil => exact nil
  | @cons text statements texts others first later induction =>
      by_cases last : texts = []
      · subst last
        obtain rfl := List.forall₂_nil_left_iff.1 later
        simpa using first
      · rw [Text.join_cons _ _ last, List.flatten_cons]
        simpa using (first.append lineBreak).append induction

/-- A text of whole lines has the statements of its lines. -/
theorem statements
    {text : Text}
    {statements : List Statement}
    (yields : Yields text statements) :
    Toml.statements .established text = .ok statements := by
  have whole : Toml.statements .established text =
      readStatements .established (text.length + 1) text := by
    cases text <;> simp [Toml.statements]
  obtain ⟨more, long⟩ := Nat.exists_eq_add_of_le yields.short
  have read := yields.read (more + 1) []
  rw [← Nat.add_assoc, ← long, List.append_nil] at read
  rw [whole, read, readStatements]
  simp [dropLayout, dropSpacing, bind, Except.bind, pure, Except.pure, Except.map]

end Yields

/-! ## Headers -/

theorem length_le_printKey (path : KeyPath) :
    path.length ≤ (printKey path).length := by
  induction path with
  | nil => exact Nat.zero_le _
  | cons part more induction =>
      obtain ⟨first, tail, printed, -⟩ := exists_printKeyPart part
      by_cases single : more = []
      · subst single
        rw [printKey_singleton, printed]
        simp
      · rw [printKey_cons part single, List.length_cons, List.length_append, List.length_cons]
        omega

/-- A printed path is read up to the brackets behind it. -/
theorem readHeader_printKey
    {path : KeyPath}
    (nonempty : path ≠ [])
    (brackets rest : Text) :
    readHeader .established (']' :: brackets) (printKey path ++ (']' :: brackets ++ rest)) =
      .ok (path, rest) := by
  have ends : EndsKey (']' :: brackets ++ rest) := ⟨_, Or.inr rfl⟩
  have long := length_le_printKey path
  have start :
      dropSpacing (printKey path ++ (']' :: brackets ++ rest)) =
        printKey path ++ (']' :: brackets ++ rest) := by
    obtain ⟨first, tail, printed, starts⟩ := exists_printKey nonempty
    rw [printed]
    exact dropSpacing_append isBlank_nil (isSolid_of_startsKey starts) _
  have enough : path.length ≤ (printKey path ++ (']' :: brackets ++ rest)).length + 1 := by
    rw [List.length_append]
    omega
  have key := readKey_printKey nonempty enough ends
  have closing : dropSpacing (']' :: brackets ++ rest) = ']' :: brackets ++ rest :=
    dropSpacing_append isBlank_nil (by decide) _
  rw [readHeader, start, key, closing]
  simp only [bind, Except.bind, Text.dropInitial?_append]
  rfl

/-- A header opens the table at its path. -/
theorem yields_openTable
    {path : KeyPath}
    (nonempty : path ≠ []) :
    Yields ('[' :: printKey path ++ [']', '\n']) [.openTable path] := by
  have line : Yields (('[' :: printKey path ++ [']']) ++ ['\n']) [.openTable path] := by
    refine .line ⟨_, _, rfl, by decide⟩ fun rest => ?_
    have header := readHeader_printKey nonempty [] ('\n' :: rest)
    obtain ⟨first, tail, printed, starts⟩ := exists_printKey nonempty
    have noBracket : first ≠ '[' := by
      rintro rfl
      exact absurd starts (by decide)
    simp only [printed, List.cons_append, List.append_assoc, List.nil_append] at header ⊢
    rw [readStatement]
    · rw [header]
      rfl
    · exact fun rest same => noBracket (List.cons.inj same).1
  simpa using line

/-- A header in double brackets opens one more table of the array at its path. -/
theorem yields_openArrayItem
    {path : KeyPath}
    (nonempty : path ≠ []) :
    Yields ('[' :: '[' :: printKey path ++ [']', ']', '\n']) [.openArrayItem path] := by
  have line : Yields (('[' :: '[' :: printKey path ++ [']', ']']) ++ ['\n']) [.openArrayItem path] := by
    refine .line ⟨_, _, rfl, by decide⟩ fun rest => ?_
    have header := readHeader_printKey nonempty [']'] ('\n' :: rest)
    simp only [List.cons_append, List.append_assoc, List.nil_append] at header ⊢
    rw [readStatement, header]
    rfl
  simpa using line

/-- A line with an entry gives a key of the open table its value. -/
theorem yields_entry
    {entry : Text × Value}
    {literal : Literal}
    (readBack : ReadsBack entry.2 literal) :
    Yields (printPair entry ++ ['\n']) [.entry [entry.1] literal] := by
  obtain ⟨first, tail, printed, starts⟩ := exists_printPair entry
  refine .line ⟨first, tail, printed, isSolid_of_startsKey starts⟩ fun rest => ?_
  have key := readKey_printPair entry (printPair entry ++ '\n' :: rest).length ('\n' :: rest)
  have value := readBack.dropSpacing_printInline ('\n' :: rest)
  have enough : (printInline entry.2).length ≤ (printInline entry.2 ++ '\n' :: rest).length + 1 := by
    rw [List.length_append]
    omega
  have read := readBack.read enough (by simp [EndsValue] : EndsValue ('\n' :: rest))
  have noBracket : first ≠ '[' := by
    rintro rfl
    exact absurd starts (by decide)
  simp only [printed, List.cons_append] at key ⊢
  rw [readStatement]
  · simp only [key, value, read, bind, Except.bind]
    rfl
  · exact fun rest same => noBracket (List.cons.inj same).1
  · exact fun rest same => noBracket (List.cons.inj same).1

/-! ## Statements of tables inside tables -/

/-- A statement of a table, as it stands in the table around it. -/
def Statement.within (outer : KeyPath) : Statement → Statement
  | .openTable path => .openTable (outer ++ path)
  | .openArrayItem path => .openArrayItem (outer ++ path)
  | .entry path value => .entry path value

@[simp]
theorem Statement.within_nil (statement : Statement) :
    statement.within [] = statement := by
  cases statement <;> rfl

@[simp]
theorem Statement.within_within
    (outer inner : KeyPath)
    (statement : Statement) :
    (statement.within inner).within outer = statement.within (outer ++ inner) := by
  cases statement <;> simp [Statement.within]

/-! ## The lines of a table -/

/-- The entries of a table that are printed on one line. -/
def plainEntries (entries : Table) : Table :=
  entries.filter fun entry => !entry.2.hasHeader

/-- The entries of a table that are printed under headers. -/
def headedEntries (entries : Table) : Table :=
  entries.filter fun entry => entry.2.hasHeader

theorem printPairs_eq_flatMap (entries : Table) :
    printPairs entries = (plainEntries entries).flatMap fun entry => printPair entry ++ ['\n'] := by
  induction entries with
  | nil => rfl
  | cons entry rest induction =>
      obtain ⟨key, value⟩ := entry
      rw [printPairs, plainEntries] at induction ⊢
      rw [List.flatMap_cons, induction, List.filter_cons]
      cases headed : value.hasHeader <;> simp [headed, printPair]

theorem printSections_eq_map
    (path : KeyPath)
    (entries : Table) :
    printSections path entries =
      (headedEntries entries).map fun entry => printSection (path ++ [entry.1]) entry.2 := by
  induction entries with
  | nil => rfl
  | cons entry rest induction =>
      obtain ⟨key, value⟩ := entry
      rw [printSections, headedEntries, List.filter_cons]
      cases headed : value.hasHeader <;> simp [induction, headedEntries]

/-- The statement of a plain entry. -/
def entryStatement (written : KeyPath × Literal) : Statement :=
  .entry written.1 written.2

theorem yields_printPairs
    {entries : Table}
    {written : List (KeyPath × Literal)}
    (readBack : List.Forall₂ PairReadsBack (plainEntries entries) written) :
    Yields (printPairs entries) (written.map entryStatement) := by
  rw [printPairs_eq_flatMap]
  generalize plainEntries entries = plain at readBack
  induction readBack with
  | nil => exact .nil
  | @cons entry written entries others first _ induction =>
      obtain ⟨path, literal⟩ := written
      obtain ⟨rfl, valueReadBack⟩ := first
      exact (yields_entry valueReadBack).append induction

/-- Behind the plain entries of a table come its inner tables. -/
theorem yields_printBody
    {entries : Table}
    {pairs : List Statement}
    (yieldsPairs : Yields (printPairs entries) pairs)
    {texts : List Text}
    {inner : List (List Statement)}
    (yieldsInner : List.Forall₂ Yields texts inner) :
    Yields (printBody entries texts) (pairs ++ inner.flatten) := by
  rw [printBody]
  split
  · exact yieldsPairs.append (.join yieldsInner)
  · simpa using (yieldsPairs.append .lineBreak).append (.join yieldsInner)

end UnoBindgen.Toml
