import UnoBindgen.Proofs.Text.Split

/-!
# Marked lines of a text

Some lines of a generated text are found again by a test on the line alone, and what they announce
stands on the line behind them.  `withNext` lists these lines with their successors, and `Shows`
says what a fragment of whole lines adds to that list, whatever text follows the fragment.  A text
that is put together from such fragments shows what its fragments show, one after the other.

Where every line that matters can be read on its own, `readLines` lists what they say.
-/

namespace UnoBindgen.Text

/-! ## Texts that stay on one line -/

/-- The texts without a line feed and without a double quote. -/
def IsInline (text : Text) : Prop :=
  ∀ character ∈ text, character ≠ '\n' ∧ character ≠ '"'

instance : DecidablePred IsInline := fun text =>
  List.decidableBAll (fun character => character ≠ '\n' ∧ character ≠ '"') text

theorem IsInline.lineFeed_not_mem
    {text : Text}
    (inline : IsInline text) :
    '\n' ∉ text :=
  fun member => (inline '\n' member).1 rfl

theorem IsInline.quote_not_mem
    {text : Text}
    (inline : IsInline text) :
    '"' ∉ text :=
  fun member => (inline '"' member).2 rfl

@[simp]
theorem isInline_append (left right : Text) :
    IsInline (left ++ right) ↔ IsInline left ∧ IsInline right := by
  constructor
  · intro inline
    exact
      ⟨fun character member => inline character (List.mem_append_left right member),
        fun character member => inline character (List.mem_append_right left member)⟩
  · rintro ⟨leftInline, rightInline⟩ character member
    rcases List.mem_append.1 member with inLeft | inRight
    · exact leftInline character inLeft
    · exact rightInline character inRight

theorem isInline_join
    {separator : Text}
    (separatorInline : IsInline separator)
    {parts : List Text}
    (inline : ∀ part ∈ parts, IsInline part) :
    IsInline (join separator parts) := by
  intro character member
  rcases mem_join member with inSeparator | ⟨part, partMember, inPart⟩
  · exact separatorInline character inSeparator
  · exact inline part partMember character inPart

/-! ## Lines and their successors -/

/-- The lines that pass a test, each with the line behind it. -/
def withNext (test : Text → Bool) : List Text → List (Text × Option Text)
  | [] => []
  | line :: rest =>
    if test line then (line, rest.head?) :: withNext test rest else withNext test rest

theorem withNext_append_of_fails
    {test : Text → Bool}
    {lines : List Text}
    (fails : ∀ line ∈ lines, test line = false)
    (rest : List Text) :
    withNext test (lines ++ rest) = withNext test rest := by
  induction lines with
  | nil => rfl
  | cons line others induction =>
      rw [List.cons_append, withNext, fails line List.mem_cons_self]
      exact induction fun other member => fails other (List.mem_cons_of_mem line member)

/-- What stands behind a line that fails the test does not matter to the lines before it. -/
theorem withNext_append_cons_of_fails
    {test : Text → Bool}
    {line : Text}
    (fails : test line = false)
    (lines rest : List Text) :
    withNext test (lines ++ line :: rest) =
      withNext test (lines ++ [line]) ++ withNext test rest := by
  induction lines with
  | nil => simp [withNext, fails]
  | cons first others induction =>
      have sameHead : (others ++ line :: rest).head? = (others ++ [line]).head? := by
        cases others <;> rfl
      rw [List.cons_append, List.cons_append, withNext, withNext, sameHead, induction]
      split <;> rfl

/-! ## What a fragment shows -/

/-- A fragment of whole lines adds these entries to those of the text behind it. -/
def Shows
    (test : Text → Bool)
    (fragment : Text)
    (entries : List (Text × Option Text)) : Prop :=
  ∀ rest : Text,
    withNext test (lines (fragment ++ rest)) = entries ++ withNext test (lines rest)

namespace Shows

variable {test : Text → Bool}

theorem append
    {left right : Text}
    {leftEntries rightEntries : List (Text × Option Text)}
    (leftShows : Shows test left leftEntries)
    (rightShows : Shows test right rightEntries) :
    Shows test (left ++ right) (leftEntries ++ rightEntries) := by
  intro rest
  rw [List.append_assoc, leftShows, rightShows, List.append_assoc]

theorem flatMap
    {Item : Type}
    {items : List Item}
    {fragment : Item → Text}
    {entries : Item → List (Text × Option Text)}
    (itemShows : ∀ item ∈ items, Shows test (fragment item) (entries item)) :
    Shows test (items.flatMap fragment) (items.flatMap entries) := by
  induction items with
  | nil => exact fun rest => rfl
  | cons item others induction =>
      rw [List.flatMap_cons, List.flatMap_cons]
      exact (itemShows item List.mem_cons_self).append
        (induction fun other member => itemShows other (List.mem_cons_of_mem item member))

theorem flatMap_nothing
    {Item : Type}
    {items : List Item}
    {fragment : Item → Text}
    (itemShows : ∀ item ∈ items, Shows test (fragment item) []) :
    Shows test (items.flatMap fragment) [] := by
  have shown := flatMap itemShows
  rwa [List.flatMap_eq_nil_iff.2 fun _ _ => rfl] at shown

/-- Lines that all fail the test show nothing. -/
theorem nothing
    {text : Text}
    (fails : ∀ line ∈ lines text, test line = false) :
    Shows test (text ++ ['\n']) [] := by
  intro rest
  rw [List.append_assoc, List.singleton_append, lines, splitAt_append]
  exact withNext_append_of_fails fails (lines rest)

/-- A line that passes the test shows itself and its successor. -/
theorem marked
    {line next : Text}
    (lineWhole : '\n' ∉ line)
    (passes : test line = true)
    (nextWhole : '\n' ∉ next)
    (nextFails : test next = false) :
    Shows test (line ++ ['\n'] ++ next ++ ['\n']) [(line, some next)] := by
  intro rest
  have split :
      lines (line ++ ['\n'] ++ next ++ ['\n'] ++ rest) = line :: next :: lines rest := by
    have grouped :
        line ++ ['\n'] ++ next ++ ['\n'] ++ rest = line ++ '\n' :: (next ++ '\n' :: rest) := by
      simp
    rw [grouped, lines, splitAt_append, splitAt_append, splitAt_of_not_mem lineWhole,
      splitAt_of_not_mem nextWhole]
    rfl
  rw [split, withNext, passes, withNext, nextFails]
  rfl

/-- A single line that fails the test shows nothing. -/
theorem line
    {line : Text}
    (whole : '\n' ∉ line)
    (fails : test line = false) :
    Shows test (line ++ ['\n']) [] := by
  apply nothing
  intro other member
  rw [lines, splitAt_of_not_mem whole, List.mem_singleton] at member
  rw [member]
  exact fails

theorem blank
    (fails : test [] = false) :
    Shows test ['\n'] [] := by
  have empty : Shows test ([] ++ ['\n']) [] := line (by simp) fails
  exact empty

/-- Whole lines without a character show nothing to a test that looks for it. -/
theorem unmarked
    {mark : Char}
    (marked : ∀ line, test line = true → mark ∈ line)
    {text : Text}
    (whole : text.getLast? = some '\n')
    (noMark : mark ∉ text) :
    Shows test text [] := by
  obtain ⟨body, rfl⟩ := List.getLast?_eq_some_iff.1 whole
  apply nothing
  intro line member
  cases passes : test line with
  | false => rfl
  | true =>
      have inBody : mark ∈ join ['\n'] (lines body) :=
        mem_join_of_mem ['\n'] member (marked line passes)
      rw [lines, join_splitAt] at inBody
      exact (noMark (List.mem_append_left ['\n'] inBody)).elim

end Shows

/-! ## Texts of whole lines -/

/-- The text of whole lines. -/
def unlines (parts : List Text) : Text :=
  parts.flatMap fun part => part ++ ['\n']

theorem unlines_cons
    (part : Text)
    (parts : List Text) :
    unlines (part :: parts) = part ++ '\n' :: unlines parts := by
  simp [unlines]

theorem unlines_append (left right : List Text) :
    unlines (left ++ right) = unlines left ++ unlines right :=
  List.flatMap_append

/-- Whole lines are found again, whatever text follows them. -/
theorem lines_unlines_append
    {parts : List Text}
    (whole : ∀ part ∈ parts, '\n' ∉ part)
    (rest : Text) :
    lines (unlines parts ++ rest) = parts ++ lines rest := by
  induction parts with
  | nil => rfl
  | cons part others induction =>
      rw [List.forall_mem_cons] at whole
      rw [unlines_cons, List.append_assoc, List.cons_append, lines, splitAt_append,
        splitAt_of_not_mem whole.1, ← lines, induction whole.2]
      rfl

theorem lines_unlines
    {parts : List Text}
    (whole : ∀ part ∈ parts, '\n' ∉ part) :
    lines (unlines parts) = parts ++ [[]] := by
  have ended := lines_unlines_append whole []
  rwa [List.append_nil] at ended

/-- Whole lines that fail a test show nothing to it. -/
theorem Shows.unlines
    {test : Text → Bool}
    {parts : List Text}
    (whole : ∀ part ∈ parts, '\n' ∉ part)
    (fails : ∀ part ∈ parts, test part = false) :
    Shows test (unlines parts) [] := by
  intro rest
  rw [lines_unlines_append whole]
  exact withNext_append_of_fails fails (lines rest)

/-- Whole lines before a text take nothing from its lines. -/
theorem mem_lines_unlines_append
    {line : Text}
    {rest : Text}
    (member : line ∈ lines rest)
    (parts : List Text) :
    line ∈ lines (unlines parts ++ rest) := by
  induction parts with
  | nil => exact member
  | cons part others induction =>
      rw [unlines_cons, List.append_assoc, List.cons_append, lines, splitAt_append]
      exact List.mem_append_right _ induction

theorem mem_lines_between
    {line : Text}
    (whole : '\n' ∉ line)
    (before after : Text) :
    line ∈ lines (before ++ '\n' :: (line ++ '\n' :: after)) := by
  rw [lines, splitAt_append, splitAt_append, splitAt_of_not_mem whole]
  simp

theorem exists_unlines_flatMap
    {Item : Type}
    {fragment : Item → Text}
    {items : List Item}
    (each : ∀ item ∈ items, ∃ parts, fragment item = unlines parts) :
    ∃ parts, items.flatMap fragment = unlines parts := by
  induction items with
  | nil => exact ⟨[], rfl⟩
  | cons item others induction =>
      rw [List.forall_mem_cons] at each
      obtain ⟨first, firstSplit⟩ := each.1
      obtain ⟨rest, restSplit⟩ := induction each.2
      exact ⟨first ++ rest, by rw [List.flatMap_cons, firstSplit, restSplit, unlines_append]⟩

/-- What follows a text without line feeds continues its line. -/
theorem exists_lines_append
    {before : Text}
    (whole : '\n' ∉ before)
    (rest : Text) :
    ∃ line others,
      lines rest = line :: others ∧ lines (before ++ rest) = (before ++ line) :: others := by
  induction before with
  | nil =>
      obtain ⟨line, others, split⟩ := List.exists_cons_of_ne_nil (splitAt_ne_nil '\n' rest)
      exact ⟨line, others, split, split⟩
  | cons character before induction =>
      rw [List.mem_cons, not_or] at whole
      obtain ⟨line, others, split, continued⟩ := induction whole.2
      exact ⟨line, others, split, splitAt_cons_other (Ne.symm whole.1) continued⟩

/-- What a text says to a reader of single lines, who passes over those that mean nothing. -/
def readLines {Item : Type} (read? : Text → Option Item) (text : Text) : List Item :=
  (lines text).filterMap read?

/-- A line that means something to the reader passes a test for that. -/
theorem readLines_eq_filterMap_withNext
    {Item : Type}
    (read? : Text → Option Item)
    (text : Text) :
    readLines read? text =
      (withNext (fun line => (read? line).isSome) (lines text)).filterMap fun entry =>
        read? entry.1 := by
  rw [readLines]
  induction lines text with
  | nil => rfl
  | cons line others induction =>
      rw [withNext]
      cases read : read? line with
      | none => simp [read, induction]
      | some item => simp [read, induction]

theorem readLines_unlines
    {Item : Type}
    {read? : Text → Option Item}
    (emptyUnread : read? [] = none)
    {parts : List Text}
    (whole : ∀ part ∈ parts, '\n' ∉ part) :
    readLines read? (unlines parts) = parts.filterMap read? := by
  rw [readLines, lines_unlines whole, List.filterMap_append]
  simp [emptyUnread]

/-! ## The end of a text -/

/-- Only line feeds are removed. -/
theorem exists_dropFinalLineFeeds (text : Text) :
    ∃ count : Nat, text = text.dropFinalLineFeeds ++ List.replicate count '\n' := by
  refine ⟨(text.reverse.takeWhile (· == '\n')).length, ?_⟩
  have onlyLineFeeds :
      text.reverse.takeWhile (· == '\n') =
        List.replicate (text.reverse.takeWhile (· == '\n')).length '\n' := by
    rw [List.eq_replicate_iff]
    have all : (text.reverse.takeWhile (· == '\n')).all (· == '\n') = true :=
      List.all_takeWhile
    exact ⟨rfl, fun character member => by simpa using List.all_eq_true.1 all character member⟩
  rw [dropFinalLineFeeds, ← List.reverse_replicate, ← onlyLineFeeds, ← List.reverse_append,
    List.takeWhile_append_dropWhile, List.reverse_reverse]

theorem lines_append_replicate
    (text : Text)
    (count : Nat) :
    lines (text ++ List.replicate count '\n') = lines text ++ List.replicate count [] := by
  induction count with
  | zero => simp
  | succ count induction =>
      rw [List.replicate_succ', ← List.append_assoc, lines, splitAt_append, ← lines, induction,
        List.replicate_succ', List.append_assoc]
      rfl

/-- Line feeds at the end of a text say nothing to a reader who passes over empty lines. -/
theorem readLines_tidied
    {Item : Type}
    {read? : Text → Option Item}
    (emptyUnread : read? [] = none)
    (text : Text) :
    readLines read? (text.dropFinalLineFeeds ++ ['\n']) = readLines read? text := by
  obtain ⟨count, split⟩ := exists_dropFinalLineFeeds text
  have silent (number : Nat) : (List.replicate number []).filterMap read? = [] := by
    rw [List.filterMap_eq_nil_iff]
    intro line member
    rw [List.eq_of_mem_replicate member]
    exact emptyUnread
  have once := lines_append_replicate text.dropFinalLineFeeds 1
  rw [List.replicate_one, List.replicate_one] at once
  conv => rhs; rw [split]
  rw [readLines, readLines, once, lines_append_replicate, List.filterMap_append,
    List.filterMap_append, silent count]
  simp [emptyUnread]

/-- A text that ends in exactly one line feed instead of any number of them still shows the
same, to a test that passes over empty lines. -/
theorem Shows.withNext_tidied
    {test : Text → Bool}
    (emptyFails : test [] = false)
    {text : Text}
    {entries : List (Text × Option Text)}
    (shows : Shows test text entries) :
    withNext test (lines (text.dropFinalLineFeeds ++ ['\n'])) = entries := by
  obtain ⟨count, split⟩ := exists_dropFinalLineFeeds text
  have silent (number : Nat) : withNext test (List.replicate number []) = [] := by
    induction number with
    | zero => rfl
    | succ number induction => simpa [List.replicate_succ, withNext, emptyFails] using induction
  have extended :
      lines (text ++ ['\n']) = lines text.dropFinalLineFeeds ++ [] :: List.replicate count [] := by
    conv => lhs; rw [split]
    rw [List.append_assoc, ← List.replicate_succ', lines_append_replicate]
    rfl
  have whole := shows ['\n']
  rw [extended, withNext_append_cons_of_fails emptyFails, silent count, List.append_nil] at whole
  rw [lines, splitAt_append]
  refine whole.trans ?_
  simp [lines, splitAt, withNext, emptyFails]

end UnoBindgen.Text
