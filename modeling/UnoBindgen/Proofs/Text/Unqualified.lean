import Mathlib
import UnoBindgen.Proofs.Identifier

/-!
# The unqualified names of a C++ text

A name in a C++ text is looked up in the scopes around it unless it stands behind `::`, `.` or `->`,
and a name in front of `::` is looked up among types and namespaces only.  `unqualifiedNames` lists
the remaining names of a text in order, with repetitions, and passes over string literals.

A text is read from left to right, and at a character that neither belongs to a name nor
qualifies one, the reading starts anew.  So a fragment that ends in such a boundary mentions its
names whatever text follows it, and a text that is put together from such fragments mentions what
its fragments mention.
-/

namespace UnoBindgen.Text

/-! ## Reading -/

/-- What a text consists of as far as qualification is concerned. -/
inductive Piece where
  | character (character : Char)
  /-- The mark `::`. -/
  | scope
  /-- The mark `.` or `->`. -/
  | member
  deriving DecidableEq, Repr

/-- The pieces of a text. -/
def pieces : Text → List Piece
  | ':' :: ':' :: rest => .scope :: pieces rest
  | '-' :: '>' :: rest => .member :: pieces rest
  | '.' :: rest => .member :: pieces rest
  | character :: rest => .character character :: pieces rest
  | [] => []

/-- A word that counts: an identifier without a qualification in front of it. -/
def kept (qualified : Bool) (word : Text) : List Text :=
  if !qualified && isIdentifier word then [word] else []

/-- The unqualified names in the pieces of a text.  `word` holds the characters of the word that is
being read, and `qualified` says whether a qualification stands in front of it. -/
def namesFrom (qualified : Bool) (word : Text) : List Piece → List Text
  | [] => kept qualified word
  | .scope :: rest => namesFrom true [] rest
  | .member :: rest => kept qualified word ++ namesFrom true [] rest
  | .character character :: rest =>
    if Identifier.isFollowing character then
      namesFrom qualified (word ++ [character]) rest
    else
      kept qualified word ++ namesFrom false [] rest

/-- The first, third, fifth and so on of some texts. -/
def everyOther : List Text → List Text
  | [] => []
  | [part] => [part]
  | part :: _ :: rest => part :: everyOther rest

/-- A text with a blank in place of each string literal. -/
def withoutLiterals (text : Text) : Text :=
  join " " (everyOther (splitAt '"' text))

/-- The unqualified names of a text without string literals. -/
def plainNames (text : Text) : List Text :=
  namesFrom false [] (pieces text)

/-- The unqualified names of a text, in order and with repetitions. -/
def unqualifiedNames (text : Text) : List Text :=
  plainNames (withoutLiterals text)

theorem withoutLiterals_of_literal
    {before literal after : Text}
    (beforeFree : '"' ∉ before)
    (literalFree : '"' ∉ literal)
    (afterFree : '"' ∉ after) :
    withoutLiterals (before ++ '"' :: (literal ++ '"' :: after)) = before ++ ' ' :: after := by
  rw [withoutLiterals, splitAt_append, splitAt_append, splitAt_of_not_mem beforeFree,
    splitAt_of_not_mem literalFree, splitAt_of_not_mem afterFree]
  simp [everyOther, join]

/-! ## Boundaries -/

/-- The characters that neither belong to a name nor qualify one. -/
def isBoundary (character : Char) : Bool :=
  !Identifier.isFollowing character && !([':', '.', '-', '>'] : Text).contains character

theorem pieces_cons
    {character : Char}
    (plain : character ∉ [':', '.', '-'])
    (rest : Text) :
    pieces (character :: rest) = .character character :: pieces rest := by
  simp only [List.mem_cons, List.not_mem_nil, or_false, not_or] at plain
  rw [pieces]
  · rintro - rfl
    exact (plain.1 rfl).elim
  · rintro - rfl
    exact (plain.2.2 rfl).elim
  · rintro rfl
    exact plain.2.1 rfl

theorem isFollowing_of_isBoundary
    {character : Char}
    (boundary : isBoundary character = true) :
    Identifier.isFollowing character = false := by
  simp only [isBoundary, Bool.and_eq_true, Bool.not_eq_true'] at boundary
  exact boundary.1

theorem not_mem_of_isBoundary
    {character : Char}
    (boundary : isBoundary character = true) :
    character ∉ [':', '.', '-', '>'] := by
  simp only [isBoundary, Bool.and_eq_true, Bool.not_eq_true'] at boundary
  intro member
  rw [List.contains_iff_mem.2 member] at boundary
  exact absurd boundary.2 (by decide)

/-- A boundary is never part of a mark that began before it. -/
theorem pieces_append
    {boundary : Char}
    (isBoundary : isBoundary boundary = true)
    (text after : Text) :
    pieces (text ++ boundary :: after) = pieces text ++ .character boundary :: pieces after := by
  have outside := not_mem_of_isBoundary isBoundary
  simp only [List.mem_cons, List.not_mem_nil, or_false, not_or] at outside
  fun_induction pieces text with
  | case1 rest induction => simp [pieces, induction]
  | case2 rest induction => simp [pieces, induction]
  | case3 rest induction => simp [pieces, induction]
  | case4 character rest noScope noArrow noDot induction =>
      rw [List.cons_append, pieces, induction, List.cons_append]
      · intro later isColon continued
        cases rest with
        | nil => exact outside.1 (List.cons.inj continued).1
        | cons next others =>
            obtain ⟨rfl, -⟩ := List.cons.inj continued
            exact noScope others isColon rfl
      · intro later isDash continued
        cases rest with
        | nil => exact outside.2.2.2 (List.cons.inj continued).1
        | cons next others =>
            obtain ⟨rfl, -⟩ := List.cons.inj continued
            exact noArrow others isDash rfl
      · exact noDot
  | case5 =>
      rw [List.nil_append, pieces_cons]
      · rfl
      · simp [outside.1, outside.2.1, outside.2.2.1]

theorem namesFrom_append
    {boundary : Char}
    (outside : Identifier.isFollowing boundary = false)
    (qualified : Bool)
    (word : Text)
    (before after : List Piece) :
    namesFrom qualified word (before ++ .character boundary :: after) =
      namesFrom qualified word before ++ namesFrom false [] after := by
  induction before generalizing qualified word with
  | nil => simp [namesFrom, outside]
  | cons piece rest induction =>
      cases piece with
      | scope => simp [namesFrom, induction]
      | member => simp [namesFrom, induction]
      | character character =>
          by_cases following : Identifier.isFollowing character = true
          · simp [namesFrom, following, induction]
          · simp [namesFrom, following, induction]

theorem plainNames_append
    {boundary : Char}
    (isBoundary : isBoundary boundary = true)
    (text after : Text) :
    plainNames (text ++ boundary :: after) = plainNames text ++ plainNames after := by
  rw [plainNames, pieces_append isBoundary,
    namesFrom_append (isFollowing_of_isBoundary isBoundary)]
  rfl

/-! ## Words -/

theorem pieces_append_of_isFollowing
    {word : Text}
    (following : ∀ character ∈ word, Identifier.isFollowing character = true)
    (rest : Text) :
    pieces (word ++ rest) = word.map .character ++ pieces rest := by
  induction word with
  | nil => rfl
  | cons character others induction =>
      rw [List.forall_mem_cons] at following
      have plain : character ∉ [':', '.', '-'] := by
        intro member
        simp only [List.mem_cons, List.not_mem_nil, or_false] at member
        rcases member with rfl | rfl | rfl
        · exact absurd following.1 (by decide)
        · exact absurd following.1 (by decide)
        · exact absurd following.1 (by decide)
      rw [List.cons_append, pieces_cons plain, induction following.2, List.map_cons,
        List.cons_append]

theorem namesFrom_append_of_isFollowing
    {word : Text}
    (following : ∀ character ∈ word, Identifier.isFollowing character = true)
    (qualified : Bool)
    (before : Text)
    (rest : List Piece) :
    namesFrom qualified before (word.map .character ++ rest) =
      namesFrom qualified (before ++ word) rest := by
  induction word generalizing before with
  | nil => simp
  | cons character others induction =>
      rw [List.forall_mem_cons] at following
      rw [List.map_cons, List.cons_append, namesFrom, if_pos following.1,
        induction following.2, List.append_assoc, List.singleton_append]

/-- A single word counts when nothing qualifies it. -/
theorem namesFrom_word
    {word : Text}
    (following : ∀ character ∈ word, Identifier.isFollowing character = true)
    (qualified : Bool) :
    namesFrom qualified [] (pieces word) = kept qualified word := by
  have read := namesFrom_append_of_isFollowing following qualified [] []
  have split := pieces_append_of_isFollowing following []
  rw [List.append_nil] at split
  rw [split]
  exact read

/-- Of the parts of a qualified name only the first could count, and it does so when it is the
only one. -/
theorem namesFrom_scoped
    {segments : List Text}
    (identifiers : ∀ segment ∈ segments, isIdentifier segment = true)
    (qualified : Bool) :
    namesFrom qualified [] (pieces (join "::" segments)) =
      if qualified = false ∧ segments.length = 1 then segments else [] := by
  induction segments generalizing qualified with
  | nil => simp [pieces, namesFrom, kept, isIdentifier]
  | cons segment rest induction =>
      rw [List.forall_mem_cons] at identifiers
      have following : ∀ character ∈ segment, Identifier.isFollowing character = true :=
        fun _ => isFollowing_of_mem_isIdentifier identifiers.1
      cases rest with
      | nil =>
          rw [join_singleton, namesFrom_word following, kept]
          cases qualified <;> simp [identifiers.1]
      | cons next others =>
          have scope : (("::" : Text) ++ join "::" (next :: others)) =
              ':' :: ':' :: join "::" (next :: others) := rfl
          rw [join_cons _ segment (List.cons_ne_nil next others), List.append_assoc,
            pieces_append_of_isFollowing following, namesFrom_append_of_isFollowing following,
            scope, pieces, namesFrom, induction identifiers.2 true]
          simp

/-! ## What a fragment mentions -/

/-- A fragment adds these names to those of the text behind it. -/
def Mentions (fragment : Text) (names : List Text) : Prop :=
  ∀ rest : Text, plainNames (fragment ++ rest) = names ++ plainNames rest

namespace Mentions

theorem nothing : Mentions [] [] :=
  fun _ => rfl

theorem append
    {left right : Text}
    {leftNames rightNames : List Text}
    (leftMentions : Mentions left leftNames)
    (rightMentions : Mentions right rightNames) :
    Mentions (left ++ right) (leftNames ++ rightNames) := by
  intro rest
  rw [List.append_assoc, leftMentions, rightMentions, List.append_assoc]

theorem whole
    {text : Text}
    {names : List Text}
    (mentions : Mentions text names) :
    plainNames text = names := by
  have alone := mentions []
  rw [List.append_nil] at alone
  rw [alone]
  simp [plainNames, pieces, namesFrom, kept, isIdentifier]

/-- A text that ends in a boundary mentions its own names. -/
theorem ofBoundary
    (text : Text)
    (boundary : Char)
    (isBoundary : isBoundary boundary = true) :
    Mentions (text ++ [boundary]) (plainNames text) := by
  intro rest
  rw [List.append_assoc, List.singleton_append, plainNames_append isBoundary]

/-- The same for a given text, where its names are known. -/
theorem literal
    {text : Text}
    {names : List Text}
    (ends : text.getLast?.any isBoundary = true)
    (known : plainNames text = names) :
    Mentions text names := by
  obtain ⟨boundary, isLast, bounds⟩ := (Option.any_eq_true _ _).1 ends
  obtain ⟨front, rfl⟩ := List.getLast?_eq_some_iff.1 isLast
  have same : plainNames front = names := by
    rw [← known, plainNames_append bounds]
    simp [plainNames, pieces, namesFrom, kept, isIdentifier]
  rw [← same]
  exact ofBoundary front boundary bounds

theorem word
    {name : Text}
    (identifier : isIdentifier name = true)
    (boundary : Char)
    (isBoundary : isBoundary boundary = true) :
    Mentions (name ++ [boundary]) [name] := by
  have following : ∀ character ∈ name, Identifier.isFollowing character = true :=
    fun _ => isFollowing_of_mem_isIdentifier identifier
  have alone : plainNames name = [name] := by
    rw [plainNames, namesFrom_word following, kept, identifier]
    rfl
  rw [← alone]
  exact ofBoundary name boundary isBoundary

end Mentions

end UnoBindgen.Text
