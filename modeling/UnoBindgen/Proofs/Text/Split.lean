import UnoBindgen.Text.Basic

/-!
# Splitting and joining

Splitting a text at a character and joining pieces with that character undo each other: always
in one direction, and in the other for pieces that do not hold the character themselves.  Joins
of such pieces are therefore injective, which is how every view of a module path tells distinct
paths apart.
-/

namespace UnoBindgen.Text

/-! ## Joining -/

@[simp]
theorem join_nil (separator : Text) :
    join separator [] = [] := rfl

@[simp]
theorem join_singleton (separator part : Text) :
    join separator [part] = part := rfl

theorem join_cons
    (separator part : Text)
    {rest : List Text}
    (nonempty : rest ≠ []) :
    join separator (part :: rest) =
      part ++ separator ++ join separator rest := by
  cases rest with
  | nil => exact (nonempty rfl).elim
  | cons next others => rfl

/-- A join starts with its first piece. -/
theorem join_ne_nil
    (separator : Text)
    {parts : List Text}
    (nonempty : parts ≠ [])
    (solid : ∀ part ∈ parts, part ≠ []) :
    join separator parts ≠ [] := by
  cases parts with
  | nil => exact (nonempty rfl).elim
  | cons part rest =>
      have partSolid : part ≠ [] := solid part List.mem_cons_self
      cases rest with
      | nil => exact partSolid
      | cons next others =>
          rw [join_cons separator part (List.cons_ne_nil next others)]
          simp [partSolid]

/-- A piece added at the end stands behind one more separator, unless it is the only one. -/
theorem join_concat
    (separator last : Text)
    (parts : List Text) :
    join separator (parts ++ [last]) =
      if parts.isEmpty then last
      else join separator parts ++ separator ++ last := by
  induction parts with
  | nil => rfl
  | cons part rest induction =>
      cases rest with
      | nil => rfl
      | cons next others =>
          have behind : (next :: others) ++ [last] ≠ [] := by simp
          rw [List.cons_append, join_cons separator part behind, induction,
            join_cons separator part (List.cons_ne_nil next others)]
          simp

theorem map_join
    (change : Char → Char)
    (separator : Text)
    (parts : List Text) :
    (join separator parts).map change =
      join (separator.map change) (parts.map (List.map change)) := by
  induction parts with
  | nil => rfl
  | cons part rest induction =>
      cases rest with
      | nil => rfl
      | cons next others =>
          have behind : (next :: others).map (List.map change) ≠ [] := by simp
          rw [join_cons separator part (List.cons_ne_nil next others), List.map_cons,
            join_cons (separator.map change) (part.map change) behind, ← induction]
          simp only [List.map_append]

theorem join_cons_eq_append_flatten
    (separator first : Text)
    (rest : List Text) :
    join separator (first :: rest) = first ++ (rest.map (separator ++ ·)).flatten := by
  induction rest generalizing first with
  | nil => simp
  | cons next others induction =>
      rw [join_cons separator first (List.cons_ne_nil next others), induction]
      simp

/-- A character of a join is one of the separator or of a piece. -/
theorem mem_join
    {separator : Text}
    {parts : List Text}
    {character : Char}
    (member : character ∈ join separator parts) :
    character ∈ separator ∨ ∃ part ∈ parts, character ∈ part := by
  induction parts with
  | nil => simp at member
  | cons part rest induction =>
      cases rest with
      | nil => exact Or.inr ⟨part, List.mem_singleton_self part, member⟩
      | cons next others =>
          rw [join_cons separator part (List.cons_ne_nil next others)] at member
          rcases List.mem_append.1 member with front | inRest
          · rcases List.mem_append.1 front with inPart | inSeparator
            · exact Or.inr ⟨part, List.mem_cons_self, inPart⟩
            · exact Or.inl inSeparator
          · rcases induction inRest with inSeparator | ⟨other, otherMember, inOther⟩
            · exact Or.inl inSeparator
            · exact Or.inr ⟨other, List.mem_cons_of_mem part otherMember, inOther⟩

theorem mem_join_of_mem
    (separator : Text)
    {parts : List Text}
    {part : Text}
    (partMember : part ∈ parts)
    {character : Char}
    (member : character ∈ part) :
    character ∈ join separator parts := by
  induction parts with
  | nil => simp at partMember
  | cons first rest induction =>
      cases rest with
      | nil => rwa [join_singleton, ← List.mem_singleton.1 partMember]
      | cons next others =>
          rw [join_cons separator first (List.cons_ne_nil next others)]
          rcases List.mem_cons.1 partMember with rfl | inRest
          · exact List.mem_append_left _ (List.mem_append_left separator member)
          · exact List.mem_append_right _ (induction inRest)

/-! ## Splitting -/

theorem splitAt_ne_nil (separator : Char) (text : Text) :
    splitAt separator text ≠ [] := by
  cases text with
  | nil => simp [splitAt]
  | cons character rest =>
      rw [splitAt]
      split
      · simp
      · split <;> simp

theorem splitAt_cons_separator (separator : Char) (text : Text) :
    splitAt separator (separator :: text) = [] :: splitAt separator text := by
  rw [splitAt]
  cases pieces : splitAt separator text with
  | nil => exact (splitAt_ne_nil separator text pieces).elim
  | cons piece others => simp

theorem splitAt_cons_other
    {separator character : Char}
    (other : character ≠ separator)
    {text piece : Text}
    {pieces : List Text}
    (split : splitAt separator text = piece :: pieces) :
    splitAt separator (character :: text) = (character :: piece) :: pieces := by
  rw [splitAt, split]
  simp [other]

/-- A text without the separator is one piece. -/
theorem splitAt_of_not_mem
    {separator : Char}
    {text : Text}
    (free : separator ∉ text) :
    splitAt separator text = [text] := by
  induction text with
  | nil => rfl
  | cons character rest induction =>
      simp only [List.mem_cons, not_or] at free
      exact splitAt_cons_other (Ne.symm free.1) (induction free.2)

/-- Every occurrence of the separator divides the pieces before it from those behind it. -/
theorem splitAt_append
    (separator : Char)
    (before after : Text) :
    splitAt separator (before ++ separator :: after) =
      splitAt separator before ++ splitAt separator after := by
  induction before with
  | nil => exact splitAt_cons_separator separator after
  | cons character rest induction =>
      by_cases same : character = separator
      · subst same
        rw [List.cons_append, splitAt_cons_separator, splitAt_cons_separator, induction,
          List.cons_append]
      · cases pieces : splitAt separator rest with
        | nil => exact (splitAt_ne_nil separator rest pieces).elim
        | cons piece others =>
            rw [pieces, List.cons_append] at induction
            rw [List.cons_append, splitAt_cons_other same induction,
              splitAt_cons_other same pieces, List.cons_append]

/-- No piece holds the separator. -/
theorem not_mem_of_mem_splitAt
    {separator : Char}
    {text piece : Text}
    (member : piece ∈ splitAt separator text) :
    separator ∉ piece := by
  induction text generalizing piece with
  | nil =>
      have empty : piece = [] := by simpa [splitAt] using member
      simp [empty]
  | cons character rest induction =>
      by_cases same : character = separator
      · subst same
        rw [splitAt_cons_separator] at member
        rcases List.mem_cons.1 member with rfl | later
        · exact List.not_mem_nil
        · exact induction later
      · cases pieces : splitAt separator rest with
        | nil => exact (splitAt_ne_nil separator rest pieces).elim
        | cons first others =>
            rw [splitAt_cons_other same pieces] at member
            rcases List.mem_cons.1 member with rfl | later
            · have inFirst : separator ∉ first := induction (by simp [pieces])
              simp [Ne.symm same, inFirst]
            · exact induction (by simp [pieces, later])

/-! ## The two directions -/

theorem splitAt_join
    {separator : Char}
    {parts : List Text}
    (nonempty : parts ≠ [])
    (free : ∀ part ∈ parts, separator ∉ part) :
    splitAt separator (join [separator] parts) = parts := by
  induction parts with
  | nil => exact (nonempty rfl).elim
  | cons part rest induction =>
      have partFree : separator ∉ part := free part List.mem_cons_self
      cases rest with
      | nil => exact splitAt_of_not_mem partFree
      | cons next others =>
          rw [join_cons [separator] part (List.cons_ne_nil next others),
            List.append_assoc, List.singleton_append, splitAt_append,
            splitAt_of_not_mem partFree,
            induction (List.cons_ne_nil next others)
              (fun other member => free other (List.mem_cons_of_mem part member)),
            List.singleton_append]

theorem join_splitAt (separator : Char) (text : Text) :
    join [separator] (splitAt separator text) = text := by
  induction text with
  | nil => rfl
  | cons character rest induction =>
      by_cases same : character = separator
      · subst same
        rw [splitAt_cons_separator,
          join_cons [character] [] (splitAt_ne_nil character rest), induction]
        rfl
      · cases pieces : splitAt separator rest with
        | nil => exact (splitAt_ne_nil separator rest pieces).elim
        | cons piece others =>
            rw [pieces] at induction
            rw [splitAt_cons_other same pieces, ← induction]
            cases others <;> rfl

/-- Joins of non-empty lists of pieces without the separator are equal only when the lists are. -/
theorem join_injective
    {separator : Char}
    {left right : List Text}
    (leftNonempty : left ≠ [])
    (rightNonempty : right ≠ [])
    (leftFree : ∀ part ∈ left, separator ∉ part)
    (rightFree : ∀ part ∈ right, separator ∉ part)
    (equal : join [separator] left = join [separator] right) :
    left = right := by
  rw [← splitAt_join leftNonempty leftFree, equal, splitAt_join rightNonempty rightFree]

/-! ## Dropping an initial part -/

theorem dropInitial?_append (initial rest : Text) :
    dropInitial? (initial ++ rest) initial = some rest := by
  induction initial with
  | nil => cases rest <;> rfl
  | cons expected others induction => rw [List.cons_append, dropInitial?, if_pos rfl, induction]

theorem eq_append_of_dropInitial?
    {text initial rest : Text}
    (dropped : dropInitial? text initial = some rest) :
    text = initial ++ rest := by
  induction initial generalizing text with
  | nil =>
      cases text <;> exact Option.some.inj dropped
  | cons expected others induction =>
      cases text with
      | nil => simp [dropInitial?] at dropped
      | cons character remaining =>
          rw [dropInitial?] at dropped
          split at dropped
          · rename_i same
            rw [same, induction dropped, List.cons_append]
          · exact absurd dropped (by simp)

/-! ## Cutting at the first occurrence -/

theorem cutAt?_of_not_mem
    {separator : Char}
    {text : Text}
    (free : separator ∉ text) :
    cutAt? separator text = none := by
  induction text with
  | nil => rfl
  | cons character rest induction =>
      simp only [List.mem_cons, not_or] at free
      rw [cutAt?, if_neg (Ne.symm free.1), induction free.2]
      rfl

theorem cutAt?_append
    {separator : Char}
    {before : Text}
    (free : separator ∉ before)
    (after : Text) :
    cutAt? separator (before ++ separator :: after) = some (before, after) := by
  induction before with
  | nil => simp [cutAt?]
  | cons character rest induction =>
      simp only [List.mem_cons, not_or] at free
      rw [List.cons_append, cutAt?, if_neg (Ne.symm free.1), induction free.2]
      rfl

theorem eq_append_of_cutAt?
    {separator : Char}
    {text before after : Text}
    (found : cutAt? separator text = some (before, after)) :
    text = before ++ separator :: after := by
  induction text generalizing before after with
  | nil => simp [cutAt?] at found
  | cons character rest induction =>
      rw [cutAt?] at found
      split at found
      · rename_i same
        obtain ⟨rfl, rfl⟩ := Prod.mk.inj (Option.some.inj found)
        rw [same, List.nil_append]
      · obtain ⟨⟨innerBefore, innerAfter⟩, inner, equal⟩ := Option.map_eq_some_iff.1 found
        obtain ⟨rfl, rfl⟩ := Prod.mk.inj equal
        rw [induction inner, List.cons_append]

/-! ## Separators of several characters -/

/-- Joins of non-empty lists of pieces are equal only when the lists are, if no piece holds the
first character of the separator. -/
theorem join_injective_of_mark
    {mark : Char}
    {more : Text}
    {left right : List Text}
    (leftNonempty : left ≠ [])
    (rightNonempty : right ≠ [])
    (leftFree : ∀ part ∈ left, mark ∉ part)
    (rightFree : ∀ part ∈ right, mark ∉ part)
    (equal : join (mark :: more) left = join (mark :: more) right) :
    left = right := by
  have spread (part : Text) {rest : List Text} (further : rest ≠ []) :
      join (mark :: more) (part :: rest) = part ++ mark :: (more ++ join (mark :: more) rest) := by
    rw [join_cons (mark :: more) part further, List.append_assoc, List.cons_append]
  induction left generalizing right with
  | nil => exact (leftNonempty rfl).elim
  | cons part rest induction =>
      cases right with
      | nil => exact (rightNonempty rfl).elim
      | cons other others =>
          have partFree : mark ∉ part := leftFree part List.mem_cons_self
          have otherFree : mark ∉ other := rightFree other List.mem_cons_self
          by_cases last : rest = []
          · by_cases otherLast : others = []
            · subst last otherLast
              exact congrArg (fun piece => [piece]) equal
            · rw [last, join_singleton, spread other otherLast] at equal
              exact (partFree (by simp [equal])).elim
          · by_cases otherLast : others = []
            · rw [otherLast, join_singleton, spread part last] at equal
              exact (otherFree (by simp [← equal])).elim
            · -- Both joins go on, so the mark divides them at the same place.
              rw [spread part last, spread other otherLast] at equal
              have cuts := congrArg (cutAt? mark) equal
              rw [cutAt?_append partFree, cutAt?_append otherFree, Option.some.injEq,
                Prod.mk.injEq] at cuts
              rw [cuts.1, induction last otherLast
                (fun piece member => leftFree piece (List.mem_cons_of_mem part member))
                (fun piece member => rightFree piece (List.mem_cons_of_mem other member))
                (List.append_cancel_left cuts.2)]

/-! ## The longest start of a kind -/

section Starts

variable
  {test : Char → Bool}
  {text : Text}
  (passes : ∀ character ∈ text, test character = true)
  {rest : Text}
  (ends : ∀ character ∈ rest.head?, test character = false)

include passes ends

/-- A text that passes a test is taken as a whole when it ends where the test fails. -/
theorem takeWhile_append_of_ends : (text ++ rest).takeWhile test = text := by
  rw [List.takeWhile_append_of_pos passes]
  cases rest with
  | nil => simp
  | cons next rest => simp [ends next rfl]

theorem dropWhile_append_of_ends : (text ++ rest).dropWhile test = rest := by
  rw [List.dropWhile_append_of_pos passes]
  cases rest with
  | nil => rfl
  | cons next rest => simp [ends next rfl]

end Starts

end UnoBindgen.Text
