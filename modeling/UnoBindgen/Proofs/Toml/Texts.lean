import Mathlib
import UnoBindgen.Toml.Print
import UnoBindgen.Proofs.Text.Split

/-!
# Printed texts and keys are read back

Behind a printed text or key part comes something that cannot be taken for more of it: a text or a
part between quotation marks ends at its closing mark, and a bare part ends at the first character
that is not bare.  So a reader finds exactly what was printed, whatever comes behind.
-/

namespace UnoBindgen.Toml

/-- Whether a text does not start with a quotation mark of either kind. -/
def IsUnquoted (text : Text) : Prop :=
  ∀ character ∈ text.head?, character ≠ '"' ∧ character ≠ '\''

theorem dropSpacing_cons_of_not
    {character : Char}
    (dark : Text.isSpacing character = false)
    (rest : Text) :
    dropSpacing (character :: rest) = character :: rest := by
  rw [dropSpacing, List.dropWhile_cons, dark]
  rfl

/-! ## Between single marks -/

/-- Whether a text can stand between single marks. -/
def IsVerbatim (text : Text) : Prop :=
  ∀ character ∈ text, character ≠ '\'' ∧ isControl character = false

theorem isVerbatim_iff (text : Text) :
    IsVerbatim text ↔ needsEscapes text = false := by
  rw [needsEscapes, List.any_eq_false, IsVerbatim]
  refine forall₂_congr fun character _ => ?_
  simp

theorem readLiteralText_cons
    {character : Char}
    (plain : character ≠ '\'' ∧ isControl character = false)
    (content rest : Text) :
    readLiteralText false content (character :: rest) =
      readLiteralText false (character :: content) rest := by
  have notReturn : character ≠ '\r' := by
    rintro rfl
    exact absurd plain.2 (by decide)
  rw [readLiteralText]
  · simp [plain.1, plain.2]
  all_goals simp_all

theorem readLiteralText_mark
    {rest : Text}
    (behind : IsUnquoted rest)
    (content : Text) :
    readLiteralText false content ('\'' :: rest) = .ok (content.reverse, rest) := by
  cases rest with
  | nil => simp [readLiteralText]
  | cons next rest =>
      have other : next ≠ '\'' := (behind next rfl).2
      rw [readLiteralText]
      · simp
      all_goals simp_all

theorem readLiteralText_append
    {text : Text}
    (verbatim : IsVerbatim text)
    {rest : Text}
    (behind : IsUnquoted rest)
    (content : Text) :
    readLiteralText false content (text ++ '\'' :: rest) = .ok (content.reverse ++ text, rest) := by
  induction text generalizing content with
  | nil => simpa using readLiteralText_mark behind content
  | cons character text induction =>
      rw [IsVerbatim, List.forall_mem_cons] at verbatim
      rw [List.cons_append, readLiteralText_cons verbatim.1, induction verbatim.2]
      simp

/-! ## Between double marks -/

theorem hexValue?_upperHexDigit
    {digit : Nat}
    (small : digit < 16) :
    Text.hexValue? (upperHexDigit digit) = some digit := by
  revert digit
  decide

/-- A control character is written with two hexadecimal digits. -/
theorem toNat_lt_of_isControl
    {character : Char}
    (control : isControl character = true) :
    character.toNat < 128 := by
  simp only [isControl, Bool.or_eq_true, Bool.and_eq_true, decide_eq_true_eq, beq_iff_eq] at control
  omega

theorem readBasic_cons
    {character : Char}
    (noQuote : character ≠ '"')
    (noBackslash : character ≠ '\\')
    (plain : isControl character = false)
    (content rest : Text) :
    readBasic .established false .content content (character :: rest) =
      readBasic .established false .content (character :: content) rest := by
  have notReturn : character ≠ '\r' := by
    rintro rfl
    exact absurd plain (by decide)
  rw [readBasic]
  · simp [noQuote, noBackslash, plain]
  all_goals simp_all

theorem readBasic_mark
    {rest : Text}
    (behind : IsUnquoted rest)
    (content : Text) :
    readBasic .established false .content content ('"' :: rest) = .ok (content.reverse, rest) := by
  cases rest with
  | nil => simp [readBasic]
  | cons next rest =>
      have other : next ≠ '"' := (behind next rfl).1
      rw [readBasic]
      · simp
      all_goals simp_all

theorem readBasic_backslash (content rest : Text) :
    readBasic .established false .content content ('\\' :: rest) =
      readBasic .established false .escape content rest := by
  rw [readBasic]
  · simp
  all_goals simp

theorem readBasic_letter
    {letter character : Char}
    (meant : simpleEscape? .established letter = some character)
    (content rest : Text) :
    readBasic .established false .content content ('\\' :: letter :: rest) =
      readBasic .established false .content (character :: content) rest := by
  rw [readBasic_backslash, readBasic, meant]

theorem readBasic_digit
    {digit : Char}
    {meant : Nat}
    (read : Text.hexValue? digit = some meant)
    (missing value : Nat)
    (content rest : Text) :
    readBasic .established false (.code (missing + 2) value) content (digit :: rest) =
      readBasic .established false (.code (missing + 1) (16 * value + meant)) content rest := by
  rw [readBasic, read]
  simp

theorem readBasic_lastDigit
    {digit : Char}
    {meant : Nat}
    (read : Text.hexValue? digit = some meant)
    {value : Nat}
    (small : 16 * value + meant < 128)
    (content rest : Text) :
    readBasic .established false (.code 1 value) content (digit :: rest) =
      readBasic .established false .content (Char.ofNat (16 * value + meant) :: content) rest := by
  have notSurrogate : ¬ 55296 ≤ 16 * value + meant := by omega
  have notLarge : ¬ 1114111 < 16 * value + meant := by omega
  rw [readBasic, read]
  simp [notSurrogate, notLarge]

/-- A control character without a letter of its own is written with hexadecimal digits. -/
theorem readBasic_code
    {character : Char}
    (control : isControl character = true)
    (content rest : Text) :
    readBasic .established false .content content
        ('\\' :: 'u' :: '0' :: '0' :: upperHexDigit (character.toNat / 16) ::
          upperHexDigit (character.toNat % 16) :: rest) =
      readBasic .established false .content (character :: content) rest := by
  have small := toNat_lt_of_isControl control
  have zero : Text.hexValue? '0' = some 0 := by decide
  have high : Text.hexValue? (upperHexDigit (character.toNat / 16)) = some _ :=
    hexValue?_upperHexDigit (by omega)
  have low : Text.hexValue? (upperHexDigit (character.toNat % 16)) = some _ :=
    hexValue?_upperHexDigit (Nat.mod_lt _ (by decide))
  have whole : 16 * (character.toNat / 16) + character.toNat % 16 = character.toNat :=
    Nat.div_add_mod _ _
  have opened :
      ∀ rest, readBasic .established false .escape content ('u' :: rest) =
        readBasic .established false (.code 4 0) content rest := by
    intro rest
    rw [readBasic]
    rfl
  rw [readBasic_backslash, opened, readBasic_digit zero, readBasic_digit zero, readBasic_digit high,
    readBasic_lastDigit low (by omega)]
  simp only [Nat.mul_zero, Nat.zero_add, whole, Char.ofNat_toNat]

theorem readBasic_escapeCharacter
    (character : Char)
    (content rest : Text) :
    readBasic .established false .content content (escapeCharacter character ++ rest) =
      readBasic .established false .content (character :: content) rest := by
  rw [escapeCharacter]
  repeat
    -- The characters that have a letter of their own.
    split
    · rename_i same
      obtain rfl := beq_iff_eq.1 same
      exact readBasic_letter rfl content rest
  split
  · rename_i control
    exact readBasic_code control content rest
  · rename_i noBackslash noQuote _ _ _ _ _ plain
    exact readBasic_cons (by simpa using noQuote) (by simpa using noBackslash) (by simpa using plain)
      content rest

theorem readBasic_append
    (text : Text)
    {rest : Text}
    (behind : IsUnquoted rest)
    (content : Text) :
    readBasic .established false .content content (text.flatMap escapeCharacter ++ '"' :: rest) =
      .ok (content.reverse ++ text, rest) := by
  induction text generalizing content with
  | nil => simpa using readBasic_mark behind content
  | cons character text induction =>
      rw [List.flatMap_cons, List.append_assoc, readBasic_escapeCharacter, induction]
      simp

/-- What is between double marks never starts with one. -/
theorem exists_escapeCharacter (character : Char) :
    ∃ first tail, escapeCharacter character = first :: tail ∧ first ≠ '"' := by
  rw [escapeCharacter]
  split_ifs <;> simp_all

/-! ## Texts -/

theorem readText?_doubleMark
    {text : Text}
    (behind : text.head? ≠ some '"') :
    readText? .established ('"' :: text) =
      some (readBasic .established false .content [] text) := by
  rw [readText?]
  rintro rest rfl
  exact behind rfl

theorem readText?_singleMark
    {text : Text}
    (behind : ∀ tail, text ≠ '\'' :: '\'' :: tail) :
    readText? .established ('\'' :: text) = some (readLiteralText false [] text) := by
  rw [readText?]
  simp_all

/-- A printed text is read back, whatever comes behind it. -/
theorem readText?_printText
    (text : Text)
    {rest : Text}
    (behind : IsUnquoted rest) :
    readText? .established (printText text ++ rest) = some (.ok (text, rest)) := by
  rw [printText]
  split
  · rename_i escapes
    cases text with
    | nil => simp [needsEscapes] at escapes
    | cons character more =>
        obtain ⟨first, tail, escaped, other⟩ := exists_escapeCharacter character
        have read := readBasic_append (character :: more) behind []
        rw [printEscaped, List.append_assoc, List.cons_append, readText?_doubleMark,
          List.singleton_append, read]
        · rfl
        · simp [escaped, other]
  · rename_i verbatim
    have plain := (isVerbatim_iff text).2 (by simpa using verbatim)
    have read := readLiteralText_append plain behind []
    rw [printVerbatim, List.append_assoc, List.cons_append, readText?_singleMark,
      List.singleton_append, read]
    · rfl
    · intro tail same
      cases text with
      | nil =>
          have next : rest.head? = some '\'' := by simp_all
          exact (behind '\'' next).2 rfl
      | cons character more =>
          have first : character = '\'' := by simp_all
          exact (plain character List.mem_cons_self).1 first

/-! ## Keys -/

/-- Behind a part of a key come a point, the blank before an equality sign, or the closing bracket
of a header. -/
def EndsPart (rest : Text) : Prop :=
  ∃ mark tail, rest = mark :: tail ∧ (mark = '.' ∨ mark = ' ' ∨ mark = ']')

theorem EndsPart.isUnquoted
    {rest : Text}
    (ends : EndsPart rest) :
    IsUnquoted rest := by
  obtain ⟨mark, tail, rfl, rfl | rfl | rfl⟩ := ends <;> simp [IsUnquoted]

theorem readKeyPart_of_bare
    {part : Text}
    (nonempty : part ≠ [])
    (bare : ∀ character ∈ part, isBareKey character = true)
    {rest : Text}
    (ends : EndsPart rest) :
    readKeyPart .established (part ++ rest) = .ok (part, rest) := by
  obtain ⟨mark, tail, rfl, marks⟩ := ends
  have boundary : ∀ character ∈ (mark :: tail).head?, isBareKey character = false := by
    rintro _ ⟨⟩
    rcases marks with rfl | rfl | rfl <;> rfl
  have taken := Text.takeWhile_append_of_ends bare boundary
  have dropped := Text.dropWhile_append_of_ends bare boundary
  cases part with
  | nil => exact absurd rfl nonempty
  | cons first more =>
      have firstBare := bare first List.mem_cons_self
      rw [readKeyPart]
      · simp only [taken, dropped]
        rfl
      · intro rest same
        obtain ⟨rfl, -⟩ := List.cons.inj same
        exact absurd firstBare (by decide)
      · intro rest same
        obtain ⟨rfl, -⟩ := List.cons.inj same
        exact absurd firstBare (by decide)

/-- A printed part of a key is read back. -/
theorem readKeyPart_printKeyPart
    (part : Text)
    {rest : Text}
    (ends : EndsPart rest) :
    readKeyPart .established (printKeyPart part ++ rest) = .ok (part, rest) := by
  rw [printKeyPart]
  split_ifs with empty escapes bare
  · rw [List.isEmpty_iff.1 empty]
    exact readLiteralText_mark ends.isUnquoted []
  · have read := readBasic_append part ends.isUnquoted []
    rw [printEscaped, List.append_assoc, List.cons_append, readKeyPart, List.singleton_append, read]
    rfl
  · exact readKeyPart_of_bare (by simpa using empty) (List.all_eq_true.1 bare) ends
  · have plain := (isVerbatim_iff part).2 (by simpa using escapes)
    have read := readLiteralText_append plain ends.isUnquoted []
    rw [printVerbatim, List.append_assoc, List.cons_append, readKeyPart, List.singleton_append, read]
    rfl

/-- The characters that a printed key starts with. -/
def startsKey (character : Char) : Bool :=
  character == '"' || character == '\'' || isBareKey character

theorem exists_printKeyPart (part : Text) :
    ∃ first tail, printKeyPart part = first :: tail ∧ startsKey first = true := by
  rw [printKeyPart]
  split_ifs with empty escapes bare
  · exact ⟨_, _, rfl, rfl⟩
  · exact ⟨_, _, rfl, rfl⟩
  · cases part with
    | nil => simp at empty
    | cons first tail =>
        have firstBare := List.all_eq_true.1 bare first List.mem_cons_self
        exact ⟨first, tail, rfl, by simp [startsKey, firstBare]⟩
  · exact ⟨_, _, rfl, rfl⟩

@[simp]
theorem printKey_singleton (part : Text) : printKey [part] = printKeyPart part := rfl

theorem printKey_cons
    (part : Text)
    {path : KeyPath}
    (nonempty : path ≠ []) :
    printKey (part :: path) = printKeyPart part ++ '.' :: printKey path := by
  rw [printKey, List.map_cons, Text.join_cons _ _ (by simpa using nonempty)]
  simp [printKey]

theorem exists_printKey
    {path : KeyPath}
    (nonempty : path ≠ []) :
    ∃ first tail, printKey path = first :: tail ∧ startsKey first = true := by
  obtain ⟨part, more, rfl⟩ := List.exists_cons_of_ne_nil nonempty
  obtain ⟨first, tail, printed, starts⟩ := exists_printKeyPart part
  by_cases single : more = []
  · subst single
    exact ⟨first, tail, printed, starts⟩
  · exact ⟨first, tail ++ '.' :: printKey more, by rw [printKey_cons part single, printed]; rfl, starts⟩

theorem isSpacing_of_startsKey
    {character : Char}
    (starts : startsKey character = true) :
    Text.isSpacing character = false := by
  refine Bool.eq_false_iff.2 fun blank => ?_
  simp only [Text.isSpacing, Bool.or_eq_true, beq_iff_eq] at blank
  rcases blank with rfl | rfl <;> exact absurd starts (by decide)

/-- What comes behind a key: an equality sign behind a blank, or the closing bracket of a
header. -/
def EndsKey (rest : Text) : Prop :=
  ∃ tail, rest = ' ' :: '=' :: tail ∨ rest = ']' :: tail

theorem EndsKey.endsPart
    {rest : Text}
    (ends : EndsKey rest) :
    EndsPart rest := by
  obtain ⟨tail, rfl | rfl⟩ := ends
  · exact ⟨' ', _, rfl, by decide⟩
  · exact ⟨']', _, rfl, by decide⟩

/-- A printed key is read back, and the blank behind it is passed over. -/
theorem readKey_printKey
    {path : KeyPath}
    (nonempty : path ≠ [])
    {steps : Nat}
    (enough : path.length ≤ steps)
    {rest : Text}
    (ends : EndsKey rest) :
    readKey .established steps (printKey path ++ rest) = .ok (path, dropSpacing rest) := by
  induction path generalizing steps with
  | nil => exact absurd rfl nonempty
  | cons part more induction =>
      obtain ⟨steps, rfl⟩ : ∃ fewer, steps = fewer + 1 :=
        Nat.exists_eq_succ_of_ne_zero (by rintro rfl; simp at enough)
      by_cases single : more = []
      · subst single
        have read := readKeyPart_printKeyPart part ends.endsPart
        rw [readKey, printKey_singleton, read]
        obtain ⟨tail, rfl | rfl⟩ := ends <;> rfl
      · have read := readKeyPart_printKeyPart part
          ⟨'.', printKey more ++ rest, rfl, Or.inl rfl⟩
        have later := induction single (by simpa using enough)
        obtain ⟨first, tail, printed, starts⟩ := exists_printKey single
        have next : dropSpacing (printKey more ++ rest) = printKey more ++ rest := by
          rw [printed, List.cons_append, dropSpacing_cons_of_not (isSpacing_of_startsKey starts)]
        have point : dropSpacing ('.' :: (printKey more ++ rest)) = '.' :: (printKey more ++ rest) :=
          dropSpacing_cons_of_not rfl _
        rw [readKey, printKey_cons part single, List.append_assoc, List.cons_append, read]
        simp only [bind, Except.bind, point, next, later]
        rfl

end UnoBindgen.Toml
