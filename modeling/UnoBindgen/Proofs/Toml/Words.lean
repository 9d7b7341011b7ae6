import UnoBindgen.Proofs.Toml.Moments
import UnoBindgen.Toml.Document

/-!
# Printed words are read back

Whole numbers, truth values, moments, and what is no finite number are written as single words.
Behind a value come the end of its line, a comma or a closing bracket, none of which belongs to a
word; so a word is read as it was written.
-/

namespace UnoBindgen

namespace Text

theorem ofNat_ne_nil (number : Nat) : ofNat number ≠ [] := by
  rw [ofNat, Nat.toDigits_eq_if (by decide)]
  split <;> simp

theorem isDigit_of_mem_ofNat
    (number : Nat) :
    ∀ character ∈ ofNat number, character.isDigit = true :=
  fun _ member => Nat.isDigit_of_mem_toDigits (by decide) (by decide) member

/-- No digits in front of a number are superfluous. -/
theorem head?_ofNat
    {number : Nat}
    (positive : 0 < number) :
    (ofNat number).head? ≠ some '0' := by
  induction number using Nat.strongRecOn with
  | ind number induction =>
      rw [ofNat, Nat.toDigits_eq_if (by decide)]
      split
      · rename_i single
        have digits : ∀ digit < 10, 0 < digit → ¬ Nat.digitChar digit = '0' := by decide
        simpa using digits number single positive
      · rename_i more
        have shorter := induction (number / 10) (by omega) (by omega)
        change (ofNat (number / 10) ++ _).head? ≠ some '0'
        rwa [List.head?_append_of_ne_nil _ (ofNat_ne_nil (number / 10))]

end Text

namespace Toml

open Text

/-! ## The end of a value -/

/-- What may stand behind a printed value: nothing, the end of its line, a comma, or a closing
bracket. -/
def EndsValue (rest : Text) : Prop :=
  ∀ character ∈ rest.head?,
    character = '\n' ∨ character = ',' ∨ character = ']' ∨ character = '\x7d'

theorem EndsValue.isAtomCharacter
    {rest : Text}
    (ends : EndsValue rest) :
    ∀ character ∈ rest.head?, isAtomCharacter character = false := by
  intro character head
  rcases ends character head with rfl | rfl | rfl | rfl <;> rfl

/-- A word is taken as a whole. -/
theorem takeAtom_append
    {word : Text}
    (characters : ∀ character ∈ word, isAtomCharacter character = true)
    {rest : Text}
    (ends : EndsValue rest) :
    takeAtom (word ++ rest) = (word, rest) := by
  simp only [takeAtom, takeWhile_append_of_ends characters ends.isAtomCharacter,
    dropWhile_append_of_ends characters ends.isAtomCharacter]
  split
  · have blank := ends ' ' rfl
    simp at blank
  · rfl

/-- The characters that a word starts with start nothing else. -/
theorem ne_of_isAtomCharacter
    {character : Char}
    (isAtom : isAtomCharacter character = true)
    (other : Char)
    (notAtom : isAtomCharacter other = false) :
    character ≠ other := by
  rintro rfl
  rw [isAtom] at notAtom
  exact Bool.noConfusion notAtom

theorem readValue_append
    {word : Text}
    {literal : Literal}
    (nonempty : word ≠ [])
    (characters : ∀ character ∈ word, isAtomCharacter character = true)
    (meant : atom .established word = .ok literal)
    {rest : Text}
    (ends : EndsValue rest)
    (steps : Nat) :
    readValue .established (steps + 1) (word ++ rest) = .ok (literal, rest) := by
  obtain ⟨first, more, rfl⟩ := List.exists_cons_of_ne_nil nonempty
  have isAtom := characters first List.mem_cons_self
  have noText : readText? .established ((first :: more) ++ rest) = none := by
    have noDouble := ne_of_isAtomCharacter isAtom '"' rfl
    have noSingle := ne_of_isAtomCharacter isAtom '\'' rfl
    rw [List.cons_append, readText?.eq_def]
    split <;> simp_all
  rw [readValue.eq_def]
  simp only [noText]
  split
  · rename_i same
    exact absurd (List.cons.inj same).1 (ne_of_isAtomCharacter isAtom '[' rfl)
  · rename_i same
    exact absurd (List.cons.inj same).1 (ne_of_isAtomCharacter isAtom '\x7b' rfl)
  · rw [takeAtom_append characters ends]
    simp only [meant]
    rfl

/-! ## Whole numbers -/

theorem isAtomCharacter_of_isDigit
    {character : Char}
    (digit : character.isDigit = true) :
    isAtomCharacter character = true := by
  simp [isAtomCharacter, Char.isAlphanum, digit]

theorem underscoresSeparate_go_of_not_mem
    {text : Text}
    (absent : '_' ∉ text)
    (afterDigit : Bool) :
    underscoresSeparate.go afterDigit text = true := by
  induction text generalizing afterDigit with
  | nil => rfl
  | cons character rest induction =>
      rw [List.mem_cons, not_or] at absent
      rw [underscoresSeparate.go]
      · exact induction absent.2 true
      · exact fun same => absent.1 same.symm

theorem underscoresBetweenDigits_of_not_mem
    {text : Text}
    (absent : '_' ∉ text) :
    underscoresBetweenDigits text = true := by
  rw [underscoresBetweenDigits.eq_def]
  split
  · simp at absent
  · exact underscoresSeparate_go_of_not_mem absent false

theorem spacedNatural?_ofNat (number : Nat) :
    spacedNatural? 10 (ofNat number) = some number := by
  have absent : '_' ∉ ofNat number := not_mem_ofNat (by decide) number
  have same : (ofNat number).filter (· != '_') = ofNat number :=
    List.filter_eq_self.2 fun character member =>
      bne_iff_ne.2 fun underscore => absent (underscore ▸ member)
  rw [spacedNatural?, underscoresBetweenDigits_of_not_mem absent, same, natural?_ofNat]
  rfl

theorem hasPlainStart_ofNat (number : Nat) :
    hasPlainStart (ofNat number) = true := by
  rcases Nat.eq_zero_or_pos number with rfl | positive
  · rfl
  · have first := head?_ofNat positive
    rw [hasPlainStart.eq_def]
    split
    · rename_i same
      rw [same] at first
      exact absurd rfl first
    · rfl

/-- A word whose unsigned part starts with a digit is a number or a moment. -/
theorem atom_of_isDigit
    {word : Text}
    {first : Char}
    {more : Text}
    (unsigned : splitSign word = (false, first :: more) ∨ splitSign word = (true, first :: more))
    (digit : first.isDigit = true) :
    atom .established word = numeral .established word := by
  have noTruth : ∀ letters, letters = ['t', 'r', 'u', 'e'] ∨ letters = ['f', 'a', 'l', 's', 'e'] →
      word ≠ letters := by
    rintro letters (rfl | rfl) rfl <;> rcases unsigned with same | same <;>
      simp [splitSign] at same <;> exact absurd digit (by rw [← same.1]; decide)
  have noWord : ∀ letter letters, letter.isDigit = false → first :: more ≠ letter :: letters := by
    intro letter letters other same
    rw [(List.cons.inj same).1, other] at digit
    exact Bool.noConfusion digit
  have notTrue := noTruth _ (Or.inl rfl)
  have notFalse := noTruth _ (Or.inr rfl)
  have notInfinite := noWord 'i' ['n', 'f'] rfl
  have notNaN := noWord 'n' ['a', 'n'] rfl
  rcases unsigned with unsigned | unsigned <;>
    simp only [atom, unsigned, beq_iff_eq, notTrue, notFalse, notInfinite, notNaN, if_false]

theorem splitSign_of_isDigit
    {first : Char}
    (digit : first.isDigit = true)
    (more : Text) :
    splitSign (first :: more) = (false, first :: more) := by
  rw [splitSign.eq_def]
  split
  · rename_i same
    rw [(List.cons.inj same).1] at digit
    exact absurd digit (by decide)
  · rename_i same
    rw [(List.cons.inj same).1] at digit
    exact absurd digit (by decide)
  · rfl

theorem exists_ofNat (number : Nat) :
    ∃ first more, ofNat number = first :: more ∧ first.isDigit = true := by
  obtain ⟨first, more, shape⟩ := List.exists_cons_of_ne_nil (ofNat_ne_nil number)
  refine ⟨first, more, shape, isDigit_of_mem_ofNat number first ?_⟩
  rw [shape]
  exact List.mem_cons_self

theorem integer?_ofInt (value : Int) :
    integer? (ofInt value) = some value := by
  cases value with
  | ofNat number =>
      obtain ⟨first, more, shape, digit⟩ := exists_ofNat number
      have unsigned : splitSign (ofNat number) = (false, ofNat number) := by
        rw [shape, splitSign_of_isDigit digit]
      have noBase : ∀ mark digits, mark.isDigit = false → ofNat number ≠ '0' :: mark :: digits := by
        intro mark digits other same
        exact not_mem_ofNat other number (by simp [same])
      rw [ofInt, integer?]
      · simp [unsigned, hasPlainStart_ofNat, spacedNatural?_ofNat]
      · exact fun digits same => noBase 'x' digits rfl same
      · exact fun digits same => noBase 'o' digits rfl same
      · exact fun digits same => noBase 'b' digits rfl same
  | negSucc number =>
      have unsigned : splitSign ('-' :: ofNat (number + 1)) = (true, ofNat (number + 1)) := rfl
      rw [ofInt, integer?]
      · simp only [unsigned, hasPlainStart_ofNat, spacedNatural?_ofNat, if_true]
        rfl
      all_goals simp

theorem atom_ofInt
    {value : Int}
    (fits : fitsWord value = true) :
    atom .established (ofInt value) = .ok (.integer value) := by
  have number : numeral .established (ofInt value) = .ok (.integer value) := by
    simp only [numeral, integer?_ofInt, fits, if_true]
  cases value with
  | ofNat whole =>
      obtain ⟨first, more, shape, digit⟩ := exists_ofNat whole
      rw [ofInt, shape] at number ⊢
      rw [atom_of_isDigit (Or.inl (splitSign_of_isDigit digit more)) digit, number]
  | negSucc whole =>
      obtain ⟨first, more, shape, digit⟩ := exists_ofNat (whole + 1)
      rw [ofInt, shape] at number ⊢
      rw [atom_of_isDigit (Or.inr rfl) digit, number]

theorem isAtomCharacter_of_mem_ofInt
    (value : Int) :
    ∀ character ∈ ofInt value, isAtomCharacter character = true := by
  cases value with
  | ofNat number =>
      exact fun character member =>
        isAtomCharacter_of_isDigit (isDigit_of_mem_ofNat number character member)
  | negSucc number =>
      refine List.forall_mem_cons.2 ⟨rfl, fun character member => ?_⟩
      exact isAtomCharacter_of_isDigit (isDigit_of_mem_ofNat (number + 1) character member)

/-! ## Moments -/

theorem isDecimal_eq_isDigit (character : Char) :
    isDecimal character = character.isDigit := by
  rw [Bool.eq_iff_iff]
  simp [isDecimal, Char.isDigit, Char.le_def]

/-- A moment starts with at least two digits and a mark that no number has. -/
theorem exists_mark_of_isMoment
    {word : Text}
    (moment : IsMoment word) :
    ∃ digits mark rest, word = digits ++ mark :: rest ∧ 2 ≤ digits.length ∧
      (∀ character ∈ digits, character.isDigit = true) ∧ (mark = '-' ∨ mark = ':') := by
  have ofDate : ∀ date rest, IsDate date → ∃ digits mark behind,
      date ++ rest = digits ++ mark :: behind ∧ 2 ≤ digits.length ∧
        (∀ character ∈ digits, character.isDigit = true) ∧ (mark = '-' ∨ mark = ':') := by
    rintro _ rest @⟨year, month, day, _, _, _, ⟨length, read⟩, -, -, -⟩
    exact ⟨year, '-', (month ++ '-' :: day) ++ rest, by simp, by omega,
      forall_isDigit_of_natural? read, Or.inl rfl⟩
  have ofClock : ∀ clock rest, IsClock clock → ∃ digits mark behind,
      clock ++ rest = digits ++ mark :: behind ∧ 2 ≤ digits.length ∧
        (∀ character ∈ digits, character.isDigit = true) ∧ (mark = '-' ∨ mark = ':') := by
    rintro _ rest @⟨hour, minute, second, _, _, _, ⟨length, read⟩, -, -, -⟩
    exact ⟨hour, ':', (minute ++ ':' :: second) ++ rest, by simp, by omega,
      forall_isDigit_of_natural? read, Or.inr rfl⟩
  cases moment with
  | date isDate => simpa using ofDate word [] isDate
  | dated isDate => exact ofDate _ _ isDate
  | time isClock => exact ofClock _ _ isClock

section Marked

variable
  {first second mark : Char}
  {more rest : Text}
  (digits : ∀ character ∈ first :: second :: more, character.isDigit = true)
  (isMark : mark = '-' ∨ mark = ':')

include isMark

theorem natural?_of_mark :
    natural? 10 (first :: second :: more ++ mark :: rest) = none := by
  refine Option.eq_none_iff_forall_ne_some.2 fun value read => ?_
  have markDigit := forall_isDigit_of_natural? read mark (by simp)
  rcases isMark with rfl | rfl <;> exact absurd markDigit (by decide)

include digits

theorem integer?_of_mark
    (noUnderscore : '_' ∉ first :: second :: more ++ mark :: rest) :
    integer? (first :: second :: more ++ mark :: rest) = none := by
  have same := List.filter_eq_self.2 fun character member =>
    bne_iff_ne.2 fun (underscore : character = '_') => noUnderscore (underscore ▸ member)
  have unsigned := splitSign_of_isDigit (digits first List.mem_cons_self) (second :: more ++ mark :: rest)
  have secondDigit := digits second (List.mem_cons_of_mem first List.mem_cons_self)
  have noBase : ∀ letter text, letter.isDigit = false →
      first :: second :: more ++ mark :: rest ≠ '0' :: letter :: text := by
    intro letter text other shape
    rw [(List.cons.inj (List.cons.inj shape).2).1, other] at secondDigit
    exact Bool.noConfusion secondDigit
  have noNatural : natural? 10 (first :: second :: more ++ mark :: rest) = none :=
    natural?_of_mark isMark
  rw [integer?]
  · simp only [List.cons_append] at unsigned same noNatural ⊢
    simp [unsigned, spacedNatural?, same, noNatural]
  · exact fun text shape => noBase 'x' text rfl shape
  · exact fun text shape => noBase 'o' text rfl shape
  · exact fun text shape => noBase 'b' text rfl shape

theorem decimal?_of_mark :
    decimal? (first :: second :: more ++ mark :: rest) = none := by
  have unsigned := splitSign_of_isDigit (digits first List.mem_cons_self) (second :: more ++ mark :: rest)
  have decimals : ∀ character ∈ first :: second :: more, isDecimal character = true := by
    simpa only [isDecimal_eq_isDigit] using digits
  have ends : ∀ character ∈ (mark :: rest).head?, isDecimal character = false := by
    rintro _ ⟨⟩
    rcases isMark with rfl | rfl <;> rfl
  have taken := takeWhile_append_of_ends decimals ends
  have dropped := dropWhile_append_of_ends decimals ends
  have noExponent : readExponent? (mark :: rest) = none := by
    rcases isMark with rfl | rfl <;> rfl
  simp only [List.cons_append] at unsigned taken dropped ⊢
  simp only [decimal?, unsigned, taken, dropped]
  rcases isMark with rfl | rfl <;> simp [noExponent]

theorem fraction?_of_mark
    (noUnderscore : '_' ∉ first :: second :: more ++ mark :: rest) :
    fraction? (first :: second :: more ++ mark :: rest) = none := by
  have same := List.filter_eq_self.2 fun character member =>
    bne_iff_ne.2 fun (underscore : character = '_') => noUnderscore (underscore ▸ member)
  simp only [fraction?, same, decimal?_of_mark digits isMark, ite_self]

end Marked

/-- A moment in its usual form is read as it stands. -/
theorem atom_of_isUsualMoment
    {word : Text}
    (usual : IsUsualMoment word) :
    atom .established word = .ok (.moment word) := by
  have noUnderscore : '_' ∉ word := fun member =>
    absurd (usual.characters '_' member) (by decide)
  have moment := (isMoment_iff word).2 usual.isMoment
  obtain ⟨digits, mark, rest, rfl, long, areDigits, isMark⟩ :=
    exists_mark_of_isMoment usual.isMoment
  obtain ⟨first, second, more, rfl⟩ : ∃ first second more, digits = first :: second :: more := by
    match digits, long with
    | first :: second :: more, _ => exact ⟨first, second, more, rfl⟩
  have digit := areDigits first List.mem_cons_self
  have read :
      numeral .established (first :: second :: more ++ mark :: rest) =
        .ok (.moment (first :: second :: more ++ mark :: rest)) := by
    simp only [numeral, integer?_of_mark areDigits isMark noUnderscore,
      fraction?_of_mark areDigits isMark noUnderscore, moment, if_true]
  rw [← read]
  exact atom_of_isDigit (Or.inl (splitSign_of_isDigit digit (second :: more ++ mark :: rest))) digit

end Toml

end UnoBindgen
