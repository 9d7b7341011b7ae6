import UnoBindgen.Proofs.Text.Numeral
import UnoBindgen.Proofs.Text.Split
import UnoBindgen.Toml.Print

/-!
# Dates and times

A moment is a date, a time of day, or both with or without an offset from universal time.  The
readers of these parts accept exactly the texts that start with such a part, so a moment can be
taken apart and put together again.  Its usual form is a moment with the same parts, and it is its
own usual form.
-/

namespace UnoBindgen

namespace Text

theorem isDigit_of_digitValue?
    {character : Char}
    {value : Nat}
    (read : digitValue? character = some value)
    (small : value < 10) :
    character.isDigit = true := by
  rw [digitValue?] at read
  split_ifs at read with digit lower upper
  · simpa [Char.isDigit, Char.le_def] using digit
  · have := Option.some.inj read
    omega
  · have := Option.some.inj read
    omega

theorem forall_isDigit_of_readDigits
    {text : Text}
    {start value : Nat}
    (read : readDigits 10 start text = some value) :
    ∀ character ∈ text, character.isDigit = true := by
  induction text generalizing start with
  | nil => simp
  | cons character rest induction =>
      rw [readDigits] at read
      split at read
      · rename_i digit found
        split_ifs at read with small
        exact List.forall_mem_cons.2 ⟨isDigit_of_digitValue? found small, induction read⟩
      · simp at read

theorem forall_isDigit_of_natural?
    {text : Text}
    {value : Nat}
    (read : natural? 10 text = some value) :
    ∀ character ∈ text, character.isDigit = true := by
  rw [natural?] at read
  split_ifs at read
  exact forall_isDigit_of_readDigits read

end Text

namespace Toml

open Text

/-! ## Numbers of fixed length -/

theorem fixedNumber?_eq_some_iff
    (count : Nat)
    (text : Text)
    (value : Nat)
    (rest : Text) :
    fixedNumber? count text = some (value, rest) ↔
      ∃ digits, digits.length = count ∧ natural? 10 digits = some value ∧
        text = digits ++ rest := by
  rw [fixedNumber?]
  constructor
  · intro read
    split_ifs at read with long
    obtain ⟨number, found, same⟩ := Option.map_eq_some_iff.1 read
    obtain ⟨rfl, rfl⟩ := Prod.mk.inj same
    exact ⟨text.take count, by simpa using long, found, (List.take_append_drop count text).symm⟩
  · rintro ⟨digits, rfl, found, rfl⟩
    simp [found]

theorem behind?_eq_some_iff
    (mark : Char)
    (text : Text)
    (value : Nat)
    (rest : Text) :
    behind? mark text = some (value, rest) ↔
      ∃ digits, digits.length = 2 ∧ natural? 10 digits = some value ∧
        text = mark :: (digits ++ rest) := by
  cases text with
  | nil => simp [behind?]
  | cons first text =>
      rw [behind?]
      by_cases same : first = mark
      · simp [same, fixedNumber?_eq_some_iff]
      · simp [same]

/-! ## Dates -/

/-- The dates: a year, a month and a day of it, of four, two and two digits. -/
inductive IsDate : Text → Prop
  | of
      {year month day : Text}
      {yearNumber monthNumber dayNumber : Nat}
      (yearDigits : year.length = 4 ∧ natural? 10 year = some yearNumber)
      (monthDigits : month.length = 2 ∧ natural? 10 month = some monthNumber)
      (dayDigits : day.length = 2 ∧ natural? 10 day = some dayNumber)
      (hasDay : Calendar.hasDay yearNumber monthNumber dayNumber = true) :
      IsDate (year ++ '-' :: (month ++ '-' :: day))

theorem dropDate?_eq_some_iff (text rest : Text) :
    dropDate? text = some rest ↔ ∃ date, IsDate date ∧ text = date ++ rest := by
  constructor
  · intro read
    obtain ⟨⟨yearNumber, behindYear⟩, yearRead, behind⟩ := Option.bind_eq_some_iff.1 read
    obtain ⟨⟨monthNumber, behindMonth⟩, monthRead, behind⟩ := Option.bind_eq_some_iff.1 behind
    obtain ⟨⟨dayNumber, behindDay⟩, dayRead, last⟩ := Option.bind_eq_some_iff.1 behind
    obtain ⟨year, yearLength, yearNatural, rfl⟩ := (fixedNumber?_eq_some_iff ..).1 yearRead
    obtain ⟨month, monthLength, monthNatural, rfl⟩ := (behind?_eq_some_iff ..).1 monthRead
    obtain ⟨day, dayLength, dayNatural, rfl⟩ := (behind?_eq_some_iff ..).1 dayRead
    dsimp only at last
    split_ifs at last with hasDay
    obtain rfl := Option.some.inj last
    refine ⟨_, .of ⟨yearLength, yearNatural⟩ ⟨monthLength, monthNatural⟩ ⟨dayLength, dayNatural⟩
      hasDay, ?_⟩
    simp
  · rintro ⟨_, @⟨year, month, day, yearNumber, monthNumber, dayNumber, yearDigits, monthDigits,
      dayDigits, hasDay⟩, rfl⟩
    have yearRead :
        fixedNumber? 4 (year ++ '-' :: (month ++ '-' :: (day ++ rest))) = some (yearNumber, _) :=
      (fixedNumber?_eq_some_iff ..).2 ⟨year, yearDigits.1, yearDigits.2, rfl⟩
    have monthRead :
        behind? '-' ('-' :: (month ++ '-' :: (day ++ rest))) = some (monthNumber, _) :=
      (behind?_eq_some_iff ..).2 ⟨month, monthDigits.1, monthDigits.2, rfl⟩
    have dayRead : behind? '-' ('-' :: (day ++ rest)) = some (dayNumber, rest) :=
      (behind?_eq_some_iff ..).2 ⟨day, dayDigits.1, dayDigits.2, rfl⟩
    rw [List.append_assoc, List.cons_append, List.append_assoc, List.cons_append, dropDate?, yearRead]
    simp [monthRead, dayRead, hasDay]

theorem IsDate.dropDate?_append
    {date : Text}
    (isDate : IsDate date)
    (rest : Text) :
    dropDate? (date ++ rest) = some rest :=
  (dropDate?_eq_some_iff ..).2 ⟨date, isDate, rfl⟩

/-! ## Times of day -/

/-- The times of day up to the second: three numbers of two digits. -/
inductive IsClock : Text → Prop
  | of
      {hour minute second : Text}
      {hourNumber minuteNumber secondNumber : Nat}
      (hourDigits : hour.length = 2 ∧ natural? 10 hour = some hourNumber)
      (minuteDigits : minute.length = 2 ∧ natural? 10 minute = some minuteNumber)
      (secondDigits : second.length = 2 ∧ natural? 10 second = some secondNumber)
      (bounds : hourNumber ≤ 23 ∧ minuteNumber ≤ 59 ∧ secondNumber ≤ 59) :
      IsClock (hour ++ ':' :: (minute ++ ':' :: second))

/-- The fractions of a second, with their points and all their digits; the fraction may be
missing. -/
def IsFraction (fraction rest : Text) : Prop :=
  (fraction = [] ∧ rest.head? ≠ some '.') ∨
    ∃ places, fraction = '.' :: places ∧ places ≠ [] ∧
      (∀ character ∈ places, character.isDigit = true) ∧
      ∀ character ∈ rest.head?, character.isDigit = false

theorem dropSecondFraction?_eq_some_iff (text rest : Text) :
    dropSecondFraction? text = some rest ↔
      ∃ fraction, IsFraction fraction rest ∧ text = fraction ++ rest := by
  constructor
  · intro read
    rw [dropSecondFraction?.eq_def] at read
    split at read
    · rename_i digit more
      split_ifs at read with isDigit
      obtain rfl := Option.some.inj read
      refine ⟨'.' :: digit :: more.takeWhile Char.isDigit, Or.inr ⟨_, rfl, by simp, ?_, ?_⟩, by simp⟩
      · exact List.forall_mem_cons.2 ⟨isDigit, fun character => List.mem_takeWhile_imp⟩
      · intro character head
        have := List.head?_dropWhile_not Char.isDigit more
        rw [Option.mem_def.1 head] at this
        simpa using this
    · simp at read
    · rename_i noFraction noPoint
      obtain rfl := Option.some.inj read
      refine ⟨[], Or.inl ⟨rfl, fun head => ?_⟩, rfl⟩
      obtain ⟨more, rfl⟩ := List.head?_eq_some_iff.1 head
      cases more with
      | nil => exact noPoint rfl
      | cons digit more => exact noFraction digit more rfl
  · rintro ⟨fraction, ⟨rfl, noPoint⟩ | ⟨places, rfl, nonempty, digits, ends⟩, rfl⟩
    · rw [dropSecondFraction?.eq_def]
      split <;> simp_all
    · obtain ⟨digit, more, rfl⟩ := List.exists_cons_of_ne_nil nonempty
      rw [List.forall_mem_cons] at digits
      have dropped := dropWhile_append_of_ends digits.2 ends
      simp [dropSecondFraction?, digits.1, dropped]

theorem dropTime?_eq_some_iff (text rest : Text) :
    dropTime? .established text = some rest ↔
      ∃ clock fraction, IsClock clock ∧ IsFraction fraction rest ∧
        text = clock ++ (fraction ++ rest) := by
  constructor
  · intro read
    obtain ⟨⟨hourNumber, behindHour⟩, hourRead, minuted⟩ := Option.bind_eq_some_iff.1 read
    obtain ⟨⟨minuteNumber, behindMinute⟩, minuteRead, seconded⟩ := Option.bind_eq_some_iff.1 minuted
    obtain ⟨hour, hourLength, hourNatural, rfl⟩ := (fixedNumber?_eq_some_iff ..).1 hourRead
    obtain ⟨minute, minuteLength, minuteNatural, rfl⟩ := (behind?_eq_some_iff ..).1 minuteRead
    dsimp only at seconded
    split at seconded
    · simp at seconded
    rename_i early
    split at seconded
    · obtain ⟨⟨secondNumber, behindSecond⟩, secondRead, final⟩ := Option.bind_eq_some_iff.1 seconded
      obtain ⟨second, secondLength, secondNatural, same⟩ := (behind?_eq_some_iff ..).1 secondRead
      obtain ⟨-, rfl⟩ := List.cons.inj same
      dsimp only at final
      split_ifs at final with late
      obtain ⟨fraction, isFraction, rfl⟩ := (dropSecondFraction?_eq_some_iff ..).1 final
      simp only [Bool.or_eq_true, decide_eq_true_eq, not_or, not_lt] at early late
      refine ⟨_, fraction, .of ⟨hourLength, hourNatural⟩ ⟨minuteLength, minuteNatural⟩
        ⟨secondLength, secondNatural⟩ ⟨early.1, early.2, late⟩, isFraction, ?_⟩
      simp
    · simp at seconded
  · rintro ⟨_, fraction, @⟨hour, minute, second, hourNumber, minuteNumber, secondNumber, hourDigits,
      minuteDigits, secondDigits, bounds⟩, isFraction, rfl⟩
    have hourRead :
        fixedNumber? 2 (hour ++ ':' :: (minute ++ ':' :: (second ++ (fraction ++ rest)))) =
          some (hourNumber, _) :=
      (fixedNumber?_eq_some_iff ..).2 ⟨hour, hourDigits.1, hourDigits.2, rfl⟩
    have minuteRead :
        behind? ':' (':' :: (minute ++ ':' :: (second ++ (fraction ++ rest)))) =
          some (minuteNumber, _) :=
      (behind?_eq_some_iff ..).2 ⟨minute, minuteDigits.1, minuteDigits.2, rfl⟩
    have secondRead :
        behind? ':' (':' :: (second ++ (fraction ++ rest))) = some (secondNumber, fraction ++ rest) :=
      (behind?_eq_some_iff ..).2 ⟨second, secondDigits.1, secondDigits.2, rfl⟩
    have fractionRead := (dropSecondFraction?_eq_some_iff ..).2 ⟨fraction, isFraction, rfl⟩
    rw [List.append_assoc, List.cons_append, List.append_assoc, List.cons_append, dropTime?, hourRead]
    have hours : ¬ 23 < hourNumber := by omega
    have minutes : ¬ 59 < minuteNumber := by omega
    have seconds : ¬ 59 < secondNumber := by omega
    simp [minuteRead, secondRead, fractionRead, hours, minutes, seconds]

theorem IsClock.dropTime?_append
    {clock fraction rest : Text}
    (isClock : IsClock clock)
    (isFraction : IsFraction fraction rest) :
    dropTime? .established (clock ++ (fraction ++ rest)) = some rest :=
  (dropTime?_eq_some_iff ..).2 ⟨clock, fraction, isClock, isFraction, rfl⟩

/-! ## Offsets -/

theorem isOffset_cases
    {offset : Text}
    (valid : isOffset offset = true) :
    offset = [] ∨ offset = ['Z'] ∨ offset = ['z'] ∨
      ∃ sign hours minutes, (sign = '+' ∨ sign = '-') ∧
        (∀ character ∈ hours ++ minutes, character.isDigit = true) ∧
        offset = sign :: (hours ++ ':' :: minutes) := by
  rw [isOffset.eq_def] at valid
  split at valid
  · exact Or.inl rfl
  · exact Or.inr (Or.inl rfl)
  · exact Or.inr (Or.inr (Or.inl rfl))
  · rename_i sign rest _ _
    rw [Bool.and_eq_true] at valid
    obtain ⟨signs, valid⟩ := valid
    split at valid
    · rename_i hourNumber behind hourRead
      split at valid
      · rename_i minuteNumber minuteRead
        obtain ⟨hours, -, hourNatural, rfl⟩ := (fixedNumber?_eq_some_iff ..).1 hourRead
        obtain ⟨minutes, -, minuteNatural, rfl⟩ := (behind?_eq_some_iff ..).1 minuteRead
        refine Or.inr (Or.inr (Or.inr ⟨sign, hours, minutes, by simpa using signs, ?_, by simp⟩))
        exact List.forall_mem_append.2
          ⟨forall_isDigit_of_natural? hourNatural, forall_isDigit_of_natural? minuteNatural⟩
      · simp at valid
    · simp at valid

/-! ## Usual forms -/

theorem usualMark_of_isDigit
    {character : Char}
    (digit : character.isDigit = true) :
    usualMark character = character := by
  have blank : character ≠ ' ' := by rintro rfl; exact absurd digit (by decide)
  have small : character ≠ 't' := by rintro rfl; exact absurd digit (by decide)
  have zulu : character ≠ 'z' := by rintro rfl; exact absurd digit (by decide)
  simp [usualMark, blank, small, zulu]

theorem usualMark_usualMark (character : Char) :
    usualMark (usualMark character) = usualMark character := by
  by_cases mark : character = ' ' ∨ character = 't'
  · rcases mark with rfl | rfl <;> rfl
  · by_cases zulu : character = 'z'
    · subst zulu
      rfl
    · rw [not_or] at mark
      simp [usualMark, mark.1, mark.2, zulu]

theorem usualMark_eq_point_iff (character : Char) :
    usualMark character = '.' ↔ character = '.' := by
  by_cases mark : character = ' ' ∨ character = 't'
  · rcases mark with rfl | rfl <;> decide
  · by_cases zulu : character = 'z'
    · subst zulu
      decide
    · rw [not_or] at mark
      simp [usualMark, mark.1, mark.2, zulu]

theorem point_not_mem_map_usualMark
    {text : Text}
    (noPoint : '.' ∉ text) :
    '.' ∉ text.map usualMark := by
  rw [List.mem_map]
  rintro ⟨character, member, same⟩
  exact noPoint ((usualMark_eq_point_iff character).1 same ▸ member)

theorem map_usualMark_of_isDigit
    {text : Text}
    (digits : ∀ character ∈ text, character.isDigit = true) :
    text.map usualMark = text := by
  rw [List.map_congr_left fun character member => usualMark_of_isDigit (digits character member)]
  exact List.map_id' text

theorem not_mem_of_isDigit
    {text : Text}
    (digits : ∀ character ∈ text, character.isDigit = true)
    {character : Char}
    (other : character.isDigit = false) :
    character ∉ text := by
  intro member
  rw [digits character member] at other
  exact Bool.noConfusion other

/-- The characters of moments in their usual form: those of words, but no underscores. -/
def isUsualCharacter (character : Char) : Bool :=
  isAtomCharacter character && character != '_'

theorem isUsualCharacter_of_isDigit
    {character : Char}
    (digit : character.isDigit = true) :
    isUsualCharacter character = true := by
  have other : character ≠ '_' := by rintro rfl; exact absurd digit (by decide)
  simp [isUsualCharacter, isAtomCharacter, Char.isAlphanum, digit, other]

/-- The offsets in which all marks have their usual spelling. -/
structure IsUsualOffset (offset : Text) : Prop where
  valid : isOffset offset = true
  noPoint : '.' ∉ offset
  noDigit : ∀ character ∈ offset.head?, character.isDigit = false
  marks : offset.map usualMark = offset
  characters : ∀ character ∈ offset, isUsualCharacter character = true

theorem isUsualOffset_map
    {offset : Text}
    (valid : isOffset offset = true) :
    IsUsualOffset (offset.map usualMark) := by
  rcases isOffset_cases valid with rfl | rfl | rfl | ⟨sign, hours, minutes, signs, digits, rfl⟩
  · exact ⟨rfl, by decide, by simp, rfl, by simp⟩
  · exact ⟨rfl, by decide, by rintro _ ⟨⟩; rfl, rfl, List.forall_mem_singleton.2 rfl⟩
  · exact ⟨rfl, by decide, by rintro _ ⟨⟩; rfl, rfl, List.forall_mem_singleton.2 rfl⟩
  · rw [List.forall_mem_append] at digits
    have same : (sign :: (hours ++ ':' :: minutes)).map usualMark = sign :: (hours ++ ':' :: minutes) := by
      rw [List.map_cons, List.map_append, List.map_cons, map_usualMark_of_isDigit digits.1,
        map_usualMark_of_isDigit digits.2]
      rcases signs with rfl | rfl <;> rfl
    have usual {text : Text} (numeral : ∀ character ∈ text, character.isDigit = true) :
        ∀ character ∈ text, isUsualCharacter character = true :=
      fun character member => isUsualCharacter_of_isDigit (numeral character member)
    rw [same]
    refine ⟨valid, ?_, ?_, same, ?_⟩
    · have first : '.' ≠ sign := by rcases signs with rfl | rfl <;> decide
      simp [first, not_mem_of_isDigit digits.1, not_mem_of_isDigit digits.2]
    · rintro _ ⟨⟩
      rcases signs with rfl | rfl <;> rfl
    · simp only [List.forall_mem_cons, List.forall_mem_append]
      refine ⟨?_, usual digits.1, rfl, usual digits.2⟩
      rcases signs with rfl | rfl <;> rfl

theorem printSecondFraction_nil (offset : Text) : printSecondFraction [] offset = [] := by
  simp [printSecondFraction]

/-- The usual form of a moment, part by part. -/
theorem printMoment_append
    {front fraction offset : Text}
    (noPoint : '.' ∉ front)
    (lengths : front.length = 19 ∨ (front.length ≤ 19 ∧ offset = []))
    (isFraction : IsFraction fraction offset)
    (valid : isOffset offset = true) :
    printMoment (front ++ (fraction ++ offset)) =
      front.map usualMark ++
        (printSecondFraction (fraction.drop 1) (offset.map usualMark) ++
          printOffset (offset.map usualMark)) := by
  have usual := isUsualOffset_map valid
  have frontPoint := point_not_mem_map_usualMark noPoint
  have passes :
      ∀ text : Text, '.' ∉ text → ∀ character ∈ text, (character != '.') = true := by
    intro text absent character member
    exact bne_iff_ne.2 fun same => absent (same ▸ member)
  rcases isFraction with ⟨rfl, -⟩ | ⟨places, rfl, -, digits, -⟩
  · have all := passes (front.map usualMark ++ offset.map usualMark)
      (by rw [List.mem_append, not_or]; exact ⟨frontPoint, usual.noPoint⟩)
    have whole :
        (front ++ ([] ++ offset)).map usualMark = front.map usualMark ++ offset.map usualMark := by
      simp
    rw [printMoment, whole]
    simp only [List.takeWhile_eq_self_iff.2 all, List.dropWhile_eq_nil_iff.2 all]
    rw [List.drop_nil, printSecondFraction_nil, List.nil_append]
    rcases lengths with exactly | ⟨atMost, rfl⟩
    · rw [List.take_left' (by simpa using exactly), List.drop_left' (by simpa using exactly)]
    · simp [List.take_of_length_le, List.drop_eq_nil_of_le, atMost]
  · have whole :
        (front ++ ('.' :: places ++ offset)).map usualMark =
          front.map usualMark ++ '.' :: (places ++ offset.map usualMark) := by
      have point : usualMark '.' = '.' := by decide
      simp [point, map_usualMark_of_isDigit digits]
    have before := passes _ frontPoint
    have pointEnds :
        ∀ character ∈ ('.' :: (places ++ offset.map usualMark)).head?, (character != '.') = false := by
      rintro _ ⟨⟩
      rfl
    have taken :
        (places ++ offset.map usualMark).takeWhile Char.isDigit = places :=
      takeWhile_append_of_ends digits usual.noDigit
    have dropped :
        (places ++ offset.map usualMark).dropWhile Char.isDigit = offset.map usualMark :=
      dropWhile_append_of_ends digits usual.noDigit
    rw [printMoment, whole]
    simp only [takeWhile_append_of_ends before pointEnds, dropWhile_append_of_ends before pointEnds,
      taken, dropped, List.append_assoc, List.drop_succ_cons, List.drop_zero]

theorem IsUsualOffset.printOffset
    {offset : Text}
    (usual : IsUsualOffset offset) :
    IsUsualOffset (printOffset offset) := by
  rw [Toml.printOffset]
  split
  · exact ⟨rfl, by decide, by rintro _ ⟨⟩; rfl, rfl, List.forall_mem_singleton.2 rfl⟩
  · exact usual

theorem printOffset_printOffset (offset : Text) :
    printOffset (printOffset offset) = printOffset offset := by
  cases none : (offset == "+00:00" || offset == "-00:00") with
  | true =>
      have letter : printOffset offset = ['Z'] := by rw [printOffset, none, if_pos rfl]
      rw [letter]
      rfl
  | false =>
      have same : printOffset offset = offset := by
        rw [printOffset, none]
        rfl
      rw [same, same]

theorem isEmpty_printOffset (offset : Text) :
    (printOffset offset).isEmpty = offset.isEmpty := by
  rw [printOffset]
  split
  · rename_i none
    rw [Bool.or_eq_true, beq_iff_eq, beq_iff_eq] at none
    rcases none with rfl | rfl <;> rfl
  · rfl

/-- The digits of a fraction of a second that its usual form keeps. -/
def keptPlaces (places offset : Text) : Text :=
  if offset.isEmpty then places.take 9
  else ((places.take 9).reverse.dropWhile (· == '0')).reverse

theorem printSecondFraction_eq (places offset : Text) :
    printSecondFraction places offset =
      if (keptPlaces places offset).isEmpty then [] else '.' :: keptPlaces places offset := rfl

theorem keptPlaces_isPrefix (places offset : Text) :
    keptPlaces places offset <+: places.take 9 := by
  rw [keptPlaces]
  split
  · exact List.prefix_refl _
  · have suffix := List.dropWhile_suffix (l := (places.take 9).reverse) (· == '0')
    simpa using List.reverse_prefix.2 suffix

theorem keptPlaces_keptPlaces (places offset : Text) :
    keptPlaces (keptPlaces places offset) (printOffset offset) = keptPlaces places offset := by
  have short : (keptPlaces places offset).take 9 = keptPlaces places offset := by
    refine List.take_of_length_le ((keptPlaces_isPrefix places offset).length_le.trans ?_)
    simp
  nth_rewrite 1 [keptPlaces]
  rw [isEmpty_printOffset, short]
  split
  · rfl
  · rename_i behind
    rw [keptPlaces, if_neg behind, List.reverse_reverse, List.dropWhile_idempotent]

theorem drop_printSecondFraction (places offset : Text) :
    (printSecondFraction places offset).drop 1 = keptPlaces places offset := by
  rw [printSecondFraction_eq]
  split
  · rename_i empty
    rw [List.isEmpty_iff.1 empty]
    rfl
  · rfl

theorem printSecondFraction_again (places offset : Text) :
    printSecondFraction ((printSecondFraction places offset).drop 1) (printOffset offset) =
      printSecondFraction places offset := by
  rw [drop_printSecondFraction, printSecondFraction_eq, printSecondFraction_eq,
    keptPlaces_keptPlaces]

theorem IsFraction.isDigit
    {fraction rest : Text}
    (isFraction : IsFraction fraction rest) :
    ∀ character ∈ fraction.drop 1, character.isDigit = true := by
  rcases isFraction with ⟨rfl, -⟩ | ⟨places, rfl, -, digits, -⟩
  · simp
  · exact digits

theorem isFraction_printSecondFraction
    {places offset : Text}
    (digits : ∀ character ∈ places, character.isDigit = true)
    (usual : IsUsualOffset offset) :
    IsFraction (printSecondFraction places offset) (printOffset offset) := by
  rw [printSecondFraction_eq]
  split
  · refine Or.inl ⟨rfl, fun point => ?_⟩
    exact usual.printOffset.noPoint (List.mem_of_head? point)
  · rename_i nonempty
    refine Or.inr ⟨_, rfl, by simpa using nonempty, fun character member => ?_,
      usual.printOffset.noDigit⟩
    exact digits character (List.mem_of_mem_take ((keptPlaces_isPrefix places offset).mem member))

/-! ## Moments -/

/-- The characters of dates and of times of day up to the second. -/
def IsMomentMark (character : Char) : Prop :=
  character.isDigit = true ∨ character = '-' ∨ character = ':'

theorem IsDate.marks
    {date : Text}
    (isDate : IsDate date) :
    date.length = 10 ∧ ∀ character ∈ date, IsMomentMark character := by
  obtain ⟨⟨yearLength, yearRead⟩, ⟨monthLength, monthRead⟩, ⟨dayLength, dayRead⟩, -⟩ := isDate
  constructor
  · simp [yearLength, monthLength, dayLength]
  · simp only [List.forall_mem_append, List.forall_mem_cons]
    exact ⟨fun character member => Or.inl (forall_isDigit_of_natural? yearRead character member),
      Or.inr (Or.inl rfl),
      fun character member => Or.inl (forall_isDigit_of_natural? monthRead character member),
      Or.inr (Or.inl rfl),
      fun character member => Or.inl (forall_isDigit_of_natural? dayRead character member)⟩

theorem IsClock.marks
    {clock : Text}
    (isClock : IsClock clock) :
    clock.length = 8 ∧ ∀ character ∈ clock, IsMomentMark character := by
  obtain ⟨⟨hourLength, hourRead⟩, ⟨minuteLength, minuteRead⟩, ⟨secondLength, secondRead⟩, -⟩ :=
    isClock
  constructor
  · simp [hourLength, minuteLength, secondLength]
  · simp only [List.forall_mem_append, List.forall_mem_cons]
    exact ⟨fun character member => Or.inl (forall_isDigit_of_natural? hourRead character member),
      Or.inr (Or.inr rfl),
      fun character member => Or.inl (forall_isDigit_of_natural? minuteRead character member),
      Or.inr (Or.inr rfl),
      fun character member => Or.inl (forall_isDigit_of_natural? secondRead character member)⟩

/-- A moment: a date, a date and a time of day with or without an offset, or a time of day. -/
inductive IsMoment : Text → Prop
  | date {date : Text} (isDate : IsDate date) : IsMoment date
  | dated
      {date clock fraction offset : Text}
      {mark : Char}
      (isDate : IsDate date)
      (isMark : mark = 'T' ∨ mark = 't' ∨ mark = ' ')
      (isClock : IsClock clock)
      (isFraction : IsFraction fraction offset)
      (valid : isOffset offset = true) :
      IsMoment (date ++ mark :: (clock ++ (fraction ++ offset)))
  | time
      {clock fraction : Text}
      (isClock : IsClock clock)
      (isFraction : IsFraction fraction []) :
      IsMoment (clock ++ fraction)

/-- No date starts like a time of day. -/
theorem dropDate?_of_isClock
    {clock : Text}
    (isClock : IsClock clock)
    (rest : Text) :
    dropDate? (clock ++ rest) = none := by
  refine Option.eq_none_iff_forall_ne_some.2 fun behind read => ?_
  obtain ⟨date, isDate, same⟩ := (dropDate?_eq_some_iff ..).1 read
  obtain @⟨hour, minute, second, _, _, _, ⟨hourLength, -⟩, -, -, -⟩ := isClock
  obtain @⟨year, month, day, _, _, _, ⟨yearLength, yearRead⟩, -, -, -⟩ := isDate
  rw [List.append_assoc, List.append_assoc] at same
  -- The third character would be a colon and a digit of the year.
  have colon : (hour ++ (':' :: (minute ++ ':' :: second) ++ rest))[2]? = some ':' := by
    rw [List.getElem?_append_right hourLength.le, hourLength]
    rfl
  have digit : (year ++ ('-' :: (month ++ '-' :: day) ++ behind))[2]? = year[2]? :=
    List.getElem?_append_left (by omega)
  rw [same, digit] at colon
  exact absurd (forall_isDigit_of_natural? yearRead ':' (List.mem_of_getElem? colon)) (by decide)

theorem isMoment_iff (content : Text) :
    isMoment .established content = true ↔ IsMoment content := by
  constructor
  · intro moment
    rw [isMoment] at moment
    split at moment
    · rename_i dated
      obtain ⟨date, isDate, rfl⟩ := (dropDate?_eq_some_iff ..).1 dated
      rw [List.append_nil]
      exact .date isDate
    · rename_i mark rest dated
      obtain ⟨date, isDate, rfl⟩ := (dropDate?_eq_some_iff ..).1 dated
      rw [Bool.and_eq_true] at moment
      obtain ⟨marks, moment⟩ := moment
      split at moment
      · rename_i offset timed
        obtain ⟨clock, fraction, isClock, isFraction, rfl⟩ := (dropTime?_eq_some_iff ..).1 timed
        exact .dated isDate (by simpa [or_assoc] using marks) isClock isFraction moment
      · simp at moment
    · split at moment
      · rename_i rest timed
        obtain rfl := List.isEmpty_iff.1 moment
        obtain ⟨clock, fraction, isClock, isFraction, rfl⟩ := (dropTime?_eq_some_iff ..).1 timed
        rw [List.append_nil]
        exact .time isClock isFraction
      · simp at moment
  · intro moment
    rw [isMoment]
    cases moment with
    | date isDate =>
        have dated := isDate.dropDate?_append []
        rw [List.append_nil] at dated
        rw [dated]
    | @dated date clock fraction offset mark isDate isMark isClock isFraction valid =>
        rw [isDate.dropDate?_append]
        simpa [isClock.dropTime?_append isFraction, or_assoc, valid] using isMark
    | @time clock fraction isClock isFraction =>
        have timed := isClock.dropTime?_append isFraction
        rw [List.append_nil] at timed
        rw [dropDate?_of_isClock isClock, timed]
        rfl

/-! ## The usual form of a moment -/

namespace IsMomentMark

variable
  {character : Char}
  (mark : IsMomentMark character)

include mark

theorem usualMark_eq : usualMark character = character := by
  rcases mark with digit | rfl | rfl
  · exact usualMark_of_isDigit digit
  · rfl
  · rfl

theorem ne_point : character ≠ '.' := by
  rintro rfl
  rcases mark with digit | dash | colon
  · exact absurd digit (by decide)
  · exact absurd dash (by decide)
  · exact absurd colon (by decide)

theorem isUsualCharacter : isUsualCharacter character = true := by
  rcases mark with digit | rfl | rfl
  · exact isUsualCharacter_of_isDigit digit
  · rfl
  · rfl

end IsMomentMark

theorem map_usualMark_of_marks
    {text : Text}
    (marks : ∀ character ∈ text, IsMomentMark character) :
    text.map usualMark = text := by
  rw [List.map_congr_left fun character member => (marks character member).usualMark_eq]
  exact List.map_id' text

theorem point_not_mem_of_marks
    {text : Text}
    (marks : ∀ character ∈ text, IsMomentMark character) :
    '.' ∉ text :=
  fun member => (marks '.' member).ne_point rfl

/-- What the readers need to know about a moment in its usual form. -/
structure IsUsualMoment (word : Text) : Prop where
  isMoment : IsMoment word
  fixed : printMoment word = word
  characters : ∀ character ∈ word, isUsualCharacter character = true

theorem IsFraction.characters
    {fraction rest : Text}
    (isFraction : IsFraction fraction rest) :
    ∀ character ∈ fraction, isUsualCharacter character = true := by
  rcases isFraction with ⟨rfl, -⟩ | ⟨places, rfl, -, digits, -⟩
  · simp
  · exact List.forall_mem_cons.2
      ⟨rfl, fun character member => isUsualCharacter_of_isDigit (digits character member)⟩

section Parts

variable
  {front fraction offset : Text}
  (noPoint : '.' ∉ front)
  (lengths : front.length = 19 ∨ (front.length ≤ 19 ∧ offset = []))
  (isFraction : IsFraction fraction offset)
  (valid : isOffset offset = true)

include noPoint lengths isFraction valid

/-- The usual form is its own usual form. -/
theorem printMoment_printMoment_append :
    printMoment (printMoment (front ++ (fraction ++ offset))) =
      printMoment (front ++ (fraction ++ offset)) := by
  have usual := isUsualOffset_map valid
  have again := printMoment_append (point_not_mem_map_usualMark noPoint)
    (lengths.imp (fun exactly => by simpa using exactly) fun none => by
      obtain ⟨atMost, rfl⟩ := none
      exact ⟨by simpa using atMost, rfl⟩)
    (isFraction_printSecondFraction isFraction.isDigit usual) usual.printOffset.valid
  have marks : (front.map usualMark).map usualMark = front.map usualMark := by
    rw [List.map_map]
    exact List.map_congr_left fun character _ => usualMark_usualMark character
  rw [printMoment_append noPoint lengths isFraction valid, again, usual.printOffset.marks,
    printSecondFraction_again, printOffset_printOffset, marks]

theorem characters_printMoment_append
    (characters : ∀ character ∈ front.map usualMark, isUsualCharacter character = true) :
    ∀ character ∈ printMoment (front ++ (fraction ++ offset)),
      isUsualCharacter character = true := by
  have usual := isUsualOffset_map valid
  have places := isFraction_printSecondFraction isFraction.isDigit usual
  rw [printMoment_append noPoint lengths isFraction valid]
  exact List.forall_mem_append.2
    ⟨characters, List.forall_mem_append.2 ⟨places.characters, usual.printOffset.characters⟩⟩

end Parts

/-- The usual form of a moment is a moment in its usual form. -/
theorem isUsualMoment_printMoment
    {content : Text}
    (moment : IsMoment content) :
    IsUsualMoment (printMoment content) := by
  cases moment with
  | date isDate =>
      obtain ⟨length, marks⟩ := isDate.marks
      have same : printMoment (content ++ ([] ++ [])) = content ++ ([] ++ []) := by
        rw [printMoment_append (point_not_mem_of_marks marks) (Or.inr ⟨by omega, rfl⟩)
          (Or.inl ⟨rfl, by simp⟩) rfl, map_usualMark_of_marks marks]
        rfl
      simp only [List.append_nil] at same
      rw [same]
      exact ⟨.date isDate, same, fun character member => (marks character member).isUsualCharacter⟩
  | @dated date clock fraction offset mark isDate isMark isClock isFraction valid =>
      obtain ⟨dateLength, dateMarks⟩ := isDate.marks
      obtain ⟨clockLength, clockMarks⟩ := isClock.marks
      have usual := isUsualOffset_map valid
      have shape :
          date ++ mark :: (clock ++ (fraction ++ offset)) =
            (date ++ mark :: clock) ++ (fraction ++ offset) := by simp
      have letter : usualMark mark = 'T' := by rcases isMark with rfl | rfl | rfl <;> rfl
      have front : (date ++ mark :: clock).map usualMark = date ++ 'T' :: clock := by
        rw [List.map_append, List.map_cons, map_usualMark_of_marks dateMarks,
          map_usualMark_of_marks clockMarks, letter]
      have noPoint : '.' ∉ date ++ mark :: clock := by
        have other : '.' ≠ mark := by rcases isMark with rfl | rfl | rfl <;> decide
        simp [other, point_not_mem_of_marks dateMarks, point_not_mem_of_marks clockMarks]
      have lengths : (date ++ mark :: clock).length = 19 := by simp [dateLength, clockLength]
      rw [shape]
      refine ⟨?_, printMoment_printMoment_append noPoint (Or.inl lengths) isFraction valid,
        characters_printMoment_append noPoint (Or.inl lengths) isFraction valid ?_⟩
      · rw [printMoment_append noPoint (Or.inl lengths) isFraction valid, front, List.append_assoc,
          List.cons_append]
        exact .dated isDate (Or.inl rfl) isClock
          (isFraction_printSecondFraction isFraction.isDigit usual) usual.printOffset.valid
      · rw [front]
        simp only [List.forall_mem_append, List.forall_mem_cons]
        exact ⟨fun character member => (dateMarks character member).isUsualCharacter, rfl,
          fun character member => (clockMarks character member).isUsualCharacter⟩
  | @time clock fraction isClock isFraction =>
      obtain ⟨length, marks⟩ := isClock.marks
      have noPoint := point_not_mem_of_marks marks
      have front := map_usualMark_of_marks marks
      have lengths : clock.length = 19 ∨ (clock.length ≤ 19 ∧ ([] : Text) = []) :=
        Or.inr ⟨by omega, rfl⟩
      rw [← List.append_nil fraction]
      refine ⟨?_, printMoment_printMoment_append noPoint lengths isFraction rfl,
        characters_printMoment_append noPoint lengths isFraction rfl ?_⟩
      · rw [printMoment_append noPoint lengths isFraction rfl, front]
        have nothing : IsUsualOffset (([] : Text).map usualMark) := isUsualOffset_map rfl
        have places := isFraction_printSecondFraction isFraction.isDigit nothing
        simpa [Toml.printOffset] using IsMoment.time isClock places
      · rw [front]
        exact fun character member => (marks character member).isUsualCharacter

end Toml

end UnoBindgen
