import UnoBindgen.Proofs.Text.Shortest
import UnoBindgen.Proofs.Toml.Words

/-!
# Printed fractions are read back

A canonical fraction is printed with a point.  Digits stand on both sides of it, without
superfluous zeros in front, so it is read as a fraction; and what is read is the printed fraction
itself, or what a machine keeps for it written out to its last digit.  The machine fraction nearest
to either is the same, so a canonical fraction that is not too large is read back.
-/

namespace UnoBindgen

namespace Text

theorem natural?_eq_ofDigitChars
    {text : Text}
    (nonempty : text ≠ [])
    (digits : ∀ character ∈ text, character.isDigit = true) :
    natural? 10 text = some (Nat.ofDigitChars 10 text 0) := by
  have filled : text.isEmpty = false := by simpa using nonempty
  rw [natural?, filled, readDigits_eq_ofDigitChars digits]
  rfl

end Text

namespace Toml

open Text

/-! ## Digits around a point -/

/-- The digits before and behind the point of a fraction, as a document may have them. -/
structure Pointed where
  negative : Bool
  whole : Text
  places : Text
  wholeDigits : ∀ character ∈ whole, character.isDigit = true
  placesDigits : ∀ character ∈ places, character.isDigit = true
  wholeNonempty : whole ≠ []
  placesNonempty : places ≠ []
  plain : hasPlainStart whole = true

namespace Pointed

/-- The digits with their point. -/
def unsigned (pointed : Pointed) : Text :=
  pointed.whole ++ '.' :: pointed.places

/-- The digits with their point and the sign. -/
def text (pointed : Pointed) : Text :=
  (if pointed.negative then ['-'] else []) ++ pointed.unsigned

/-- The fraction that the digits stand for. -/
def decimal (pointed : Pointed) : Decimal :=
  ⟨pointed.negative, Nat.ofDigitChars 10 (pointed.whole ++ pointed.places) 0,
    -(pointed.places.length : Int)⟩

variable (pointed : Pointed)

theorem exists_first :
    ∃ first more, pointed.unsigned = first :: more ∧ first.isDigit = true := by
  obtain ⟨first, more, shape⟩ := List.exists_cons_of_ne_nil pointed.wholeNonempty
  refine ⟨first, more ++ '.' :: pointed.places, by rw [unsigned, shape, List.cons_append], ?_⟩
  exact pointed.wholeDigits first (shape ▸ List.mem_cons_self)

theorem not_mem
    {character : Char}
    (noDigit : character.isDigit = false)
    (noPoint : character ≠ '.') :
    character ∉ pointed.unsigned := by
  have noDigits {digits : Text} (areDigits : ∀ digit ∈ digits, digit.isDigit = true) :
      character ∉ digits := by
    intro member
    rw [areDigits character member] at noDigit
    exact Bool.noConfusion noDigit
  rw [unsigned, List.mem_append, List.mem_cons, not_or, not_or]
  exact ⟨noDigits pointed.wholeDigits, noPoint, noDigits pointed.placesDigits⟩

theorem splitSign_text :
    splitSign pointed.text = (pointed.negative, pointed.unsigned) := by
  rw [text]
  cases pointed.negative with
  | true => rfl
  | false =>
      obtain ⟨first, more, shape, digit⟩ := pointed.exists_first
      rw [shape]
      exact splitSign_of_isDigit digit more

theorem filter_text :
    pointed.text.filter (· != '_') = pointed.text := by
  have absent := pointed.not_mem (by decide : '_'.isDigit = false) (by decide)
  refine List.filter_eq_self.2 fun character member => bne_iff_ne.2 ?_
  rintro rfl
  rw [text, List.mem_append] at member
  rcases member with sign | inside
  · split at sign <;> simp at sign
  · exact absent inside

/-- Digits with a point are no whole number. -/
theorem integer?_text :
    integer? pointed.text = none := by
  have noNatural : spacedNatural? 10 pointed.unsigned = none := by
    rw [spacedNatural?]
    split
    · refine Option.eq_none_iff_forall_ne_some.2 fun value read => ?_
      have point := forall_isDigit_of_natural? read '.' (by simp [unsigned])
      exact absurd point (by decide)
    · rfl
  have noBase
      (letter : Char)
      (rest : Text)
      (noDigit : letter.isDigit = false)
      (noPoint : letter ≠ '.') :
      pointed.text ≠ '0' :: letter :: rest := by
    intro same
    rw [text] at same
    split at same
    · exact absurd (List.cons.inj same).1 (by decide)
    · refine pointed.not_mem noDigit noPoint ?_
      rw [List.nil_append] at same
      simp [same]
  rw [integer?]
  · simp [pointed.splitSign_text, noNatural]
  · exact fun rest => noBase 'x' rest rfl (by decide)
  · exact fun rest => noBase 'o' rest rfl (by decide)
  · exact fun rest => noBase 'b' rest rfl (by decide)

theorem decimal?_text :
    decimal? pointed.text = some pointed.decimal := by
  have wholeDecimals : ∀ character ∈ pointed.whole, isDecimal character = true := by
    simpa only [isDecimal_eq_isDigit] using pointed.wholeDigits
  have placesDecimals : ∀ character ∈ pointed.places, isDecimal character = true := by
    simpa only [isDecimal_eq_isDigit] using pointed.placesDigits
  have ends : ∀ character ∈ ('.' :: pointed.places).head?, isDecimal character = false := by
    rintro _ ⟨⟩
    rfl
  have before : pointed.unsigned.takeWhile isDecimal = pointed.whole :=
    takeWhile_append_of_ends wholeDecimals ends
  have behind : pointed.unsigned.dropWhile isDecimal = '.' :: pointed.places :=
    dropWhile_append_of_ends wholeDecimals ends
  have after := List.takeWhile_eq_self_iff.2 placesDecimals
  have rest := List.dropWhile_eq_nil_iff.2 placesDecimals
  have filled : (pointed.whole.isEmpty && pointed.places.isEmpty) = false := by
    simp [pointed.wholeNonempty]
  have number := natural?_eq_ofDigitChars (by simp [pointed.wholeNonempty])
    (List.forall_mem_append.2 ⟨pointed.wholeDigits, pointed.placesDigits⟩)
  simp only [decimal?, pointed.splitSign_text, before, behind, after, rest, filled, number,
    readExponent?]
  simp [decimal]

/-- Digits with a point are a fraction. -/
theorem fraction?_text :
    fraction? pointed.text = some pointed.decimal := by
  have noMark : ∀ character ∈ pointed.unsigned,
      (character == 'e' || character == 'E') = false := by
    intro character member
    rw [Bool.or_eq_false_iff, beq_eq_false_iff_ne, beq_eq_false_iff_ne]
    constructor <;> rintro rfl <;> exact pointed.not_mem (by decide) (by decide) member
  have mantissa : pointed.unsigned.takeWhile
      (fun character => !(character == 'e' || character == 'E')) = pointed.unsigned :=
    List.takeWhile_eq_self_iff.2 fun character member => by rw [noMark character member]; rfl
  have exponent : pointed.unsigned.any
      (fun character => character == 'e' || character == 'E') = false :=
    List.any_eq_false.2 fun character member => by rw [noMark character member]; decide
  have noPoint : ∀ character ∈ pointed.whole, (character != '.') = true := by
    intro character member
    rw [bne_iff_ne]
    rintro rfl
    exact absurd (pointed.wholeDigits '.' member) (by decide)
  have ends : ∀ character ∈ ('.' :: pointed.places).head?, (character != '.') = false := by
    rintro _ ⟨⟩
    rfl
  have before : pointed.unsigned.takeWhile (· != '.') = pointed.whole :=
    takeWhile_append_of_ends noPoint ends
  have behind : pointed.unsigned.dropWhile (· != '.') = '.' :: pointed.places :=
    dropWhile_append_of_ends noPoint ends
  have wholeSpaced : underscoresBetweenDigits pointed.whole = true :=
    underscoresBetweenDigits_of_not_mem fun member =>
      absurd (pointed.wholeDigits '_' member) (by decide)
  have placesSpaced : underscoresBetweenDigits pointed.places = true :=
    underscoresBetweenDigits_of_not_mem fun member =>
      absurd (pointed.placesDigits '_' member) (by decide)
  simp only [fraction?, pointed.splitSign_text, pointed.filter_text, pointed.decimal?_text,
    mantissa, exponent, before, behind]
  simp [unsigned, pointed.plain, pointed.wholeNonempty, pointed.placesNonempty, wholeSpaced,
    placesSpaced]

theorem atom_text (fits : pointed.decimal.overflows = false) :
    atom .established pointed.text = .ok (.fraction pointed.decimal) := by
  obtain ⟨first, more, shape, digit⟩ := pointed.exists_first
  have unsigned :
      splitSign pointed.text = (false, first :: more) ∨
        splitSign pointed.text = (true, first :: more) := by
    rw [pointed.splitSign_text, shape]
    cases pointed.negative <;> simp
  rw [atom_of_isDigit unsigned digit, numeral, pointed.integer?_text, pointed.fraction?_text]
  simp only [fits]
  rfl

/-- A whole number with a zero behind its point. -/
def ofNat
    (negative : Bool)
    (number : Nat) :
    Pointed where
  negative := negative
  whole := Text.ofNat number
  places := ['0']
  wholeDigits := isDigit_of_mem_ofNat number
  placesDigits := List.forall_mem_singleton.2 rfl
  wholeNonempty := ofNat_ne_nil number
  placesNonempty := List.cons_ne_nil '0' []
  plain := hasPlainStart_ofNat number

theorem decimal_ofNat
    (negative : Bool)
    (number : Nat) :
    (ofNat negative number).decimal = ⟨negative, 10 * number, -1⟩ := by
  have digits : Nat.ofDigitChars 10 (Text.ofNat number ++ ['0']) 0 = 10 * number := by
    rw [Nat.ofDigitChars_append, Text.ofNat, Nat.ofDigitChars_toDigits (by decide) (by decide)]
    rfl
  exact congrArg (fun digits => (⟨negative, digits, -1⟩ : Decimal)) digits

end Pointed

/-! ## Printing -/

theorem isAtomCharacter_of_mem_printFraction
    (value : Decimal) :
    ∀ character ∈ printFraction value, isAtomCharacter character = true := by
  have digits (number : Nat) : ∀ character ∈ ofNat number, isAtomCharacter character = true :=
    fun character member =>
      isAtomCharacter_of_isDigit (isDigit_of_mem_ofNat number character member)
  have zeros (count : Nat) :
      ∀ character ∈ List.replicate count '0', isAtomCharacter character = true := by
    intro character member
    rw [List.eq_of_mem_replicate member]
    rfl
  have sign : ∀ character ∈ value.sign, isAtomCharacter character = true := by
    rw [Decimal.sign]
    split
    · exact List.forall_mem_singleton.2 rfl
    · simp
  rw [printFraction]
  split
  · simp only [List.forall_mem_append]
    exact ⟨⟨sign, digits _⟩, List.forall_mem_cons.2 ⟨rfl, List.forall_mem_singleton.2 rfl⟩⟩
  · rw [Decimal.positional]
    refine List.forall_mem_append.2 ⟨sign, ?_⟩
    split
    · refine List.forall_mem_append.2 ⟨digits _, ?_⟩
      split
      · simp
      · exact zeros _
    · have padded (count : Nat) :
          ∀ character ∈ List.replicate count '0' ++ ofNat value.digits,
            isAtomCharacter character = true :=
        List.forall_mem_append.2 ⟨zeros count, digits value.digits⟩
      refine List.forall_mem_append.2 ⟨fun character member => ?_, List.forall_mem_cons.2
        ⟨rfl, fun character member => ?_⟩⟩
      · exact padded _ character (List.mem_of_mem_take member)
      · exact padded _ character (List.mem_of_mem_drop member)

theorem hasPlainStart_take
    {text : Text}
    (plain : hasPlainStart text = true)
    (count : Nat) :
    hasPlainStart (text.take count) = true := by
  rw [hasPlainStart.eq_def]
  split
  · rename_i second rest same
    rw [← List.take_append_drop count text, same] at plain
    exact plain
  · rfl

/-- The digits of a fraction that is not whole stand around a point. -/
theorem exists_pointed_positional
    {value : Decimal}
    (behind : value.exponent < 0) :
    ∃ pointed : Pointed, pointed.text = value.positional ∧ pointed.decimal = value := by
  obtain ⟨count, shape⟩ := Int.eq_ofNat_of_zero_le (show 0 ≤ -value.exponent by omega)
  obtain ⟨padded, padding⟩ :
      ∃ padded, padded =
        List.replicate (count + 1 - (ofNat value.digits).length) '0' ++ ofNat value.digits :=
    ⟨_, rfl⟩
  have length : padded.length = max (count + 1) (ofNat value.digits).length := by
    rw [padding, List.length_append, List.length_replicate]
    omega
  have digits : ∀ character ∈ padded, character.isDigit = true := by
    rw [padding, List.forall_mem_append]
    refine ⟨fun character member => ?_, isDigit_of_mem_ofNat value.digits⟩
    rw [List.eq_of_mem_replicate member]
    rfl
  have plain : hasPlainStart (padded.take (padded.length - count)) = true := by
    rcases Nat.lt_or_ge count (ofNat value.digits).length with long | short
    · have same : padded = ofNat value.digits := by
        rw [padding, Nat.sub_eq_zero_of_le long, List.replicate_zero, List.nil_append]
      rw [same]
      exact hasPlainStart_take (hasPlainStart_ofNat value.digits) _
    · -- the digits are too few, so the zero in front of the point is one of the padding
      have single : padded.length - count = 1 := by omega
      obtain ⟨zeros, padded⟩ : ∃ zeros, count + 1 - (ofNat value.digits).length = zeros + 1 :=
        Nat.exists_eq_add_one_of_ne_zero (by omega)
      rw [single, padding, padded]
      rfl
  let pointed : Pointed :=
    { negative := value.negative
      whole := padded.take (padded.length - count)
      places := padded.drop (padded.length - count)
      wholeDigits := fun character member => digits character (List.mem_of_mem_take member)
      placesDigits := fun character member => digits character (List.mem_of_mem_drop member)
      wholeNonempty := List.ne_nil_of_length_pos (by rw [List.length_take]; omega)
      placesNonempty := List.ne_nil_of_length_pos (by rw [List.length_drop]; omega)
      plain := plain }
  refine ⟨pointed, ?_, ?_⟩
  · rw [Decimal.positional, if_neg (by omega), shape, Int.toNat_natCast]
    dsimp only
    rw [← padding]
    rfl
  · have number : Nat.ofDigitChars 10 (pointed.whole ++ pointed.places) 0 = value.digits := by
      rw [List.take_append_drop, padding, Nat.ofDigitChars_append,
        Nat.ofDigitChars_replicate_zero, Nat.mul_zero, ofNat,
        Nat.ofDigitChars_toDigits (by decide) (by decide)]
    have exponent : -(pointed.places.length : Int) = value.exponent := by
      rw [List.length_drop]
      omega
    rw [Pointed.decimal, number, exponent]

theorem exists_natCast_magnitude
    {value : Decimal}
    (isWhole : value.isWhole = true) :
    ∃ whole : Nat, value.magnitude = whole := by
  simp only [Decimal.isWhole, Bool.or_eq_true, beq_iff_eq, decide_eq_true_eq] at isWhole
  rw [Decimal.magnitude]
  rcases isWhole with nothing | before
  · exact ⟨0, by rw [nothing, Nat.cast_zero, zero_mul]⟩
  · obtain ⟨places, exponent⟩ := Int.eq_ofNat_of_zero_le before
    refine ⟨value.digits * 10 ^ places, ?_⟩
    rw [exponent, zpow_natCast]
    push_cast
    rfl

theorem natAbs_truncated
    {value : Decimal}
    {number : Nat}
    (same : value.nearest.magnitude = number) :
    value.truncated.natAbs = number := by
  have below := scaleQuotient_snd_pos Nat.two_pos value.nearest.exponent value.nearest.mantissa
    Nat.one_pos
  have quotient := scaleQuotient_value 2 value.nearest.exponent value.nearest.mantissa 1
  have unit : ((scaleQuotient 2 value.nearest.exponent value.nearest.mantissa 1).2 : ℚ) ≠ 0 := by
    exact_mod_cast below.ne'
  rw [Nat.cast_one, div_one, div_eq_iff unit] at quotient
  change _ = value.nearest.magnitude * _ at quotient
  rw [same] at quotient
  have product : (scaleQuotient 2 value.nearest.exponent value.nearest.mantissa 1).1 =
      number * (scaleQuotient 2 value.nearest.exponent value.nearest.mantissa 1).2 := by
    exact_mod_cast quotient
  rw [Decimal.truncated]
  dsimp only
  rw [product, Nat.mul_div_cancel number below]
  split
  · rw [Int.natAbs_neg, Int.natAbs_natCast]
  · exact Int.natAbs_natCast number

/-- A whole fraction written out to its last digit is nearest to the same machine fraction. -/
theorem nearest_truncated
    {value : Decimal}
    (canonical : value.canonical = value)
    (isWhole : value.isWhole = true) :
    (⟨value.negative, 10 * value.truncated.natAbs, -1⟩ : Decimal).nearest = value.nearest := by
  rcases Nat.eq_zero_or_pos value.nearest.mantissa with nothing | positive
  · rw [← canonical, Decimal.canonical_of_eq_zero nothing]
    cases value.negative <;> rfl
  · have nearest := Decimal.isNearest_of_pos positive
    have normal := nearest.isNormal positive
    obtain ⟨whole, same⟩ := exists_natCast_magnitude isWhole
    rw [same] at nearest
    obtain ⟨number, sameNumber⟩ : ∃ number : Nat, value.nearest.magnitude = number :=
      nearest.exists_natCast
    have printed : (⟨value.negative, 10 * value.truncated.natAbs, -1⟩ : Decimal).magnitude =
        value.nearest.magnitude := by
      rw [natAbs_truncated sameNumber, Decimal.magnitude, sameNumber, zpow_neg_one]
      push_cast
      ring
    have covers := value.nearest.covers_magnitude
    rw [← printed] at covers
    rw [Decimal.nearest_eq_of_isNearest positive (covers.isNearest normal),
      ← value.nearest_negative]

/-- A canonical fraction is printed as digits with a point that are nearest to the same machine
fraction. -/
theorem exists_pointed_printFraction
    {value : Decimal}
    (canonical : value.canonical = value) :
    ∃ pointed : Pointed,
      pointed.text = printFraction value ∧ pointed.decimal.nearest = value.nearest := by
  rw [printFraction]
  split
  · rename_i isWhole
    refine ⟨.ofNat value.negative value.truncated.natAbs, (List.append_assoc _ _ _).symm, ?_⟩
    rw [Pointed.decimal_ofNat]
    exact nearest_truncated canonical isWhole
  · rename_i notWhole
    simp only [Decimal.isWhole, Bool.or_eq_true, decide_eq_true_eq, not_or, not_le] at notWhole
    obtain ⟨pointed, printed, same⟩ := exists_pointed_positional notWhole.2
    exact ⟨pointed, printed, by rw [same]⟩

/-- The printed form of a canonical fraction that is not too large is read as a fraction with the
same canonical form. -/
theorem exists_atom_printFraction
    {value : Decimal}
    (canonical : value.canonical = value)
    (fits : value.overflows = false) :
    ∃ read, atom .established (printFraction value) = .ok (.fraction read) ∧
      read.canonical = value := by
  obtain ⟨pointed, printed, same⟩ := exists_pointed_printFraction canonical
  refine ⟨pointed.decimal, ?_, ?_⟩
  · rw [← printed]
    exact pointed.atom_text ((Decimal.overflows_eq_of_nearest_eq same).trans fits)
  · rw [Decimal.canonical, same]
    exact canonical

end Toml

end UnoBindgen
