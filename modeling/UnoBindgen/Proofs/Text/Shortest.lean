import UnoBindgen.Proofs.Text.Numeral
import UnoBindgen.Proofs.Text.Rounding

/-!
# Shortest fractions are read back

The values that are rounded to one machine fraction lie around it, between the points half way to
its neighbours.  A fraction with seventeen digits that is nearest to the machine fraction always
lies there, so the search for the shortest such fraction finds one, and the machine fraction nearest
to what it finds is the one it started from.
-/

namespace UnoBindgen.Text

/-! ## Values -/

/-- What a machine fraction comes to without its sign. -/
def Binary.magnitude (binary : Binary) : ℚ :=
  binary.mantissa * 2 ^ binary.exponent

/-- What a decimal fraction comes to without its sign. -/
def Decimal.magnitude (decimal : Decimal) : ℚ :=
  decimal.digits * 10 ^ decimal.exponent

theorem lt_pow_digitCount (number : Nat) :
    number < 10 ^ digitCount number :=
  (Nat.length_toDigits_le_iff (by decide) Nat.length_toDigits_pos).1 le_rfl

theorem pow_digitCount_le
    {number : Nat}
    (positive : 0 < number) :
    10 ^ (digitCount number - 1) ≤ number := by
  by_contra less
  rcases Nat.eq_zero_or_pos (digitCount number - 1) with single | several
  · rw [single] at less
    omega
  · have fewer := (Nat.length_toDigits_le_iff (by decide) several).2 (Nat.not_le.1 less)
    rw [← digitCount] at fewer
    omega

namespace Decimal

variable (decimal : Decimal)

theorem magnitude_lt :
    decimal.magnitude < 10 ^ (decimal.exponent + digitCount decimal.digits) := by
  rw [magnitude, add_comm, zpow_add₀ (by norm_num), zpow_natCast]
  refine mul_lt_mul_of_pos_right ?_ (by positivity)
  exact_mod_cast lt_pow_digitCount decimal.digits

theorem le_magnitude
    (positive : 0 < decimal.digits) :
    10 ^ (decimal.exponent + digitCount decimal.digits - 1) ≤ decimal.magnitude := by
  have counted : 0 < digitCount decimal.digits := Nat.length_toDigits_pos
  have shape : decimal.exponent + digitCount decimal.digits - 1 =
      ((digitCount decimal.digits - 1 : Nat) : Int) + decimal.exponent := by
    omega
  rw [magnitude, shape, zpow_add₀ (by norm_num), zpow_natCast]
  refine mul_le_mul_of_nonneg_right ?_ (by positivity)
  exact_mod_cast pow_digitCount_le positive

/-! ## Rounding to machine fractions -/

@[simp]
theorem nearest_negative :
    decimal.nearest.negative = decimal.negative := by
  rw [nearest]
  dsimp only
  split <;> rfl

/-- Rounding gives nothing for no digits and for digits too far behind the point, and otherwise the
nearest machine fraction. -/
theorem nearest_cases :
    ((decimal.digits = 0 ∨ decimal.exponent + digitCount decimal.digits < -400) ∧
        decimal.nearest = ⟨decimal.negative, 0, 0⟩) ∨
      (0 < decimal.digits ∧ -400 ≤ decimal.exponent + digitCount decimal.digits ∧
        IsNearest decimal.nearest.mantissa decimal.nearest.exponent decimal.magnitude) := by
  rw [nearest]
  dsimp only
  split
  · rename_i nothing
    exact Or.inl ⟨by simpa using nothing, rfl⟩
  · rename_i something
    simp only [Bool.or_eq_true, beq_iff_eq, decide_eq_true_eq, not_or, not_lt] at something
    obtain ⟨digits, places⟩ := something
    have positive := Nat.pos_of_ne_zero digits
    refine Or.inr ⟨positive, places, ?_⟩
    obtain ⟨above, below⟩ :=
      scaleQuotient_pos (by decide : 0 < 10) decimal.exponent positive Nat.one_pos
    have nearest := isNearest_nearestBinary below above
    rw [scaleQuotient_value] at nearest
    simpa [magnitude] using nearest

/-- A fraction whose value is rounded to something other than zero is not taken for zero. -/
theorem nearest_eq_of_isNearest
    {decimal : Decimal}
    {mantissa : Nat}
    {exponent : Int}
    (positive : 0 < mantissa)
    (isNearest : IsNearest mantissa exponent decimal.magnitude) :
    decimal.nearest = ⟨decimal.negative, mantissa, exponent⟩ := by
  have large := isNearest.le_value positive
  rcases decimal.nearest_cases with ⟨nothing | far, -⟩ | ⟨-, -, other⟩
  · rw [magnitude, nothing, Nat.cast_zero, zero_mul] at large
    exact absurd large (not_le.2 (by positivity))
  · have tiny : decimal.magnitude < 2 ^ (-1075 : Int) :=
      calc
        decimal.magnitude < 10 ^ (decimal.exponent + digitCount decimal.digits) :=
          decimal.magnitude_lt
        _ ≤ 10 ^ (-400 : Int) := zpow_le_zpow_right₀ (by norm_num) (by omega)
        _ ≤ 8 ^ (-400 : Int) := by
          rw [zpow_neg, zpow_neg]
          refine inv_anti₀ (by positivity) ?_
          exact zpow_le_zpow_left₀ (by norm_num) (by norm_num) (by norm_num)
        _ = 2 ^ (-1200 : Int) := by
          rw [show (8 : ℚ) = 2 ^ (3 : Int) by norm_num, ← zpow_mul]
          rfl
        _ ≤ 2 ^ (-1075 : Int) := zpow_le_zpow_right₀ (by norm_num) (by norm_num)
    exact absurd large (not_le.2 tiny)
  · obtain ⟨sameMantissa, sameExponent⟩ := isNearest.unique other
    rw [sameMantissa, sameExponent, ← decimal.nearest_negative]

end Decimal

/-! ## What is rounded to a machine fraction -/

/-- Whether a machine fraction uses all bits of its mantissa, or cannot because its exponent is the
smallest one. -/
structure Binary.IsNormal (binary : Binary) : Prop where
  positive : 0 < binary.mantissa
  short : binary.mantissa < 2 ^ 53
  least : leastExponent ≤ binary.exponent
  full : binary.exponent = leastExponent ∨ 2 ^ 52 ≤ binary.mantissa

theorem IsNearest.isNormal
    {binary : Binary}
    {value : ℚ}
    (nearest : IsNearest binary.mantissa binary.exponent value)
    (positive : 0 < binary.mantissa) :
    binary.IsNormal := by
  refine ⟨positive, nearest.short, nearest.least, nearest.fine.imp id fun fine => ?_⟩
  by_contra less
  obtain ⟨-, near⟩ := abs_le.1 nearest.rounded.near
  have step : (0 : ℚ) < 2 ^ binary.exponent := by positivity
  have bits : (binary.mantissa : ℚ) + 1 ≤ 2 ^ 52 := by exact_mod_cast Nat.not_le.1 less
  rw [zpow_sub_one₀ (by norm_num), ← div_div, div_inv_eq_mul] at fine
  linarith

namespace Binary

variable
  {binary : Binary}
  {value : ℚ}

/-- How far below a machine fraction, in steps of its exponent, a value may be that is rounded to
it.  The steps below the smallest full mantissa are half as wide. -/
def reachBelow (binary : Binary) : ℚ :=
  if binary.mantissa = 2 ^ 52 ∧ leastExponent < binary.exponent then 1 / 4 else 1 / 2

/-- Whether a value lies between the points half way to the neighbours of a machine fraction, which
belong to it if its mantissa is even. -/
structure Covers
    (binary : Binary)
    (value : ℚ) :
    Prop where
  lower : binary.mantissa - binary.reachBelow ≤ value / 2 ^ binary.exponent
  upper : value / 2 ^ binary.exponent ≤ binary.mantissa + 1 / 2
  inside :
    ¬ Even binary.mantissa →
      binary.mantissa - binary.reachBelow < value / 2 ^ binary.exponent ∧
        value / 2 ^ binary.exponent < binary.mantissa + 1 / 2

theorem reachBelow_pos (binary : Binary) :
    0 < binary.reachBelow := by
  rw [reachBelow]
  split <;> norm_num

theorem reachBelow_le (binary : Binary) :
    binary.reachBelow ≤ 1 / 2 := by
  rw [reachBelow]
  split <;> norm_num

theorem covers_of_near
    (lower : binary.mantissa - binary.reachBelow < value / 2 ^ binary.exponent)
    (upper : value / 2 ^ binary.exponent < binary.mantissa + 1 / 2) :
    binary.Covers value :=
  ⟨lower.le, upper.le, fun _ => ⟨lower, upper⟩⟩

theorem covers_magnitude (binary : Binary) :
    binary.Covers binary.magnitude := by
  have step : (2 : ℚ) ^ binary.exponent ≠ 0 := by positivity
  have reach := binary.reachBelow_pos
  apply covers_of_near <;> rw [magnitude, mul_div_cancel_right₀ _ step] <;> linarith

/-- What is covered is rounded to the machine fraction that covers it. -/
theorem Covers.isNearest
    (covers : binary.Covers value)
    (normal : binary.IsNormal) :
    IsNearest binary.mantissa binary.exponent value := by
  have reach := binary.reachBelow_le
  have lower := covers.lower
  have upper := covers.upper
  refine ⟨⟨abs_le.2 ⟨by linarith, by linarith⟩, fun tie => ?_⟩, normal.short, normal.least, ?_⟩
  · by_contra odd
    obtain ⟨above, below⟩ := covers.inside odd
    have inside : |value / 2 ^ binary.exponent - binary.mantissa| < 1 / 2 :=
      abs_lt.2 ⟨by linarith, by linarith⟩
    exact inside.ne tie
  · rcases eq_or_ne binary.exponent leastExponent with same | differs
    · exact Or.inl same
    · refine Or.inr ?_
      have full := normal.full.resolve_left differs
      have long : (2 : ℚ) ^ 52 ≤ binary.mantissa := by exact_mod_cast full
      rw [zpow_sub_one₀ (by norm_num), ← div_div, div_inv_eq_mul]
      rw [reachBelow] at lower
      split at lower
      · linarith
      · rename_i narrow
        have above := lt_of_le_of_ne normal.least differs.symm
        have more : 2 ^ 52 < binary.mantissa :=
          lt_of_le_of_ne full fun same => narrow ⟨same.symm, above⟩
        have next : (2 : ℚ) ^ 52 + 1 ≤ binary.mantissa := by exact_mod_cast more
        linarith

/-- The comparisons that decide whether digits are accepted are made in one unit. -/
theorem exists_scale
    (binary : Binary)
    (digits : Nat)
    (power : Int) :
    let left := scaleQuotient 10 power digits 1
    let unit := scaleQuotient 2 (binary.exponent - 2) 1 1
    ∃ scale : ℚ, 0 < scale ∧
      ((left.1 * unit.2 : Nat) : ℚ) = digits * 10 ^ power / 2 ^ binary.exponent * scale ∧
      ∀ quarters : Nat, ((quarters * unit.1 * left.2 : Nat) : ℚ) = quarters / 4 * scale := by
  intro left unit
  have leftPositive : (0 : ℚ) < left.2 := by
    exact_mod_cast scaleQuotient_snd_pos (by decide) power digits Nat.one_pos
  have unitPositive : (0 : ℚ) < unit.2 := by
    exact_mod_cast scaleQuotient_snd_pos (by decide) (binary.exponent - 2) 1 Nat.one_pos
  have leftValue := scaleQuotient_value 10 power digits 1
  have unitValue := scaleQuotient_value 2 (binary.exponent - 2) 1 1
  rw [div_eq_iff leftPositive.ne'] at leftValue
  rw [div_eq_iff unitPositive.ne', zpow_sub₀ (by norm_num)] at unitValue
  push_cast at leftValue unitValue
  refine ⟨left.2 * unit.2 * 2 ^ binary.exponent, by positivity, ?_, fun quarters => ?_⟩
  · push_cast
    rw [leftValue]
    field_simp
  · push_cast
    rw [unitValue]
    norm_num
    ring

theorem accepts_iff
    (positive : 0 < binary.mantissa)
    (digits : Nat)
    (power : Int) :
    binary.accepts digits power = true ↔ binary.Covers (digits * 10 ^ power) := by
  obtain ⟨scale, scalePositive, value, bound⟩ := binary.exists_scale digits power
  have low : (((if binary.mantissa == Nat.pow 2 52 && decide (binary.exponent > leastExponent) then
        4 * binary.mantissa - 1 else 4 * binary.mantissa - 2 : Nat)) : ℚ) / 4 =
      binary.mantissa - binary.reachBelow := by
    simp only [reachBelow, Bool.and_eq_true, beq_iff_eq, decide_eq_true_eq, Nat.pow_eq, gt_iff_lt]
    split
    · rw [Nat.cast_sub (by omega)]
      push_cast
      ring
    · rw [Nat.cast_sub (by omega)]
      push_cast
      ring
  have high : ((4 * binary.mantissa + 2 : Nat) : ℚ) / 4 = binary.mantissa + 1 / 2 := by
    push_cast
    ring
  have even : (binary.mantissa % 2 == 0) = true ↔ Even binary.mantissa := by
    rw [beq_iff_eq, Nat.even_iff]
  rw [accepts]
  dsimp only
  split
  · rename_i isEven
    rw [decide_eq_true_eq, ← @Nat.cast_le ℚ, ← @Nat.cast_le ℚ, value, bound, bound, low, high,
      mul_le_mul_iff_left₀ scalePositive, mul_le_mul_iff_left₀ scalePositive]
    exact ⟨fun inside => ⟨inside.1, inside.2, fun odd => absurd (even.1 isEven) odd⟩,
      fun covers => ⟨covers.lower, covers.upper⟩⟩
  · rename_i isOdd
    rw [decide_eq_true_eq, ← @Nat.cast_lt ℚ, ← @Nat.cast_lt ℚ, value, bound, bound, low, high,
      mul_lt_mul_iff_left₀ scalePositive, mul_lt_mul_iff_left₀ scalePositive]
    exact ⟨fun inside => covers_of_near inside.1 inside.2,
      fun covers => covers.inside fun isEven => isOdd (even.2 isEven)⟩

/-! ## The search -/

/-- Seventeen digits are enough. -/
theorem covers_seventeenth
    (normal : binary.IsNormal)
    {top : Int}
    (reaches : 10 ^ top ≤ binary.magnitude)
    {digits : Nat}
    (rounded : IsRounded digits (binary.magnitude / 10 ^ (top - 16))) :
    binary.Covers (digits * 10 ^ (top - 16)) := by
  have step : (0 : ℚ) < 2 ^ binary.exponent := by positivity
  have place : (0 : ℚ) < 10 ^ (top - 16) := by positivity
  -- the unit of the last digit, in steps of the exponent
  obtain ⟨unit, shape⟩ : ∃ unit : ℚ, unit = 10 ^ (top - 16) / 2 ^ binary.exponent := ⟨_, rfl⟩
  have positive : 0 < unit := by rw [shape]; positivity
  have ratio : binary.magnitude / 10 ^ (top - 16) = binary.mantissa / unit := by
    rw [shape, magnitude]
    field_simp
  have small : unit * 10 ^ 16 ≤ binary.mantissa := by
    rw [shape, div_mul_eq_mul_div, div_le_iff₀ step]
    calc
      (10 : ℚ) ^ (top - 16) * 10 ^ 16 = 10 ^ top := by
        rw [← zpow_natCast, ← zpow_add₀ (by norm_num)]
        congr 1
        push_cast
        omega
      _ ≤ binary.magnitude := reaches
  have value : (digits : ℚ) * 10 ^ (top - 16) / 2 ^ binary.exponent = digits * unit := by
    rw [shape, mul_div_assoc]
  obtain ⟨near, far⟩ := abs_le.1 rounded.near
  rw [ratio] at near far
  have above : (binary.mantissa : ℚ) ≤ (digits + 1 / 2) * unit := by
    rw [← div_le_iff₀ positive]
    linarith
  have below : (digits - 1 / 2) * unit ≤ binary.mantissa := by
    rw [← le_div_iff₀ positive]
    linarith
  have short : (binary.mantissa : ℚ) < 2 ^ 53 := by exact_mod_cast normal.short
  apply covers_of_near <;> rw [value]
  · rw [reachBelow]
    split
    · rename_i wide
      have full : (binary.mantissa : ℚ) = 2 ^ 52 := by exact_mod_cast wide.1
      linarith
    · linarith
  · linarith

/-- What is tried first at a place is the machine fraction rounded to that place. -/
theorem isRounded_candidate
    (binary : Binary)
    (power : Int) :
    let quotient := scaleQuotient 2 binary.exponent binary.mantissa 1
    let scaled := scaleQuotient 10 (-power) quotient.1 quotient.2
    IsRounded (roundedQuotient scaled.1 scaled.2) (binary.magnitude / 10 ^ power) := by
  intro quotient scaled
  have unit : 0 < scaled.2 :=
    scaleQuotient_snd_pos (by decide) _ _ (scaleQuotient_snd_pos (by decide) _ _ Nat.one_pos)
  have value : (scaled.1 : ℚ) / scaled.2 = binary.magnitude / 10 ^ power := by
    rw [scaleQuotient_value, scaleQuotient_value, zpow_neg, ← div_eq_mul_inv, Nat.cast_one,
      div_one]
    rfl
  rw [← value]
  exact isRounded_roundedQuotient scaled.1 unit

/-- A round of the search finds digits that are accepted or leaves the work to the next one. -/
theorem shortestFrom_succ_cases
    (binary : Binary)
    (top : Int)
    (more count : Nat) :
    binary.accepts (binary.shortestFrom top (more + 1) count).1
        (binary.shortestFrom top (more + 1) count).2 = true ∨
      binary.shortestFrom top (more + 1) count = binary.shortestFrom top more (count + 1) := by
  rw [shortestFrom]
  dsimp only
  split
  · rename_i accepted
    exact Or.inl accepted
  · -- the second candidate is the other whole number next to what is rounded
    split
    · split
      · rename_i accepted
        exact Or.inl accepted
      · exact Or.inr rfl
    · split
      · rename_i accepted
        exact Or.inl accepted
      · exact Or.inr rfl

/-- At whatever count of digits the search stops, it stops at digits that are accepted. -/
theorem accepts_shortestFrom
    (normal : binary.IsNormal)
    {top : Int}
    (reaches : 10 ^ top ≤ binary.magnitude)
    {more count : Nat}
    (counted : count + more = 17) :
    binary.accepts (binary.shortestFrom top (more + 1) count).1
      (binary.shortestFrom top (more + 1) count).2 = true := by
  induction more generalizing count with
  | zero =>
      obtain rfl : count = 17 := by omega
      have power : top - ((17 : Nat) : Int) + 1 = top - 16 := by omega
      have covers := covers_seventeenth normal reaches (binary.isRounded_candidate (top - 16))
      have accepted := (accepts_iff normal.positive _ _).2 covers
      rw [shortestFrom]
      dsimp only
      rw [power, if_pos accepted]
      exact accepted
  | succ more induction =>
      rcases binary.shortestFrom_succ_cases top (more + 1) count with accepted | later
      · exact accepted
      · rw [later]
        exact induction (by omega)

end Binary

theorem dropZeros_value
    (more digits : Nat)
    (exponent : Int) :
    ((dropZeros more digits exponent).1 : ℚ) * 10 ^ (dropZeros more digits exponent).2 =
      digits * 10 ^ exponent := by
  induction more generalizing digits exponent with
  | zero => rfl
  | succ more induction =>
      rw [dropZeros]
      split
      · rename_i zero
        rw [induction, zpow_add_one₀ (by norm_num)]
        have tenfold : ((digits / 10 : Nat) : ℚ) * 10 = digits := by
          exact_mod_cast Nat.div_mul_cancel (Nat.dvd_of_mod_eq_zero zero.2)
        rw [← tenfold]
        ring
      · rfl

theorem topPlace_le
    {numerator denominator : Nat}
    (above : 0 < numerator)
    (below : 0 < denominator) :
    (10 : ℚ) ^ topPlace numerator denominator ≤ numerator / denominator := by
  rw [topPlace]
  dsimp only
  split
  · rename_i reached
    have value := scaleQuotient_value 10
      (-((digitCount numerator : Int) - digitCount denominator)) numerator denominator
    have unit := scaleQuotient_snd_pos (by decide : 0 < 10)
      (-((digitCount numerator : Int) - digitCount denominator)) numerator below
    have one : (1 : ℚ) ≤ numerator / denominator *
        10 ^ (-((digitCount numerator : Int) - digitCount denominator)) := by
      push_cast at value
      rw [← value, one_le_div (by exact_mod_cast unit)]
      exact_mod_cast reached
    rw [zpow_neg, ← div_eq_mul_inv, one_le_div (by positivity)] at one
    exact one
  · have unit : (0 : ℚ) < denominator := by exact_mod_cast below
    have counted : 0 < digitCount numerator := Nat.length_toDigits_pos
    have shape : (digitCount numerator : Int) - digitCount denominator - 1 =
        ((digitCount numerator - 1 : Nat) : Int) - (digitCount denominator : Nat) := by
      omega
    have low : (10 : ℚ) ^ (digitCount numerator - 1) ≤ numerator := by
      exact_mod_cast pow_digitCount_le above
    have high : (denominator : ℚ) ≤ 10 ^ digitCount denominator := by
      exact_mod_cast (lt_pow_digitCount denominator).le
    rw [shape, zpow_sub₀ (by norm_num), zpow_natCast, zpow_natCast]
    exact div_le_div₀ (by positivity) low unit high

namespace Binary

@[simp]
theorem shortest_negative (binary : Binary) :
    binary.shortest.negative = binary.negative := by
  rw [shortest]
  split <;> rfl

variable
  {binary : Binary}
  (normal : binary.IsNormal)

include normal

/-- The shortest fraction lies where it is rounded to the machine fraction. -/
theorem covers_shortest :
    binary.Covers binary.shortest.magnitude := by
  obtain ⟨above, below⟩ :=
    scaleQuotient_pos Nat.two_pos binary.exponent normal.positive Nat.one_pos
  have reaches := topPlace_le above below
  rw [scaleQuotient_value] at reaches
  have accepted := accepts_shortestFrom normal (by simpa [magnitude] using reaches)
    (by decide : 1 + 16 = 17)
  have covers := (accepts_iff normal.positive _ _).1 accepted
  rw [← dropZeros_value 20] at covers
  rw [shortest, if_neg (by simpa using normal.positive.ne')]
  exact covers

/-- The shortest fraction leads back to the machine fraction. -/
theorem nearest_shortest :
    binary.shortest.nearest = binary := by
  have nearest := (covers_shortest normal).isNearest normal
  rw [Decimal.nearest_eq_of_isNearest normal.positive nearest, shortest_negative]

end Binary

namespace Decimal

variable (decimal : Decimal)

theorem isNearest_of_pos
    {decimal : Decimal}
    (positive : 0 < decimal.nearest.mantissa) :
    IsNearest decimal.nearest.mantissa decimal.nearest.exponent decimal.magnitude := by
  rcases decimal.nearest_cases with ⟨-, nothing⟩ | ⟨-, -, nearest⟩
  · rw [nothing] at positive
    exact absurd positive (lt_irrefl 0)
  · exact nearest

theorem nearest_canonical
    {decimal : Decimal}
    (positive : 0 < decimal.nearest.mantissa) :
    decimal.canonical.nearest = decimal.nearest :=
  Binary.nearest_shortest ((isNearest_of_pos positive).isNormal positive)

theorem canonical_of_eq_zero
    {decimal : Decimal}
    (nothing : decimal.nearest.mantissa = 0) :
    decimal.canonical = ⟨decimal.negative, 0, 0⟩ := by
  rw [canonical, Binary.shortest, if_pos (by simpa using nothing), nearest_negative]

/-- A canonical fraction is its own canonical form. -/
@[simp]
theorem canonical_canonical :
    decimal.canonical.canonical = decimal.canonical := by
  rcases Nat.eq_zero_or_pos decimal.nearest.mantissa with nothing | positive
  · rw [canonical_of_eq_zero nothing]
    rfl
  · rw [canonical, nearest_canonical positive, canonical]

end Decimal

/-! ## Overflow -/

theorem leastOverflow_eq :
    (leastOverflow : ℚ) = (2 ^ 53 - 1 / 2) * 2 ^ (971 : Int) := by
  have whole : leastOverflow = (2 ^ 54 - 1) * 2 ^ 970 := by decide +kernel
  rw [whole, show (971 : Int) = ((970 : Nat) : Int) + 1 from rfl, zpow_add_one₀ (by norm_num),
    zpow_natCast, Nat.cast_mul, Nat.cast_pow]
  generalize ((2 : Nat) : ℚ) ^ 970 = power
  norm_num
  ring

/-- A value overflows exactly if it is rounded to an exponent that no machine fraction has. -/
theorem IsNearest.overflow_iff
    {mantissa : Nat}
    {exponent : Int}
    {value : ℚ}
    (nearest : IsNearest mantissa exponent value) :
    (leastOverflow : ℚ) ≤ value ↔ 971 < exponent := by
  have step : (0 : ℚ) < 2 ^ exponent := by positivity
  rw [leastOverflow_eq]
  constructor
  · intro large
    by_contra small
    have finer : (2 : ℚ) ^ exponent ≤ 2 ^ (971 : Int) :=
      zpow_le_zpow_right₀ (by norm_num) (not_lt.1 small)
    have below := nearest.below
    rw [div_lt_iff₀ step] at below
    linarith
  · intro beyond
    have coarse : (0 : ℚ) < 2 ^ (exponent - 1) := by positivity
    have larger : (2 : ℚ) ^ (971 : Int) ≤ 2 ^ (exponent - 1) :=
      zpow_le_zpow_right₀ (by norm_num) (by omega)
    have least : exponent ≠ leastExponent := by
      rw [leastExponent]
      omega
    have fine := nearest.fine.resolve_left least
    rw [le_div_iff₀ coarse] at fine
    linarith

namespace Decimal

variable (decimal : Decimal)

theorem overflows_iff_le
    (positive : 0 < decimal.digits) :
    decimal.overflows = true ↔ (leastOverflow : ℚ) ≤ decimal.magnitude := by
  have low : (10 : ℚ) ^ (300 : Int) ≤ leastOverflow := by
    exact_mod_cast (by decide +kernel : 10 ^ 300 ≤ leastOverflow)
  have high : (leastOverflow : ℚ) ≤ 10 ^ (400 : Int) := by
    exact_mod_cast (by decide +kernel : leastOverflow ≤ 10 ^ 400)
  have below := decimal.magnitude_lt
  have above := decimal.le_magnitude positive
  rw [overflows]
  split
  · rename_i few
    have places : decimal.exponent + digitCount decimal.digits ≤ 300 := by
      simp only [Bool.or_eq_true, beq_iff_eq, decide_eq_true_eq] at few
      omega
    have larger : (10 : ℚ) ^ (decimal.exponent + digitCount decimal.digits) ≤ 10 ^ (300 : Int) :=
      zpow_le_zpow_right₀ (by norm_num) places
    simp only [Bool.false_eq_true, false_iff, not_le]
    linarith
  · split
    · rename_i many
      have larger : (10 : ℚ) ^ (400 : Int) ≤
          10 ^ (decimal.exponent + digitCount decimal.digits - 1) :=
        zpow_le_zpow_right₀ (by norm_num) (by omega)
      simp only [true_iff]
      linarith
    · split
      · rename_i behind
        obtain ⟨places, shape⟩ := Int.eq_ofNat_of_zero_le (show 0 ≤ -decimal.exponent by omega)
        have exponent : decimal.exponent = -(places : Int) := by omega
        rw [magnitude, shape, Int.toNat_natCast, exponent, zpow_neg, ← div_eq_mul_inv,
          le_div_iff₀ (by positivity), zpow_natCast, decide_eq_true_eq, Nat.pow_eq, ge_iff_le]
        exact_mod_cast Iff.rfl
      · rename_i whole
        obtain ⟨places, exponent⟩ := Int.eq_ofNat_of_zero_le (not_lt.1 whole)
        rw [magnitude, exponent, Int.toNat_natCast, zpow_natCast, decide_eq_true_eq, Nat.pow_eq,
          ge_iff_le]
        exact_mod_cast Iff.rfl

/-- Whether a fraction is too large depends on the machine fraction nearest to it alone. -/
theorem overflows_iff :
    decimal.overflows = true ↔ 971 < decimal.nearest.exponent := by
  rcases decimal.nearest_cases with ⟨nothing, nearest⟩ | ⟨positive, -, nearest⟩
  · have fits : decimal.overflows = false := by
      have few : (decimal.digits == 0 ||
          decide (decimal.exponent + digitCount decimal.digits < 300)) = true := by
        simp only [Bool.or_eq_true, beq_iff_eq, decide_eq_true_eq]
        omega
      rw [overflows, if_pos few]
    rw [fits, nearest]
    simp
  · rw [overflows_iff_le decimal positive, nearest.overflow_iff]

theorem overflows_eq_of_nearest_eq
    {decimal other : Decimal}
    (same : decimal.nearest = other.nearest) :
    decimal.overflows = other.overflows := by
  rw [Bool.eq_iff_iff, overflows_iff, overflows_iff, same]

/-- The canonical form of a fraction that is not too large is not too large. -/
theorem overflows_canonical
    {decimal : Decimal}
    (fits : decimal.overflows = false) :
    decimal.canonical.overflows = false := by
  rcases Nat.eq_zero_or_pos decimal.nearest.mantissa with nothing | positive
  · rw [canonical_of_eq_zero nothing]
    rfl
  · rw [← fits]
    exact overflows_eq_of_nearest_eq (nearest_canonical positive)

end Decimal

end UnoBindgen.Text
