import Mathlib
import UnoBindgen.Text.Shortest

/-!
# Rounding to machine fractions

The machine fraction that a quotient is rounded to depends on the value of the quotient alone.
Three things determine it.  Its mantissa is the value, measured in steps of its exponent and
rounded to a whole number with ties going to the even one.  The mantissa has at most fifty-three
bits.  And with any smaller exponent it would have more.
-/

namespace UnoBindgen.Text

/-! ## Quotients and their scaling -/

section Scaling

variable
  {base : Nat}
  (positive : 0 < base)

include positive

theorem scaleQuotient_pos
    (power : Int)
    {numerator denominator : Nat}
    (above : 0 < numerator)
    (below : 0 < denominator) :
    0 < (scaleQuotient base power numerator denominator).1 ∧
      0 < (scaleQuotient base power numerator denominator).2 := by
  rw [scaleQuotient]
  split
  · exact ⟨Nat.mul_pos above (Nat.pow_pos positive), below⟩
  · exact ⟨above, Nat.mul_pos below (Nat.pow_pos positive)⟩

theorem scaleQuotient_snd_pos
    (power : Int)
    (numerator : Nat)
    {denominator : Nat}
    (below : 0 < denominator) :
    0 < (scaleQuotient base power numerator denominator).2 := by
  rw [scaleQuotient]
  split
  · exact below
  · exact Nat.mul_pos below (Nat.pow_pos positive)

end Scaling

theorem scaleQuotient_value
    (base : Nat)
    (power : Int)
    (numerator denominator : Nat) :
    ((scaleQuotient base power numerator denominator).1 : ℚ) /
        (scaleQuotient base power numerator denominator).2 =
      numerator / denominator * (base : ℚ) ^ power := by
  rw [scaleQuotient]
  split
  · rename_i upwards
    obtain ⟨times, rfl⟩ := Int.eq_ofNat_of_zero_le upwards
    rw [Int.toNat_natCast, zpow_natCast, Nat.pow_eq]
    push_cast
    ring
  · rename_i downwards
    obtain ⟨times, shape⟩ := Int.eq_ofNat_of_zero_le (show 0 ≤ -power by omega)
    obtain rfl : power = -times := by omega
    rw [neg_neg, Int.toNat_natCast, zpow_neg, zpow_natCast, Nat.pow_eq]
    push_cast
    rw [div_mul_eq_div_div, div_eq_mul_inv _ ((base : ℚ) ^ times)]

/-! ## Rounding to whole numbers -/

/-- Whether a whole number is nearest to a value, where a tie goes to the even one. -/
structure IsRounded
    (whole : Nat)
    (value : ℚ) :
    Prop where
  near : |value - whole| ≤ 1 / 2
  even : |value - whole| = 1 / 2 → Even whole

section Parts

variable
  {whole : Nat}
  {part : ℚ}

theorem isRounded_down
    (nonnegative : 0 ≤ part)
    (half : 2 * part ≤ 1)
    (even : 2 * part = 1 → Even whole) :
    IsRounded whole (whole + part) := by
  constructor <;> rw [add_sub_cancel_left, abs_of_nonneg nonnegative]
  · linarith
  · intro tie
    exact even (by linarith)

theorem isRounded_up
    (small : part < 1)
    (half : 1 ≤ 2 * part)
    (even : 2 * part = 1 → Even (whole + 1)) :
    IsRounded (whole + 1) (whole + part) := by
  have rest : whole + part - (whole + 1 : Nat) = part - 1 := by
    push_cast
    ring
  constructor <;> rw [rest, abs_of_neg (by linarith)]
  · linarith
  · intro tie
    exact even (by linarith)

end Parts

theorem isRounded_roundedQuotient
    (numerator : Nat)
    {denominator : Nat}
    (below : 0 < denominator) :
    IsRounded (roundedQuotient numerator denominator) (numerator / denominator) := by
  have unit : (0 : ℚ) < denominator := by exact_mod_cast below
  have remains : ((numerator % denominator : Nat) : ℚ) < denominator := by
    exact_mod_cast Nat.mod_lt numerator below
  have division : (numerator : ℚ) / denominator =
      (numerator / denominator : Nat) + (numerator % denominator : Nat) / denominator := by
    rw [div_eq_iff unit.ne', add_mul, div_mul_cancel₀ _ unit.ne']
    exact_mod_cast (Nat.div_add_mod' numerator denominator).symm
  have nonnegative : (0 : ℚ) ≤ (numerator % denominator : Nat) / denominator := by positivity
  have small : ((numerator % denominator : Nat) : ℚ) / denominator < 1 := by
    rwa [div_lt_one unit]
  have twice : (2 : ℚ) * ((numerator % denominator : Nat) / denominator) =
      (2 * (numerator % denominator) : Nat) / denominator := by
    push_cast
    ring
  rw [roundedQuotient, division]
  split
  · rename_i less
    have half : (2 : ℚ) * ((numerator % denominator : Nat) / denominator) < 1 := by
      rw [twice, div_lt_one unit]
      exact_mod_cast less
    exact isRounded_down nonnegative half.le fun tie => absurd tie half.ne
  · split
    · rename_i more
      have half : (1 : ℚ) < 2 * ((numerator % denominator : Nat) / denominator) := by
        rw [twice, one_lt_div unit]
        exact_mod_cast more
      exact isRounded_up small half.le fun tie => absurd tie half.ne'
    · have half : (2 : ℚ) * ((numerator % denominator : Nat) / denominator) = 1 := by
        rw [twice, div_eq_one_iff_eq unit.ne']
        exact_mod_cast (by omega : 2 * (numerator % denominator) = denominator)
      split
      · rename_i even
        exact isRounded_down nonnegative half.le fun _ => Nat.even_iff.2 even
      · rename_i odd
        exact isRounded_up small half.ge fun _ => Nat.even_iff.2 (by omega)

namespace IsRounded

theorem mono
    {first second : Nat}
    {value other : ℚ}
    (firstRounded : IsRounded first value)
    (secondRounded : IsRounded second other)
    (less : value ≤ other) :
    first ≤ second := by
  by_contra greater
  obtain ⟨firstBelow, -⟩ := abs_le.1 firstRounded.near
  obtain ⟨-, secondAbove⟩ := abs_le.1 secondRounded.near
  have apart : (second : ℚ) + 1 ≤ first := by exact_mod_cast Nat.not_le.1 greater
  -- both values stand half way between two whole numbers that follow each other
  have next : (first : ℚ) = second + 1 := by linarith
  have firstTie : |value - first| = 1 / 2 := by
    rw [abs_of_neg (by linarith)]
    linarith
  have secondTie : |other - second| = 1 / 2 := by
    rw [abs_of_pos (by linarith)]
    linarith
  have firstEven := Nat.even_iff.1 (firstRounded.even firstTie)
  have secondEven := Nat.even_iff.1 (secondRounded.even secondTie)
  have nextWhole : first = second + 1 := by exact_mod_cast next
  omega

theorem unique
    {first second : Nat}
    {value : ℚ}
    (firstRounded : IsRounded first value)
    (secondRounded : IsRounded second value) :
    first = second :=
  le_antisymm (firstRounded.mono secondRounded le_rfl) (secondRounded.mono firstRounded le_rfl)

end IsRounded

theorem isRounded_natCast (whole : Nat) :
    IsRounded whole whole := by
  constructor <;> rw [sub_self, abs_zero]
  · norm_num
  · norm_num

/-! ## Rounding to machine fractions -/

/-- Whether a mantissa and an exponent are those of the machine fraction nearest to a value. -/
structure IsNearest
    (mantissa : Nat)
    (exponent : Int)
    (value : ℚ) :
    Prop where
  rounded : IsRounded mantissa (value / 2 ^ exponent)
  short : mantissa < 2 ^ 53
  least : leastExponent ≤ exponent
  /-- With a smaller exponent the mantissa would be too long. -/
  fine : exponent = leastExponent ∨ 2 ^ 53 - 1 / 2 ≤ value / 2 ^ (exponent - 1)

/-- A value that is rounded to a long mantissa is at most half a step below it. -/
theorem IsRounded.le_of_long
    {mantissa : Nat}
    {value : ℚ}
    (rounded : IsRounded mantissa value)
    (long : ¬ mantissa < 2 ^ 53) :
    2 ^ 53 - 1 / 2 ≤ value := by
  obtain ⟨near, -⟩ := abs_le.1 rounded.near
  have reached : (2 : ℚ) ^ 53 ≤ mantissa := by exact_mod_cast Nat.not_lt.1 long
  linarith

namespace IsNearest

variable
  {mantissa other : Nat}
  {exponent otherExponent : Int}
  {value : ℚ}

/-- From half a step below the next exponent on values are rounded to that exponent, for the longest
mantissa is odd. -/
theorem below (nearest : IsNearest mantissa exponent value) :
    value / 2 ^ exponent < 2 ^ 53 - 1 / 2 := by
  have short : (mantissa : ℚ) + 1 ≤ 2 ^ 53 := by exact_mod_cast nearest.short
  obtain ⟨-, near⟩ := abs_le.1 nearest.rounded.near
  refine lt_of_le_of_ne (by linarith) fun edge => ?_
  have tie : |value / 2 ^ exponent - mantissa| = 1 / 2 := by
    rw [abs_of_nonneg (by linarith)]
    linarith
  have top : (mantissa : ℚ) + 1 = 2 ^ 53 := by linarith
  have longest : mantissa + 1 = 2 ^ 53 := by exact_mod_cast top
  have even := Nat.even_iff.1 (nearest.rounded.even tie)
  omega

theorem exponent_le
    (nearest : IsNearest mantissa exponent value)
    (otherNearest : IsNearest other otherExponent value) :
    otherExponent ≤ exponent := by
  by_contra greater
  have beyond : 2 ^ 53 - 1 / 2 ≤ value / 2 ^ (otherExponent - 1) := by
    have least := nearest.least
    exact otherNearest.fine.resolve_left (by omega)
  have finer : (2 : ℚ) ^ exponent ≤ 2 ^ (otherExponent - 1) :=
    zpow_le_zpow_right₀ (by norm_num) (by omega)
  have step : (0 : ℚ) < 2 ^ exponent := by positivity
  have coarse : (0 : ℚ) < 2 ^ (otherExponent - 1) := by positivity
  have below := nearest.below
  rw [le_div_iff₀ coarse] at beyond
  rw [div_lt_iff₀ step] at below
  linarith

/-- A value is rounded to one machine fraction only. -/
theorem unique
    (nearest : IsNearest mantissa exponent value)
    (otherNearest : IsNearest other otherExponent value) :
    mantissa = other ∧ exponent = otherExponent := by
  obtain rfl : exponent = otherExponent :=
    le_antisymm (otherNearest.exponent_le nearest) (nearest.exponent_le otherNearest)
  exact ⟨nearest.rounded.unique otherNearest.rounded, rfl⟩

/-- What is not rounded to zero is at least half of the smallest machine fraction. -/
theorem le_value
    (nearest : IsNearest mantissa exponent value)
    (positive : 0 < mantissa) :
    2 ^ (leastExponent - 1) ≤ value := by
  have step : (0 : ℚ) < 2 ^ exponent := by positivity
  obtain ⟨near, -⟩ := abs_le.1 nearest.rounded.near
  have one : (1 : ℚ) ≤ mantissa := by exact_mod_cast positive
  have half : 1 / 2 ≤ value / 2 ^ exponent := by linarith
  rw [le_div_iff₀ step] at half
  calc
    (2 : ℚ) ^ (leastExponent - 1) ≤ 2 ^ (exponent - 1) :=
      zpow_le_zpow_right₀ (by norm_num) (Int.sub_le_sub_right nearest.least 1)
    _ = 1 / 2 * 2 ^ exponent := by
      rw [zpow_sub_one₀ (by norm_num)]
      ring
    _ ≤ value := half

/-- The machine fraction nearest to a whole number is a whole number: with a negative exponent it is
the number itself. -/
theorem exists_natCast
    {whole : Nat}
    (nearest : IsNearest mantissa exponent whole) :
    ∃ number : Nat, (mantissa : ℚ) * 2 ^ exponent = number := by
  rcases lt_or_ge exponent 0 with behind | before
  · obtain ⟨places, shape⟩ := Int.eq_ofNat_of_zero_le (show 0 ≤ -exponent by omega)
    obtain rfl : exponent = -(places : Int) := by omega
    have scaled : (whole : ℚ) / 2 ^ (-(places : Int)) = (whole * 2 ^ places : Nat) := by
      rw [zpow_neg, div_inv_eq_mul, zpow_natCast]
      push_cast
      ring
    have rounded := nearest.rounded
    rw [scaled] at rounded
    refine ⟨whole, ?_⟩
    rw [rounded.unique (isRounded_natCast _), ← scaled, div_mul_cancel₀]
    positivity
  · obtain ⟨places, rfl⟩ := Int.eq_ofNat_of_zero_le before
    refine ⟨mantissa * 2 ^ places, ?_⟩
    rw [zpow_natCast]
    push_cast
    ring

end IsNearest

section Guess

variable
  {numerator denominator : Nat}
  (below : 0 < denominator)
  {exponent : Int}

include below

/-- Where the numbers of bits leave no doubt, the mantissa would be too long. -/
theorem long_of_log2
    (above : 0 < numerator)
    (small : exponent ≤ (numerator.log2 : Int) - denominator.log2 - 54) :
    (2 : ℚ) ^ 53 < numerator / denominator / 2 ^ exponent := by
  have unit : (0 : ℚ) < denominator := by exact_mod_cast below
  have step : (0 : ℚ) < 2 ^ exponent := by positivity
  have low : (2 : ℚ) ^ (numerator.log2 : Int) ≤ numerator := by
    exact_mod_cast Nat.log2_self_le above.ne'
  have high : (denominator : ℚ) < 2 ^ ((denominator.log2 : Int) + 1) := by
    exact_mod_cast Nat.lt_log2_self
  rw [lt_div_iff₀ step, lt_div_iff₀ unit]
  calc
    (2 : ℚ) ^ 53 * 2 ^ exponent * denominator
        < 2 ^ 53 * 2 ^ exponent * 2 ^ ((denominator.log2 : Int) + 1) :=
      mul_lt_mul_of_pos_left high (by positivity)
    _ = 2 ^ (53 + exponent + (denominator.log2 + 1)) := by
      rw [zpow_add₀ two_ne_zero (53 + exponent), zpow_add₀ two_ne_zero 53, zpow_ofNat]
    _ ≤ 2 ^ (numerator.log2 : Int) := zpow_le_zpow_right₀ (by norm_num) (by omega)
    _ ≤ numerator := low

/-- Where the numbers of bits leave no doubt, the mantissa is short enough. -/
theorem short_of_log2
    (large : (numerator.log2 : Int) - denominator.log2 - 51 ≤ exponent) :
    (numerator : ℚ) / denominator / 2 ^ exponent < 2 ^ 52 := by
  have unit : (0 : ℚ) < denominator := by exact_mod_cast below
  have step : (0 : ℚ) < 2 ^ exponent := by positivity
  have low : (2 : ℚ) ^ (denominator.log2 : Int) ≤ denominator := by
    exact_mod_cast Nat.log2_self_le below.ne'
  have high : (numerator : ℚ) < 2 ^ ((numerator.log2 : Int) + 1) := by
    exact_mod_cast Nat.lt_log2_self
  rw [div_lt_iff₀ step, div_lt_iff₀ unit]
  calc
    (numerator : ℚ) < 2 ^ ((numerator.log2 : Int) + 1) := high
    _ ≤ 2 ^ (52 + exponent + denominator.log2) := zpow_le_zpow_right₀ (by norm_num) (by omega)
    _ = 2 ^ 52 * 2 ^ exponent * 2 ^ (denominator.log2 : Int) := by
      rw [zpow_add₀ two_ne_zero (52 + exponent), zpow_add₀ two_ne_zero 52, zpow_ofNat]
    _ ≤ 2 ^ 52 * 2 ^ exponent * denominator := mul_le_mul_of_nonneg_left low (by positivity)

/-- The mantissa is looked for at three exponents, and the last of them is always large enough. -/
theorem isNearest_nearestBinary (above : 0 < numerator) :
    IsNearest (nearestBinary numerator denominator).1 (nearestBinary numerator denominator).2
      (numerator / denominator) := by
  obtain ⟨guess, guessed⟩ :
      ∃ guess, guess = max ((numerator.log2 : Int) - denominator.log2 - 53) leastExponent :=
    ⟨_, rfl⟩
  obtain ⟨mantissaAt, mantissas⟩ :
      ∃ mantissaAt : Int → Nat, ∀ exponent,
        roundedQuotient (scaleQuotient 2 (-exponent) numerator denominator).1
          (scaleQuotient 2 (-exponent) numerator denominator).2 = mantissaAt exponent :=
    ⟨_, fun _ => rfl⟩
  have rounds (exponent : Int) :
      IsRounded (mantissaAt exponent) ((numerator : ℚ) / denominator / 2 ^ exponent) := by
    have rounded := isRounded_roundedQuotient
      (scaleQuotient 2 (-exponent) numerator denominator).1
      (scaleQuotient_snd_pos Nat.two_pos (-exponent) numerator below)
    rw [mantissas, scaleQuotient_value 2, zpow_neg, ← div_eq_mul_inv] at rounded
    exact_mod_cast rounded
  have least : leastExponent ≤ guess := by omega
  have fine : guess = leastExponent ∨
      (2 : ℚ) ^ 53 - 1 / 2 ≤ numerator / denominator / 2 ^ (guess - 1) := by
    rcases eq_or_ne guess leastExponent with same | differs
    · exact Or.inl same
    · have long : (2 : ℚ) ^ 53 < numerator / denominator / 2 ^ (guess - 1) :=
        long_of_log2 below above (by omega)
      exact Or.inr (by linarith)
  have next (exponent : Int) (long : ¬ mantissaAt exponent < 2 ^ 53) :
      (2 : ℚ) ^ 53 - 1 / 2 ≤ numerator / denominator / 2 ^ (exponent + 1 - 1) := by
    rw [add_sub_cancel_right]
    exact (rounds exponent).le_of_long long
  have third : mantissaAt (guess + 2) < 2 ^ 53 := by
    have short : (numerator : ℚ) / denominator / 2 ^ (guess + 2) < 2 ^ 52 :=
      short_of_log2 below (by omega)
    obtain ⟨near, -⟩ := abs_le.1 (rounds (guess + 2)).near
    exact_mod_cast (by linarith : (mantissaAt (guess + 2) : ℚ) < 2 ^ 53)
  simp only [nearestBinary, ← guessed, mantissas, List.find?_cons, Nat.pow_eq, third, decide_true]
  by_cases first : mantissaAt guess < 2 ^ 53
  · simp only [first, decide_true]
    exact ⟨rounds guess, first, least, fine⟩
  · by_cases second : mantissaAt (guess + 1) < 2 ^ 53
    · simp only [first, second, decide_true, decide_false]
      exact ⟨rounds (guess + 1), second, by omega, Or.inr (next guess first)⟩
    · have fine := next (guess + 1) second
      rw [add_assoc] at fine
      simp only [first, second, decide_false]
      exact ⟨rounds (guess + 2), third, by omega, Or.inr fine⟩

end Guess

end UnoBindgen.Text
