import ApiScribe.Number.Decimal
import Mathlib.Algebra.Order.Field.Power
import Mathlib.Data.Nat.Log
import Mathlib.Data.Rat.Cast.Order
import Mathlib.Tactic.FieldSimp
import Mathlib.Tactic.Linarith
import Mathlib.Tactic.Positivity
import Mathlib.Tactic.Ring

/-!
# Rounding to double precision

`Binary64.ofRatio` rounds once: it looks for the exponent that leaves a significand of 53 bits and takes
the natural number nearest to the ratio in units of that exponent.  Here both steps are described on the
rational numbers: `log2Ratio_spec` and `roundsTo_roundRatio`.

* `ofRatio_isRegular`: what is rounded is written in the one way in which numbers of double precision
  are, unless it is too large.
* `ofRatio_eq_of_has`: every ratio in the rounding interval of such a number is rounded to it.  Where the
  number is a power of two its interval reaches into the next smaller exponent, where the nearest
  significand is one too large and is carried.
-/

namespace ApiScribe

namespace Binary64

/-! ## Powers of two -/

theorem twoPower_pos (k : Int) : 0 < twoPower k :=
  Nat.pow_pos (by decide)

/-- A power of two is a quotient of two that are natural numbers. -/
theorem cast_twoPower_div (k : Int) : (twoPower k : ℚ) / twoPower (-k) = 2 ^ k := by
  obtain ⟨n, rfl | rfl⟩ := k.eq_nat_or_neg
  · simp [twoPower]
  · simp [twoPower]

/-- A ratio in units of `2 ^ k`. -/
theorem cast_scaled (num den : Nat) (k : Int) :
    ((num * twoPower (-k) : Nat) : ℚ) / ((den * twoPower k : Nat) : ℚ) = num / den / 2 ^ k := by
  rw [← cast_twoPower_div k, Nat.cast_mul, Nat.cast_mul, div_div_eq_mul_div, div_mul_eq_mul_div,
    div_div]

/-! ## The exponent -/

theorem two_pow_log2_le {n : Nat} (h : 0 < n) :
    (2 : ℚ) ^ (n.log2 : Int) ≤ n ∧ (n : ℚ) < 2 ^ ((n.log2 : Int) + 1) := by
  have hle : 2 ^ n.log2 ≤ n := Nat.log2_self_le h.ne'
  have hlt : n < 2 ^ (n.log2 + 1) := Nat.lt_log2_self
  constructor
  · rw [zpow_natCast]
    exact_mod_cast hle
  · rw [← Nat.cast_succ, zpow_natCast]
    exact_mod_cast hlt

/-- The exponent that is found is that of the ratio. -/
theorem log2Ratio_spec {num den : Nat} (hnum : 0 < num) (hden : 0 < den) :
    (2 : ℚ) ^ log2Ratio num den ≤ num / den ∧ (num : ℚ) / den < 2 ^ (log2Ratio num den + 1) := by
  obtain ⟨hnumLe, hnumLt⟩ := two_pow_log2_le hnum
  obtain ⟨hdenLe, hdenLt⟩ := two_pow_log2_le hden
  have hpos : (0 : ℚ) < den := Nat.cast_pos.mpr hden
  -- The lengths of the two numbers leave two exponents, and the guess is the greater one.
  have hlow : (2 : ℚ) ^ ((num.log2 : Int) - den.log2 - 1) ≤ num / den := by
    rw [le_div_iff₀ hpos]
    calc (2 : ℚ) ^ ((num.log2 : Int) - den.log2 - 1) * den
      _ ≤ 2 ^ ((num.log2 : Int) - den.log2 - 1) * 2 ^ ((den.log2 : Int) + 1) :=
        mul_le_mul_of_nonneg_left hdenLt.le (by positivity)
      _ = 2 ^ (num.log2 : Int) := by
        rw [← zpow_add₀ two_ne_zero]
        congr 1
        omega
      _ ≤ num := hnumLe
  have hhigh : (num : ℚ) / den < 2 ^ ((num.log2 : Int) - den.log2 + 1) := by
    rw [div_lt_iff₀ hpos]
    calc (num : ℚ)
      _ < 2 ^ ((num.log2 : Int) + 1) := hnumLt
      _ = 2 ^ ((num.log2 : Int) - den.log2 + 1) * 2 ^ (den.log2 : Int) := by
        rw [← zpow_add₀ two_ne_zero]
        congr 1
        omega
      _ ≤ 2 ^ ((num.log2 : Int) - den.log2 + 1) * den :=
        mul_le_mul_of_nonneg_left hdenLe (by positivity)
  have hguess : den * twoPower ((num.log2 : Int) - den.log2) ≤
      num * twoPower (-((num.log2 : Int) - den.log2)) ↔
        (2 : ℚ) ^ ((num.log2 : Int) - den.log2) ≤ num / den := by
    generalize (num.log2 : Int) - den.log2 = guess
    have hunit : (0 : ℚ) < twoPower (-guess) := Nat.cast_pos.mpr (twoPower_pos _)
    rw [← cast_twoPower_div guess, div_le_div_iff₀ hunit hpos, ← Nat.cast_mul, ← Nat.cast_mul,
      Nat.cast_le, mul_comm den]
  rw [log2Ratio]
  split
  next h => exact ⟨hguess.mp h, hhigh⟩
  next h =>
    rw [Int.sub_add_cancel]
    exact ⟨hlow, lt_of_not_ge fun hge => h (hguess.mpr hge)⟩

/-! ## The significand -/

/-- The natural number is nearest to the number, and it is even if there is another one as near. -/
def RoundsTo (q : ℚ) (m : Nat) : Prop :=
  |q - m| ≤ 1 / 2 ∧ (|q - m| = 1 / 2 → m % 2 = 0)

theorem RoundsTo.unique {q : ℚ} {m n : Nat} (hm : RoundsTo q m) (hn : RoundsTo q n) : m = n := by
  wlog h : m < n generalizing m n
  · rcases Nat.lt_or_ge n m with hlt | hge
    · exact (this hn hm hlt).symm
    · omega
  · -- Two numbers that are both half a unit away are neighbours, and only one of them is even.
    obtain ⟨hmLe, hmEven⟩ := hm
    obtain ⟨hnLe, hnEven⟩ := hn
    have hstep : (m : ℚ) + 1 ≤ n := by exact_mod_cast h
    obtain ⟨-, hmHigh⟩ := abs_le.mp hmLe
    obtain ⟨hnLow, -⟩ := abs_le.mp hnLe
    have hmid : q - m = 1 / 2 := by linarith
    have hmid' : q - n = -(1 / 2) := by linarith
    have hsucc : n = m + 1 := by
      have hcast : (n : ℚ) = m + 1 := by linarith
      exact_mod_cast hcast
    have hm2 := hmEven (by rw [hmid]; norm_num)
    have hn2 := hnEven (by rw [hmid']; norm_num)
    omega

theorem roundsTo_roundRatio {num den : Nat} (hden : 0 < den) :
    RoundsTo (num / den) (roundRatio num den) := by
  have hpos : (0 : ℚ) < den := Nat.cast_pos.mpr hden
  have hdiv : (num : ℚ) / den = (num / den : Nat) + (num % den : Nat) / den := by
    rw [add_div' _ _ _ hpos.ne', div_left_inj' hpos.ne']
    exact_mod_cast (Nat.div_add_mod' num den).symm
  have hrest : (0 : ℚ) ≤ (num % den : Nat) / den := by positivity
  have hrestLt : ((num % den : Nat) : ℚ) / den < 1 :=
    (div_lt_one hpos).mpr (Nat.cast_lt.mpr (Nat.mod_lt num hden))
  have hbelow : 2 * (num % den) < den ↔ ((num % den : Nat) : ℚ) / den < 1 / 2 := by
    rw [div_lt_div_iff₀ hpos two_pos, one_mul, mul_comm]
    exact_mod_cast Iff.rfl
  have habove : den < 2 * (num % den) ↔ (1 : ℚ) / 2 < (num % den : Nat) / den := by
    rw [div_lt_div_iff₀ two_pos hpos, one_mul, mul_comm]
    exact_mod_cast Iff.rfl
  rw [roundRatio]
  generalize hquotient : num / den = quotient at hdiv ⊢
  generalize ((num % den : Nat) : ℚ) / den = rest at *
  rw [hdiv]
  have hdown : ((quotient : ℚ) + rest - quotient) = rest := add_sub_cancel_left _ _
  have hup : ((quotient : ℚ) + rest - (quotient + 1 : Nat)) = rest - 1 := by
    rw [Nat.cast_succ]
    ring
  rw [RoundsTo]
  split
  next h =>
    have hlt := hbelow.mp h
    rw [hdown, abs_of_nonneg hrest]
    exact ⟨hlt.le, fun heq => absurd heq hlt.ne⟩
  next hnotBelow =>
    split
    next h =>
      have hlt := habove.mp h
      rw [hup, abs_of_neg (by linarith)]
      exact ⟨by linarith, fun heq => absurd heq (by linarith)⟩
    next hnotAbove =>
      have hge := le_of_not_gt (hbelow.not.mp hnotBelow)
      have hle := le_of_not_gt (habove.not.mp hnotAbove)
      split
      next heven =>
        rw [hdown, abs_of_nonneg hrest]
        exact ⟨hle, fun _ => heven⟩
      next hodd =>
        rw [hup, abs_of_neg (by linarith)]
        exact ⟨by linarith, fun _ => by omega⟩

/-! ## Numbers of double precision -/

/-- The significand and the exponent of a number of double precision, in the one way in which it is
written: the significand has 53 bits, or the exponent is the smallest one. -/
structure IsRegular (significand : Nat) (exponent : Int) : Prop where
  lt : significand < 2 ^ 53
  least_le : leastExponent ≤ exponent
  le_greatest : exponent ≤ greatestExponent
  full : 2 ^ 52 ≤ significand ∨ exponent = leastExponent

/-- The exponent for a ratio. -/
def exponentOf (num den : Nat) : Int :=
  max (log2Ratio num den - 52) leastExponent

theorem exists_roundsTo {num den : Nat} (hden : 0 < den) (k : Int) :
    ∃ significand, RoundsTo (num / den / 2 ^ k) significand ∧
      roundRatio (num * twoPower (-k)) (den * twoPower k) = significand := by
  refine ⟨_, ?_, rfl⟩
  rw [← cast_scaled]
  exact roundsTo_roundRatio (Nat.mul_pos hden (twoPower_pos k))

/-- **Rounding**: the exponent is that of the ratio, and the significand is the nearest one; if it has
too many bits, it is the first one of the next exponent. -/
theorem ofRatio_eq (negative : Bool) {num den significand : Nat} (hnum : 0 < num) (hden : 0 < den)
    (hround : RoundsTo (num / den / 2 ^ exponentOf num den) significand) :
    ofRatio negative num den =
      if significand = 2 ^ 53 then
        if exponentOf num den + 1 ≤ greatestExponent then
          .finite negative (2 ^ 52) (exponentOf num den + 1)
        else .infinite negative
      else if exponentOf num den ≤ greatestExponent then
        .finite negative significand (exponentOf num den)
      else .infinite negative := by
  obtain ⟨nearest, hnearest, rfl⟩ := exists_roundsTo hden (exponentOf num den)
  rw [ofRatio, if_neg hnum.ne', hround.unique hnearest]
  rfl

/-- A ratio in units of the exponent for it is below `2 ^ 53`, and at least `2 ^ 52` unless the exponent
is the smallest one. -/
theorem units_of_exponentOf {num den : Nat} (hnum : 0 < num) (hden : 0 < den) :
    (num : ℚ) / den / 2 ^ exponentOf num den < 2 ^ 53 ∧
      (2 ^ 52 ≤ (num : ℚ) / den / 2 ^ exponentOf num den ∨ exponentOf num den = leastExponent) := by
  obtain ⟨hle, hlt⟩ := log2Ratio_spec hnum hden
  have hunit : (0 : ℚ) < 2 ^ exponentOf num den := by positivity
  constructor
  · rw [div_lt_iff₀ hunit, ← zpow_natCast, ← zpow_add₀ two_ne_zero]
    refine hlt.trans_le (zpow_le_zpow_right₀ one_le_two ?_)
    rw [exponentOf]
    omega
  · rcases le_total (log2Ratio num den - 52) leastExponent with hsmall | hlarge
    · exact Or.inr (max_eq_right hsmall)
    · refine Or.inl ?_
      rw [le_div_iff₀ hunit, ← zpow_natCast, ← zpow_add₀ two_ne_zero, exponentOf, max_eq_left hlarge]
      refine (zpow_le_zpow_right₀ one_le_two ?_).trans hle
      omega

/-- The exponent for a ratio is the one that leaves it that large. -/
theorem exponentOf_eq {num den : Nat} {exponent : Int} (hnum : 0 < num) (hden : 0 < den)
    (hleast : leastExponent ≤ exponent) (hlt : (num : ℚ) / den / 2 ^ exponent < 2 ^ 53)
    (hfull : 2 ^ 52 ≤ (num : ℚ) / den / 2 ^ exponent ∨ exponent = leastExponent) :
    exponentOf num den = exponent := by
  obtain ⟨hle, hlt'⟩ := log2Ratio_spec hnum hden
  have hunit : (0 : ℚ) < 2 ^ exponent := by positivity
  rw [div_lt_iff₀ hunit, ← zpow_natCast, ← zpow_add₀ two_ne_zero] at hlt
  have hupper : log2Ratio num den < 53 + exponent :=
    (zpow_lt_zpow_iff_right₀ one_lt_two).mp (hle.trans_lt hlt)
  rw [exponentOf]
  rcases hfull with hfull | rfl
  · rw [le_div_iff₀ hunit, ← zpow_natCast, ← zpow_add₀ two_ne_zero] at hfull
    have hlower : 52 + exponent < log2Ratio num den + 1 :=
      (zpow_lt_zpow_iff_right₀ one_lt_two).mp (hfull.trans_lt hlt')
    omega
  · omega

/-- **What is rounded is regular**, unless it is too large. -/
theorem ofRatio_isRegular {negative sign : Bool} {num den significand : Nat} {exponent : Int}
    (hden : 0 < den) (h : ofRatio negative num den = .finite sign significand exponent) :
    IsRegular significand exponent := by
  rcases Nat.eq_zero_or_pos num with rfl | hnum
  · cases h
    exact ⟨by decide, le_rfl, by decide, Or.inr rfl⟩
  obtain ⟨nearest, hnearest, -⟩ := @exists_roundsTo num den hden (exponentOf num den)
  obtain ⟨hlt, hfull⟩ := units_of_exponentOf hnum hden
  obtain ⟨hlow, hhigh⟩ := abs_le.mp hnearest.1
  have hleast : leastExponent ≤ exponentOf num den := le_max_right _ _
  rw [ofRatio_eq negative hnum hden hnearest] at h
  split at h
  next =>
    split at h
    next hgreatest =>
      cases h
      exact ⟨by decide, by omega, hgreatest, Or.inl le_rfl⟩
    next => cases h
  next hne =>
    split at h
    next hgreatest =>
      cases h
      refine ⟨?_, hleast, hgreatest, hfull.imp_left fun hfull => ?_⟩
      · have hle : significand < 2 ^ 53 + 1 := by
          have hcast : (significand : ℚ) < 2 ^ 53 + 1 := by linarith
          exact_mod_cast hcast
        omega
      · have hge : 2 ^ 52 < significand + 1 := by
          have hcast : (2 : ℚ) ^ 52 < significand + 1 := by linarith
          exact_mod_cast hcast
        omega
    next => cases h

end Binary64

/-! ## Rounding intervals -/

namespace RoundingInterval

/-- The number is in the interval. -/
def Has (interval : RoundingInterval) (q : ℚ) : Prop :=
  if interval.closed then (interval.low : ℚ) / interval.den ≤ q ∧ q ≤ interval.high / interval.den
  else (interval.low : ℚ) / interval.den < q ∧ q < interval.high / interval.den

end RoundingInterval

namespace Binary64

open RoundingInterval

variable {significand : Nat} {exponent : Int} {q : ℚ}

/-- How far the rounding interval of a number reaches down, in quarters of the unit of its exponent. -/
def reach (significand : Nat) (exponent : Int) : Nat :=
  if significand == 2 ^ 52 && leastExponent < exponent then 1 else 2

/-- The ends of an interval in units of the exponent. -/
theorem cast_quarters_div (n : Nat) (exponent : Int) :
    ((n * twoPower (exponent - 2) : Nat) : ℚ) / twoPower (2 - exponent) = n / 4 * 2 ^ exponent := by
  have hunit : (twoPower (exponent - 2) : ℚ) / twoPower (2 - exponent) = 2 ^ exponent / 2 ^ (2 : Int) := by
    rw [← zpow_sub₀ two_ne_zero, ← cast_twoPower_div, neg_sub]
  rw [Nat.cast_mul, mul_div_assoc, hunit]
  ring

/-- The rounding interval of a number, in units of its exponent. -/
theorem has_around_iff (hpos : 0 < significand) :
    (around significand exponent).Has q ↔
      if significand % 2 = 0 then
        significand - (reach significand exponent : ℚ) / 4 ≤ q / 2 ^ exponent ∧
          q / 2 ^ exponent ≤ significand + 1 / 2
      else
        significand - (reach significand exponent : ℚ) / 4 < q / 2 ^ exponent ∧
          q / 2 ^ exponent < significand + 1 / 2 := by
  have hunit : (0 : ℚ) < 2 ^ exponent := by positivity
  have hreach : reach significand exponent ≤ 4 * significand := by
    rw [reach]
    split <;> omega
  have hlow : ((around significand exponent).low : ℚ) / (around significand exponent).den =
      (significand - (reach significand exponent : ℚ) / 4) * 2 ^ exponent := by
    refine (cast_quarters_div (4 * significand - reach significand exponent) exponent).trans ?_
    rw [Nat.cast_sub hreach, Nat.cast_mul]
    ring
  have hhigh : ((around significand exponent).high : ℚ) / (around significand exponent).den =
      (significand + 1 / 2) * 2 ^ exponent := by
    refine (cast_quarters_div (4 * significand + 2) exponent).trans ?_
    rw [Nat.cast_add, Nat.cast_mul]
    ring
  have hclosed : (around significand exponent).closed = true ↔ significand % 2 = 0 := beq_iff_eq
  rw [Has, hlow, hhigh]
  simp only [hclosed, le_div_iff₀ hunit, div_le_iff₀ hunit, lt_div_iff₀ hunit, div_lt_iff₀ hunit]

/-- The number is the nearest one to everything in its interval. -/
theorem roundsTo_of_has (hpos : 0 < significand) (h : (around significand exponent).Has q) :
    RoundsTo (q / 2 ^ exponent) significand := by
  have hreach : (reach significand exponent : ℚ) ≤ 2 := by
    rw [reach]
    split <;> norm_num
  rw [has_around_iff hpos] at h
  split at h
  next heven =>
    exact ⟨abs_le.mpr ⟨by linarith, by linarith⟩, fun _ => heven⟩
  next hodd =>
    have hlt : |q / 2 ^ exponent - significand| < 1 / 2 :=
      abs_lt.mpr ⟨by linarith, by linarith⟩
    exact ⟨hlt.le, fun heq => absurd heq hlt.ne⟩

/-- Below a power of two the next smaller exponent counts, and the nearest significand there is carried. -/
theorem ofRatio_eq_of_carry (negative : Bool) {num den : Nat} (hden : 0 < den)
    (hleast : leastExponent < exponent) (hgreatest : exponent ≤ greatestExponent)
    (hlow : 2 ^ 52 - 1 / 4 ≤ (num : ℚ) / den / 2 ^ exponent)
    (hhigh : (num : ℚ) / den / 2 ^ exponent < 2 ^ 52) :
    ofRatio negative num den = .finite negative (2 ^ 52) exponent := by
  have hnum : 0 < num := by
    rcases Nat.eq_zero_or_pos num with rfl | hnum
    · rw [Nat.cast_zero, zero_div, zero_div] at hlow
      norm_num at hlow
    · exact hnum
  have htwice : (num : ℚ) / den / 2 ^ (exponent - 1) = 2 * (num / den / 2 ^ exponent) := by
    rw [zpow_sub_one₀ two_ne_zero, div_mul_eq_div_div, div_inv_eq_mul, mul_comm]
  have hexponent : exponentOf num den = exponent - 1 := by
    refine exponentOf_eq hnum hden (by omega) ?_ (Or.inl ?_)
    · rw [htwice]
      linarith
    · rw [htwice]
      linarith
  have hround : RoundsTo (num / den / 2 ^ exponentOf num den) (2 ^ 53) := by
    rw [hexponent, htwice]
    refine ⟨abs_le.mpr ⟨?_, ?_⟩, fun _ => by decide⟩
    · push_cast
      linarith
    · push_cast
      linarith
  rw [ofRatio_eq negative hnum hden hround, if_pos rfl, hexponent, Int.sub_add_cancel,
    if_pos hgreatest]

/-- **What is in the rounding interval of a number is rounded to it.** -/
theorem ofRatio_eq_of_has (negative : Bool) {num den : Nat} (hden : 0 < den)
    (hregular : IsRegular significand exponent) (hpos : 0 < significand)
    (h : (around significand exponent).Has (num / den)) :
    ofRatio negative num den = .finite negative significand exponent := by
  have hround := roundsTo_of_has hpos h
  obtain ⟨hlow, hhigh⟩ := abs_le.mp hround.1
  have hone : (1 : ℚ) ≤ significand := by exact_mod_cast hpos
  have hmost : (significand : ℚ) + 1 ≤ 2 ^ 53 := by exact_mod_cast hregular.lt
  have hnum : 0 < num := by
    rcases Nat.eq_zero_or_pos num with rfl | hnum
    · rw [Nat.cast_zero, zero_div, zero_div] at hlow
      linarith
    · exact hnum
  by_cases hcarry : leastExponent < exponent ∧ (num : ℚ) / den / 2 ^ exponent < 2 ^ 52
  · -- Only the interval of a power of two reaches that far down.
    obtain ⟨hleast, hbelow⟩ := hcarry
    have hfull : 2 ^ 52 ≤ significand := hregular.full.resolve_right (by omega)
    have hpower : significand = 2 ^ 52 := by
      have hlt : significand < 2 ^ 52 + 1 := by
        have hcast : (significand : ℚ) < 2 ^ 52 + 1 := by linarith
        exact_mod_cast hcast
      omega
    subst hpower
    rw [has_around_iff hpos, if_pos (by decide)] at h
    refine ofRatio_eq_of_carry negative hden hleast hregular.le_greatest ?_ hbelow
    have hreach : reach (2 ^ 52) exponent = 1 := by
      rw [reach, decide_eq_true hleast]
      rfl
    rw [hreach] at h
    push_cast at h
    exact h.1
  · have hexponent : exponentOf num den = exponent := by
      refine exponentOf_eq hnum hden hregular.least_le (by linarith) ?_
      by_cases hleast : exponent = leastExponent
      · exact Or.inr hleast
      · have hlt := lt_of_le_of_ne hregular.least_le (Ne.symm hleast)
        exact Or.inl (le_of_not_gt fun hbelow => hcarry ⟨hlt, hbelow⟩)
    subst hexponent
    rw [ofRatio_eq negative hnum hden hround, if_neg hregular.lt.ne, if_pos hregular.le_greatest]

end Binary64

end ApiScribe
