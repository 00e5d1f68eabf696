import ApiScribe.Number.Numeral
import ApiScribe.Proofs.Rounding
import ApiScribe.Proofs.TypeTokens
import Mathlib.Data.List.TakeWhile

/-!
# Decimals that read back

`Decimal.shortest` looks for a decimal in the rounding interval of a number.  On every grid that it tries
it looks at two points, and takes one only if it is in the interval (`has_of_hit?`); the finest grid holds
the number itself, so the search finds something (`isSome_hit?_of_dvd`).  What is in the interval is
rounded to the number, and so the text of a number is read as the number again
(`binary64?_text`).

The digits of a natural number are read as the number nearest to it (`binary64?_toDigits`).
-/

namespace ApiScribe

/-- The value of a decimal. -/
def Decimal.value (d : Decimal) : ℚ :=
  d.digits * 10 ^ d.exponent

/-- A power of ten is a quotient of two that are natural numbers. -/
theorem cast_tenPower_div (k : Int) :
    ((Nat.pow 10 k.toNat : Nat) : ℚ) / (Nat.pow 10 (-k).toNat : Nat) = 10 ^ k := by
  obtain ⟨n, rfl | rfl⟩ := k.eq_nat_or_neg
  · simp
  · simp

namespace RoundingInterval

variable {interval : RoundingInterval} {p : Int} {decimal : Decimal}

/-! ## The search -/

/-- A multiple of `10 ^ p` as a fraction of the denominator. -/
theorem cast_gridPoint_div (hden : 0 < interval.den) (n : Nat) (p : Int) :
    ((n * (interval.den * Nat.pow 10 p.toNat) : Nat) : ℚ) /
        (interval.den * Nat.pow 10 (-p).toNat : Nat) = n * 10 ^ p := by
  have hpos : (interval.den : ℚ) ≠ 0 := Nat.cast_ne_zero.mpr hden.ne'
  rw [← cast_tenPower_div p, Nat.cast_mul, Nat.cast_mul, Nat.cast_mul, mul_left_comm,
    mul_div_mul_left _ _ hpos, mul_div_assoc]

theorem holds_iff_has (hden : 0 < interval.den) {scale : Nat} (hscale : 0 < scale) (num : Nat) :
    interval.holds num scale = true ↔ interval.Has (num / (interval.den * scale : Nat)) := by
  have hpos : (0 : ℚ) < interval.den := Nat.cast_pos.mpr hden
  have hboth : (0 : ℚ) < (interval.den * scale : Nat) := Nat.cast_pos.mpr (Nat.mul_pos hden hscale)
  have hcross : ∀ n : Nat, n * (interval.den * scale) = n * scale * interval.den := by
    intro n
    rw [Nat.mul_comm interval.den, Nat.mul_assoc]
  have hlow : (interval.low : ℚ) / interval.den ≤ num / (interval.den * scale : Nat) ↔
      interval.low * scale ≤ num := by
    rw [div_le_div_iff₀ hpos hboth, ← Nat.cast_mul, ← Nat.cast_mul, Nat.cast_le, hcross]
    exact Nat.mul_le_mul_right_iff hden
  have hhigh : (num : ℚ) / (interval.den * scale : Nat) ≤ interval.high / interval.den ↔
      num ≤ interval.high * scale := by
    rw [div_le_div_iff₀ hboth hpos, ← Nat.cast_mul, ← Nat.cast_mul, Nat.cast_le, hcross]
    exact Nat.mul_le_mul_right_iff hden
  have hlowLt : (interval.low : ℚ) / interval.den < num / (interval.den * scale : Nat) ↔
      interval.low * scale < num := by
    rw [div_lt_div_iff₀ hpos hboth, ← Nat.cast_mul, ← Nat.cast_mul, Nat.cast_lt, hcross]
    exact Nat.mul_lt_mul_right hden
  have hhighLt : (num : ℚ) / (interval.den * scale : Nat) < interval.high / interval.den ↔
      num < interval.high * scale := by
    rw [div_lt_div_iff₀ hboth hpos, ← Nat.cast_mul, ← Nat.cast_mul, Nat.cast_lt, hcross]
    exact Nat.mul_lt_mul_right hden
  rw [holds, Has, hlow, hhigh, hlowLt, hhighLt]
  split <;> rw [Bool.and_eq_true, decide_eq_true_iff, decide_eq_true_iff]

/-- **What is hit is in the interval**, and on the grid. -/
theorem has_of_hit? (hden : 0 < interval.den) (h : interval.hit? p = some decimal) :
    interval.Has decimal.value := by
  have hpoint : ∀ n : Nat,
      interval.holds (n * (interval.den * Nat.pow 10 p.toNat)) (Nat.pow 10 (-p).toNat) = true →
        interval.Has (Decimal.value ⟨n, p⟩) := by
    intro n hn
    have hscale : 0 < Nat.pow 10 (-p).toNat := Nat.pow_pos (by decide)
    rw [holds_iff_has hden hscale, cast_gridPoint_div hden] at hn
    exact hn
  rw [hit?] at h
  split at h
  next hbelow habove =>
    split at h
    · cases h
      exact hpoint _ hbelow
    · cases h
      exact hpoint _ habove
  next hbelow _ =>
    cases h
    exact hpoint _ hbelow
  next _ habove =>
    cases h
    exact hpoint _ habove
  next => cases h

/-- If one of the grids is hit, what is found is a hit. -/
theorem exists_hit?_firstHit {count : Nat} {coarsest : Int}
    (h : ∃ p, coarsest - count < p ∧ p ≤ coarsest ∧ (interval.hit? p).isSome) :
    ∃ p, interval.hit? p = some (interval.firstHit count coarsest) := by
  induction count generalizing coarsest with
  | zero =>
    obtain ⟨p, hlt, hle, -⟩ := h
    omega
  | succ count ih =>
    rw [firstHit]
    split
    next decimal hdecimal => exact ⟨coarsest, hdecimal⟩
    next hnone =>
      obtain ⟨p, hlt, hle, hsome⟩ := h
      refine ih ⟨p, by omega, ?_, hsome⟩
      have hne : p ≠ coarsest := by
        rintro rfl
        rw [hnone] at hsome
        cases hsome
      omega

/-- A grid that has the number itself is hit. -/
theorem isSome_hit?_of_dvd (hlow : interval.low < interval.mid)
    (hhigh : interval.mid < interval.high)
    (hdvd : interval.den * Nat.pow 10 p.toNat ∣ interval.mid * Nat.pow 10 (-p).toNat) :
    (interval.hit? p).isSome = true := by
  have hscale : 0 < Nat.pow 10 (-p).toNat := Nat.pow_pos (by decide)
  have hholds : interval.holds
      (interval.mid * Nat.pow 10 (-p).toNat / (interval.den * Nat.pow 10 p.toNat) *
        (interval.den * Nat.pow 10 p.toNat)) (Nat.pow 10 (-p).toNat) = true := by
    have hlowLt := Nat.mul_lt_mul_of_pos_right hlow hscale
    have hhighLt := Nat.mul_lt_mul_of_pos_right hhigh hscale
    rw [Nat.div_mul_cancel hdvd, holds]
    split
    · rw [Bool.and_eq_true, decide_eq_true_iff, decide_eq_true_iff]
      exact ⟨hlowLt.le, hhighLt.le⟩
    · rw [Bool.and_eq_true, decide_eq_true_iff, decide_eq_true_iff]
      exact ⟨hlowLt, hhighLt⟩
  rw [hit?, hholds]
  split
  next => split <;> rfl
  next => rfl
  next hbelow _ => cases hbelow
  next hbelow _ => cases hbelow

end RoundingInterval

/-! ## The decimal of a number -/

namespace Decimal

open RoundingInterval Binary64

variable {significand : Nat} {exponent : Int}

theorem den_around_pos : 0 < (around significand exponent).den :=
  twoPower_pos _

/-- The number itself is a multiple of the unit of the finest grid. -/
theorem dvd_mid_finest (places : Nat) (hplaces : (-exponent).toNat = places) :
    (around significand exponent).den * Nat.pow 10 (-(places : Int)).toNat ∣
      (around significand exponent).mid * Nat.pow 10 (- -(places : Int)).toNat := by
  have hten : 2 ^ places * 5 ^ places = Nat.pow 10 places := (Nat.mul_pow 2 5 places).symm
  have hwhole : (-(places : Int)).toNat = 0 := by omega
  -- Every factor two of the denominator is one of the number or one of a ten.
  have hdvd : 2 ^ (2 - exponent).toNat ∣ 2 ^ 2 * 2 ^ (exponent - 2).toNat * 2 ^ places := by
    rw [← Nat.pow_add, ← Nat.pow_add]
    exact Nat.pow_dvd_pow 2 (by omega)
  rw [hwhole, neg_neg, Int.toNat_natCast, ← hten]
  change 2 ^ (2 - exponent).toNat * 1 ∣
    4 * significand * 2 ^ (exponent - 2).toNat * (2 ^ places * 5 ^ places)
  rw [mul_one]
  calc 2 ^ (2 - exponent).toNat
    _ ∣ 2 ^ 2 * 2 ^ (exponent - 2).toNat * 2 ^ places := hdvd
    _ ∣ 2 ^ 2 * 2 ^ (exponent - 2).toNat * 2 ^ places * (significand * 5 ^ places) :=
      Nat.dvd_mul_right _ _
    _ = 4 * significand * 2 ^ (exponent - 2).toNat * (2 ^ places * 5 ^ places) := by ring

/-- **The shortest decimal** is in the rounding interval of the number. -/
theorem has_shortest (hpos : 0 < significand) :
    (around significand exponent).Has (shortest significand exponent).value := by
  have hunit : 0 < twoPower (exponent - 2) := twoPower_pos _
  have hlow : (around significand exponent).low < (around significand exponent).mid := by
    refine Nat.mul_lt_mul_of_pos_right ?_ hunit
    split <;> omega
  have hhigh : (around significand exponent).mid < (around significand exponent).high :=
    Nat.mul_lt_mul_of_pos_right (by omega) hunit
  have hfinest := isSome_hit?_of_dvd hlow hhigh (dvd_mid_finest _ rfl)
  rw [shortest, if_neg hpos.ne']
  dsimp only
  generalize (Nat.toDigits 10 _).length = coarsest
  have hgrid : ∃ p, (coarsest : Int) - (coarsest + (-exponent).toNat + 1 : Nat) < p ∧ p ≤ coarsest ∧
      ((around significand exponent).hit? p).isSome = true :=
    ⟨-((-exponent).toNat : Int), by omega, by omega, hfinest⟩
  obtain ⟨p, hp⟩ := exists_hit?_firstHit hgrid
  exact has_of_hit? den_around_pos hp

end Decimal

/-! ## Reading numerals -/

namespace Numeral

open Text Binary64 TypeScript

/-- A number with its sign in front. -/
def signed (negative : Bool) (body : List Char) : List Char :=
  if negative then '-' :: body else body

theorem valueOf_eq (cs : List Char) : valueOf cs = Nat.ofDigitChars 10 cs 0 := by
  rw [valueOf, Nat.ofDigitChars_eq_foldl]
  simp only [Nat.mul_comm, digitValue]

theorem valueOf_toDigits (n : Nat) : valueOf (Nat.toDigits 10 n) = n := by
  rw [valueOf_eq, Nat.ofDigitChars_ten_toDigits]

variable {c : Char} {cs digits places : List Char}

theorem sign_signed (negative : Bool) (hc : isAsciiDigit c = true) :
    sign (signed negative (c :: cs)) = (negative, c :: cs) := by
  cases negative with
  | true => rfl
  | false =>
    have hminus : c ≠ '-' := by
      rintro rfl
      exact absurd hc (by decide)
    have hplus : c ≠ '+' := by
      rintro rfl
      exact absurd hc (by decide)
    rw [signed, if_neg Bool.false_ne_true, sign.eq_def]
    split
    next heq => exact absurd (List.cons.inj heq).1 hminus
    next heq => exact absurd (List.cons.inj heq).1 hplus
    next => rfl

/-- What begins with a digit is none of the words for infinity and for what is not a number. -/
theorem asciiLowerText_ne_words (hc : isAsciiDigit c = true) :
    asciiLowerText (c :: cs) ≠ "inf".toList ∧ asciiLowerText (c :: cs) ≠ "infinity".toList ∧
      asciiLowerText (c :: cs) ≠ "nan".toList := by
  have hkept : asciiLower c = c := by
    rw [isAsciiDigit, Bool.and_eq_true, decide_eq_true_iff, decide_eq_true_iff] at hc
    have hnot : ¬ ('A' ≤ c && c ≤ 'Z') = true := by
      rw [Bool.and_eq_true, decide_eq_true_iff]
      exact fun h => absurd (h.1.trans hc.2) (by decide)
    rw [asciiLower, if_neg hnot]
  have hne : ∀ {letter : Char} {word : List Char}, isAsciiDigit letter = false →
      asciiLowerText (c :: cs) ≠ letter :: word := by
    intro letter word hletter heq
    have hfirst : asciiLower c = letter := (List.cons.inj heq).1
    rw [← hfirst, hkept, hc] at hletter
    cases hletter
  exact ⟨hne (by decide), hne (by decide), hne (by decide)⟩

/-- A row of digits is read as the natural number that it spells. -/
theorem binary64?_whole (negative : Bool) (hdigits : ∀ c ∈ digits, isAsciiDigit c = true)
    (hne : digits ≠ []) :
    binary64? (signed negative digits) = some (ofDecimal negative (valueOf digits) 0) := by
  obtain ⟨c, cs, rfl⟩ := List.exists_cons_of_ne_nil hne
  have hc : isAsciiDigit c = true := hdigits c List.mem_cons_self
  have htake : (c :: cs).takeWhile isAsciiDigit = c :: cs := List.takeWhile_eq_self_iff.mpr hdigits
  have hdrop : (c :: cs).dropWhile isAsciiDigit = [] := List.dropWhile_eq_nil_iff.mpr hdigits
  obtain ⟨hinf, hinfinity, hnan⟩ := @asciiLowerText_ne_words c cs hc
  rw [binary64?, sign_signed negative hc]
  simp only [hinf, hinfinity, hnan, htake, hdrop, decide_false, Bool.or_self, Bool.false_eq_true,
    if_false, List.isEmpty_cons, Bool.false_and, List.append_nil, exponent?, Option.map_some,
    List.length_nil]
  rfl

/-- Digits with a point among them are read as those digits, moved by the places behind the point. -/
theorem binary64?_fraction (negative : Bool) (hdigits : ∀ c ∈ digits, isAsciiDigit c = true)
    (hne : digits ≠ []) (hplaces : ∀ c ∈ places, isAsciiDigit c = true) :
    binary64? (signed negative (digits ++ '.' :: places)) =
      some (ofDecimal negative (valueOf (digits ++ places)) (-places.length)) := by
  obtain ⟨c, cs, rfl⟩ := List.exists_cons_of_ne_nil hne
  have hc : isAsciiDigit c = true := hdigits c List.mem_cons_self
  have hpoint : ¬ isAsciiDigit '.' = true := by decide
  have htake : (c :: (cs ++ '.' :: places)).takeWhile isAsciiDigit = c :: cs := by
    rw [← List.cons_append, List.takeWhile_append_of_pos hdigits, List.takeWhile_cons_of_neg hpoint,
      List.append_nil]
  have hdrop : (c :: (cs ++ '.' :: places)).dropWhile isAsciiDigit = '.' :: places := by
    rw [← List.cons_append, List.dropWhile_append_of_pos hdigits, List.dropWhile_cons_of_neg hpoint]
  have htakePlaces : places.takeWhile isAsciiDigit = places := List.takeWhile_eq_self_iff.mpr hplaces
  have hdropPlaces : places.dropWhile isAsciiDigit = [] := List.dropWhile_eq_nil_iff.mpr hplaces
  obtain ⟨hinf, hinfinity, hnan⟩ := @asciiLowerText_ne_words c (cs ++ '.' :: places) hc
  rw [binary64?, List.cons_append, sign_signed negative hc]
  simp only [hinf, hinfinity, hnan, htake, hdrop, htakePlaces, hdropPlaces, decide_false, Bool.or_self,
    Bool.false_eq_true, if_false, List.isEmpty_cons, Bool.false_and, exponent?, Option.map_some,
    zero_sub]

end Numeral

/-! ## Numbers of double precision -/

namespace Binary64

variable {significand : Nat} {exponent : Int}

/-- The number is finite and written in the one way in which numbers of double precision are. -/
def IsProper : Binary64 → Prop
  | .finite _ significand exponent => IsRegular significand exponent
  | _ => False

theorem IsProper.isFinite_eq {x : Binary64} (h : x.IsProper) : x.isFinite = true := by
  cases x with
  | finite => rfl
  | infinite => cases h
  | notANumber => cases h

theorem isProper_ofRatio {negative : Bool} {num den : Nat} (hden : 0 < den)
    (hfinite : (ofRatio negative num den).isFinite = true) : (ofRatio negative num den).IsProper := by
  cases heq : ofRatio negative num den with
  | finite => exact ofRatio_isRegular hden heq
  | infinite =>
    rw [heq] at hfinite
    cases hfinite
  | notANumber =>
    rw [heq] at hfinite
    cases hfinite

/-- **A numeral is read as a proper number**, unless that is too large. -/
theorem isProper_ofDecimal {negative : Bool} {digits : Nat} {shift : Int}
    (hfinite : (ofDecimal negative digits shift).isFinite = true) :
    (ofDecimal negative digits shift).IsProper := by
  have hzero : (zero negative).IsProper := ⟨by decide, le_rfl, by decide, Or.inr rfl⟩
  rw [ofDecimal] at hfinite ⊢
  split at hfinite
  next hdigits => rwa [if_pos hdigits]
  next hdigits =>
    rw [if_neg hdigits]
    split at hfinite
    next hwhole =>
      rw [if_pos hwhole]
      split at hfinite
      next => cases hfinite
      next hlarge =>
        rw [if_neg hlarge]
        exact isProper_ofRatio one_pos hfinite
    next hfraction =>
      rw [if_neg hfraction]
      split at hfinite
      next hsmall => rwa [if_pos hsmall]
      next hsmall =>
        rw [if_neg hsmall]
        exact isProper_ofRatio (Nat.pow_pos (by decide)) hfinite

/-- A natural number has few digits if it has few bits. -/
theorem lt_ten_pow (n : Nat) : n < 10 ^ (n.log2 / 3 + 1) :=
  calc n
    _ < 2 ^ (n.log2 + 1) := Nat.lt_log2_self
    _ ≤ 2 ^ (3 * (n.log2 / 3 + 1)) := Nat.pow_le_pow_right (by decide) (by omega)
    _ = 8 ^ (n.log2 / 3 + 1) := Nat.pow_mul 2 3 _
    _ ≤ 10 ^ (n.log2 / 3 + 1) := Nat.pow_le_pow_left (by decide) _

/-- No decimal that is rounded to a number besides zero is so small that it is taken for zero. -/
theorem ten_zpow_le_of_roundsTo {q : ℚ} (hleast : leastExponent ≤ exponent) (hpos : 0 < significand)
    (h : RoundsTo (q / 2 ^ exponent) significand) : (10 : ℚ) ^ (-400 : Int) ≤ q := by
  have hunit : (0 : ℚ) < 2 ^ exponent := by positivity
  have hone : (1 : ℚ) ≤ significand := by exact_mod_cast hpos
  obtain ⟨hlow, -⟩ := abs_le.mp h.1
  have hhalf : 2 ^ exponent / 2 ≤ q := by
    have hle : (1 : ℚ) / 2 ≤ q / 2 ^ exponent := by linarith
    rw [le_div_iff₀ hunit] at hle
    linarith
  calc (10 : ℚ) ^ (-400 : Int)
    _ ≤ 8 ^ (-400 : Int) := by
      rw [zpow_neg, zpow_neg]
      exact inv_anti₀ (by positivity) (zpow_le_zpow_left₀ (by decide) (by norm_num) (by norm_num))
    _ = 2 ^ (-1200 : Int) := by
      rw [← show (2 : ℚ) ^ (3 : Int) = 8 by norm_num, ← zpow_mul]
      rfl
    _ ≤ 2 ^ (exponent - 1) := by
      refine zpow_le_zpow_right₀ one_le_two ?_
      rw [leastExponent] at hleast
      omega
    _ = 2 ^ exponent / 2 := zpow_sub_one₀ two_ne_zero exponent
    _ ≤ q := hhalf

/-- **A decimal in the rounding interval of a number is read as the number.** -/
theorem ofDecimal_eq_of_has (negative : Bool) {digits : Nat} {shift : Int} (hshift : shift ≤ 0)
    (hregular : IsRegular significand exponent) (hpos : 0 < significand)
    (h : (RoundingInterval.around significand exponent).Has (digits * 10 ^ shift)) :
    ofDecimal negative digits shift = .finite negative significand exponent := by
  have hsmall := ten_zpow_le_of_roundsTo hregular.least_le hpos (roundsTo_of_has hpos h)
  have hdigits : digits ≠ 0 := by
    rintro rfl
    rw [Nat.cast_zero, zero_mul] at hsmall
    exact absurd hsmall (not_le_of_gt (by positivity))
  rw [ofDecimal, if_neg hdigits]
  rcases eq_or_lt_of_le hshift with rfl | hneg
  · rw [if_pos le_rfl, if_neg (by decide)]
    refine ofRatio_eq_of_has negative one_pos hregular hpos ?_
    rw [zpow_zero, mul_one] at h
    rw [Nat.cast_one, div_one]
    simpa using h
  · have hguard : ¬ shift + (digits.log2 / 3 + 1 : Nat) < -400 := by
      intro hlt
      have hfew : (digits : ℚ) < 10 ^ ((digits.log2 / 3 + 1 : Nat) : Int) := by
        rw [zpow_natCast]
        exact_mod_cast lt_ten_pow digits
      have hlarge : (digits : ℚ) * 10 ^ shift < 10 ^ (-400 : Int) :=
        calc (digits : ℚ) * 10 ^ shift
          _ < 10 ^ ((digits.log2 / 3 + 1 : Nat) : Int) * 10 ^ shift :=
            mul_lt_mul_of_pos_right hfew (by positivity)
          _ = 10 ^ (shift + (digits.log2 / 3 + 1 : Nat)) := by
            rw [← zpow_add₀ (by norm_num), add_comm]
          _ ≤ 10 ^ (-400 : Int) := zpow_le_zpow_right₀ (by norm_num) hlt.le
      exact absurd hsmall (not_le_of_gt hlarge)
    rw [if_neg (not_le_of_gt hneg), if_neg hguard]
    have hten : (10 : ℚ) ^ shift = ((Nat.pow 10 (-shift).toNat : Nat) : ℚ)⁻¹ := by
      rw [← cast_tenPower_div shift, Int.toNat_eq_zero.mpr hshift, Nat.pow_eq, pow_zero, Nat.cast_one,
        one_div]
    refine ofRatio_eq_of_has negative (Nat.pow_pos (by decide)) hregular hpos ?_
    rwa [div_eq_mul_inv, ← hten]

/-- Positional notation is read as a decimal with the same value. -/
theorem binary64?_positional (negative : Bool) (d : Decimal) :
    ∃ (digits : Nat) (shift : Int), shift ≤ 0 ∧ (digits : ℚ) * 10 ^ shift = d.value ∧
      Numeral.binary64? (Numeral.signed negative d.positional) =
        some (ofDecimal negative digits shift) := by
  have hzeros : ∀ n : Nat, ∀ c ∈ List.replicate n '0', Text.isAsciiDigit c = true := by
    intro n c hc
    rw [List.eq_of_mem_replicate hc]
    rfl
  have hdigits : ∀ c ∈ d.digitChars, Text.isAsciiDigit c = true :=
    fun c hc => TypeScript.isAsciiDigit_of_mem_toDigits hc
  have hvalue : Numeral.valueOf d.digitChars = d.digits := Numeral.valueOf_toDigits d.digits
  rw [Decimal.positional]
  by_cases hwhole : (-d.exponent).toNat = 0
  · have hexponent : 0 ≤ d.exponent := by omega
    rw [if_pos hwhole]
    by_cases hzero : d.digits = 0
    · refine ⟨0, 0, le_rfl, ?_, ?_⟩
      · rw [Decimal.value, hzero]
        simp
      · rw [if_pos hzero]
        exact Numeral.binary64?_whole negative (List.forall_mem_singleton.mpr rfl) (by decide)
    · refine ⟨Numeral.valueOf (d.digitChars ++ List.replicate d.exponent.toNat '0'), 0, le_rfl, ?_, ?_⟩
      · rw [Numeral.valueOf_eq, Nat.ofDigitChars_append, Nat.ofDigitChars_replicate_zero,
          ← Numeral.valueOf_eq, hvalue, Decimal.value]
        obtain ⟨n, hn⟩ := Int.eq_ofNat_of_zero_le hexponent
        rw [hn, Int.toNat_natCast, zpow_zero, mul_one, zpow_natCast]
        push_cast
        ring
      · rw [if_neg hzero]
        exact Numeral.binary64?_whole negative (List.forall_mem_append.mpr ⟨hdigits, hzeros _⟩)
          (List.append_ne_nil_of_left_ne_nil Nat.toDigits_ne_nil _)
  · rw [if_neg hwhole]
    have hshift : (-((-d.exponent).toNat : Int)) = d.exponent := by omega
    refine ⟨d.digits, d.exponent, by omega, rfl, ?_⟩
    by_cases hlt : (-d.exponent).toNat < d.digitChars.length
    · rw [if_pos hlt]
      refine (Numeral.binary64?_fraction negative (fun c hc => hdigits c (List.mem_of_mem_take hc)) ?_
        fun c hc => hdigits c (List.mem_of_mem_drop hc)).trans ?_
      · intro hnil
        have hlength := congrArg List.length hnil
        rw [List.length_take, List.length_nil] at hlength
        omega
      · have hlength : (d.digitChars.drop (d.digitChars.length - (-d.exponent).toNat)).length =
            (-d.exponent).toNat := by
          rw [List.length_drop]
          omega
        rw [List.take_append_drop, hvalue, hlength, hshift]
    · rw [if_neg hlt]
      refine (Numeral.binary64?_fraction negative (List.forall_mem_singleton.mpr rfl)
        (List.cons_ne_nil '0' []) (List.forall_mem_append.mpr ⟨hzeros _, hdigits⟩)).trans ?_
      have hlength : (List.replicate ((-d.exponent).toNat - d.digitChars.length) '0' ++
          d.digitChars).length = (-d.exponent).toNat := by
        rw [List.length_append, List.length_replicate]
        omega
      rw [hlength, hshift, Numeral.valueOf_eq, Nat.ofDigitChars_append, Nat.ofDigitChars_append,
        Nat.ofDigitChars_replicate_zero, ← hvalue, Numeral.valueOf_eq]
      rfl

/-- The shortest decimal is read as the number, zeros included. -/
theorem binary64?_shortest (negative : Bool) (hregular : IsRegular significand exponent) :
    Numeral.binary64? (Numeral.signed negative (Decimal.shortest significand exponent).positional) =
      some (.finite negative significand exponent) := by
  rcases Nat.eq_zero_or_pos significand with rfl | hpos
  · obtain rfl : exponent = leastExponent := hregular.full.resolve_left (by decide)
    cases negative <;> decide
  · obtain ⟨digits, shift, hshift, hvalue, hread⟩ :=
      binary64?_positional negative (Decimal.shortest significand exponent)
    have hhas : (RoundingInterval.around significand exponent).Has (digits * 10 ^ shift) := by
      rw [hvalue]
      exact Decimal.has_shortest hpos
    rw [hread, ofDecimal_eq_of_has negative hshift hregular hpos hhas]

/-- **The text of a number reads back** as the number. -/
theorem binary64?_text {x : Binary64} (h : x.IsProper) : Numeral.binary64? x.text.toList = some x := by
  cases x with
  | finite negative significand exponent =>
    rw [text, String.toList_ofList]
    exact binary64?_shortest negative h
  | infinite => cases h
  | notANumber => cases h

/-- The digits of a natural number are read as the number nearest to it. -/
theorem binary64?_toDigits (n : Nat) : Numeral.binary64? (Nat.toDigits 10 n) = some (ofNat n) := by
  have hnearest : ofDecimal false n 0 = ofNat n := by
    rw [ofDecimal, ofNat]
    split
    next hzero => rw [hzero, ofRatio, if_pos rfl]
    next => rw [if_pos le_rfl, if_neg (by decide), Int.toNat_zero, Nat.pow_eq, pow_zero, mul_one]
  have hdigits : ∀ c ∈ Nat.toDigits 10 n, Text.isAsciiDigit c = true :=
    fun c hc => TypeScript.isAsciiDigit_of_mem_toDigits hc
  have hread := Numeral.binary64?_whole false hdigits Nat.toDigits_ne_nil
  rwa [Numeral.valueOf_toDigits, hnearest] at hread

end Binary64

end ApiScribe
