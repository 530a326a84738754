/-
How far arithmetic on binary64 data stays among the finite ones. Rounding is monotone against a datum:
a ratio that is not above it is not rounded to one above it, and a ratio that is not below it is not
rounded to one below it. So a quotient by one or more is never above its dividend, and stays finite with
it; and the powers of ten that are divided by are finite and not below one.

A datum is taken as a rational here only to be compared with a ratio; magnitudes are compared in the
order of the data. `round_spec` says once what rounding does; the rest is derived from it.
-/
import ShapeLedger.Binary64.Basic
import Mathlib.Algebra.Order.Field.Power
import Mathlib.Algebra.Order.Field.Rat
import Mathlib.Tactic.GCongr
import Mathlib.Tactic.Linarith
import Mathlib.Tactic.NormNum
import Mathlib.Tactic.Positivity
import Mathlib.Tactic.Ring

namespace ShapeLedger.Binary64

/-! ## Fields -/

theorem infiniteMagnitude_lt : infiniteMagnitude < twoPow 63 := by decide

theorem magnitude_ofMagnitude {negative : Bool} {m : Nat} (h : m < twoPow 63) :
    (ofMagnitude negative m).magnitude = m := by
  have hp : twoPow 63 = 9223372036854775808 := by decide
  unfold ofMagnitude magnitude
  rw [hp] at h ⊢
  cases negative
  · simp only [Bool.false_eq_true, if_false, UInt64.toNat_ofNat', Nat.zero_add]; omega
  · simp only [if_true, UInt64.toNat_ofNat']; omega

theorem isFinite_iff {x : Binary64} : x.isFinite = true ↔ x.magnitude < infiniteMagnitude :=
  decide_eq_true_iff

theorem isFinite_ofMagnitude {negative : Bool} {m : Nat} (h : m < infiniteMagnitude) :
    (ofMagnitude negative m).isFinite = true := by
  rwa [isFinite_iff, magnitude_ofMagnitude (h.trans infiniteMagnitude_lt)]

theorem isFinite_neg {x : Binary64} (h : x.isFinite = true) : x.neg.isFinite = true :=
  isFinite_ofMagnitude (isFinite_iff.1 h)

theorem isFinite_zero (negative : Bool) : (zero negative).isFinite = true :=
  isFinite_ofMagnitude (by decide)

/-- There are two zeros. -/
theorem isZero_iff {x : Binary64} : x.isZero = true ↔ x = zero true ∨ x = zero false := by
  constructor
  · obtain ⟨bits⟩ := x
    intro h
    have hmod : bits.toNat % 2 ^ 63 = 0 := of_decide_eq_true h
    have hbits : bits.toNat = 2 ^ 63 ∨ bits.toNat = 0 := by
      have := bits.toNat_lt
      omega
    rcases hbits with hb | hb
    · exact .inl (congrArg Binary64.mk (UInt64.toNat_inj.1 hb))
    · exact .inr (congrArg Binary64.mk (UInt64.toNat_inj.1 hb))
  · rintro (rfl | rfl) <;> decide

/-- What a finite datum is not. -/
theorem not_special {x : Binary64} (h : x.isFinite = true) : x.isNaN = false ∧ x.isInfinite = false := by
  rw [isFinite_iff] at h
  exact ⟨decide_eq_false (Nat.lt_asymm h), decide_eq_false (Nat.ne_of_lt h)⟩

/-- The magnitude of a finite datum as a number. -/
def size (x : Binary64) : ℚ := x.significand * (2 : ℚ) ^ x.unit

/-- How the significand and the place of its last bit make up a magnitude. -/
structure Fields (x : Binary64) : Prop where
  magnitude : (x.magnitude : ℤ) = (x.unit + 1074) * 2 ^ 52 + x.significand
  low : -1074 ≤ x.unit
  high : x.significand < 2 ^ 53
  /-- Above the lowest place the leading bit is always set. -/
  normal : -1074 < x.unit → 2 ^ 52 ≤ x.significand

theorem fields (x : Binary64) : Fields x := by
  have hp : twoPow 52 = 4503599627370496 := by decide
  have hm := Nat.div_add_mod x.magnitude (twoPow 52)
  have hf := Nat.mod_lt x.magnitude (show 0 < twoPow 52 by decide)
  rw [hp] at hm hf
  constructor
  case magnitude => simp only [significand, unit, hp, Int.ofNat_eq_natCast]; split <;> omega
  case low => simp only [unit, hp, Int.ofNat_eq_natCast]; split <;> omega
  case high => simp only [significand, hp]; split <;> omega
  case normal => simp only [significand, unit, hp]; split <;> omega

/-! ## Ratios -/

theorem twoPow_cast (n : Nat) : (twoPow n : ℚ) = 2 ^ n := by simp [twoPow]

theorem two_zpow_eq (e : ℤ) : (2 : ℚ) ^ e = twoPow e.toNat / twoPow (-e).toNat := by
  rw [twoPow_cast, twoPow_cast]
  obtain ⟨n, rfl | rfl⟩ := e.eq_nat_or_neg
  · simp
  · simp [zpow_neg]

theorem twoPow_pos (n : Nat) : (0 : ℚ) < twoPow n := by rw [twoPow_cast]; positivity

/-- Moving a power of two across a ratio. -/
theorem ratio_scaled (num den : Nat) (e : ℤ) :
    ((num * twoPow e.toNat : ℕ) : ℚ) / ((den * twoPow (-e).toNat : ℕ) : ℚ) = num / den * (2 : ℚ) ^ e := by
  rw [two_zpow_eq, Nat.cast_mul, Nat.cast_mul, mul_div_mul_comm]

theorem floorLog2_spec {num den : Nat} (hn : 0 < num) (hd : 0 < den) :
    (2 : ℚ) ^ floorLog2 num den ≤ num / den ∧ (num : ℚ) / den < (2 : ℚ) ^ (floorLog2 num den + 1) := by
  have hdq : (0 : ℚ) < den := Nat.cast_pos.2 hd
  have nlow : (2 : ℚ) ^ num.log2 ≤ num := by exact_mod_cast Nat.log2_self_le hn.ne'
  have nhigh : (num : ℚ) < 2 ^ (num.log2 + 1) := by exact_mod_cast Nat.lt_log2_self
  have dlow : (2 : ℚ) ^ den.log2 ≤ den := by exact_mod_cast Nat.log2_self_le hd.ne'
  have dhigh : (den : ℚ) < 2 ^ (den.log2 + 1) := by exact_mod_cast Nat.lt_log2_self
  -- the difference of the logarithms is right or one too great
  have low : (2 : ℚ) ^ ((num.log2 : ℤ) - den.log2 - 1) ≤ num / den := by
    rw [le_div_iff₀ hdq]
    calc (2 : ℚ) ^ ((num.log2 : ℤ) - den.log2 - 1) * den
        ≤ (2 : ℚ) ^ ((num.log2 : ℤ) - den.log2 - 1) * 2 ^ (den.log2 + 1) := by gcongr
      _ = 2 ^ num.log2 := by
        rw [← zpow_natCast, ← zpow_natCast, ← zpow_add₀ two_ne_zero]; congr 1; push_cast; ring
      _ ≤ num := nlow
  have high : (num : ℚ) / den < (2 : ℚ) ^ ((num.log2 : ℤ) - den.log2 + 1) := by
    rw [div_lt_iff₀ hdq]
    calc (num : ℚ) < 2 ^ (num.log2 + 1) := nhigh
      _ = (2 : ℚ) ^ ((num.log2 : ℤ) - den.log2 + 1) * 2 ^ den.log2 := by
        rw [← zpow_natCast, ← zpow_natCast, ← zpow_add₀ two_ne_zero]; congr 1; push_cast; ring
      _ ≤ (2 : ℚ) ^ ((num.log2 : ℤ) - den.log2 + 1) * den := by gcongr
  -- and the test compares the ratio with that power
  have test (e : ℤ) : den * twoPow e.toNat ≤ num * twoPow (-e).toNat ↔ (2 : ℚ) ^ e ≤ num / den := by
    rw [two_zpow_eq, div_le_div_iff₀ (twoPow_pos _) hdq, mul_comm den]
    exact_mod_cast Iff.rfl
  unfold floorLog2
  simp only [test]
  split
  · next h => exact ⟨h, high⟩
  · next h => exact ⟨low, by rw [sub_add_cancel]; exact not_le.1 h⟩

theorem roundHalfEven_le {num den k : Nat} (h : num ≤ k * den) : roundHalfEven num den ≤ k := by
  have hq := Nat.div_add_mod num den
  unfold roundHalfEven
  -- it is only rounded up when something is left over, so the quotient is below the bound then
  by_cases hr : num % den = 0
  · have hle : num / den ≤ k := Nat.div_le_of_le_mul (by rwa [Nat.mul_comm])
    grind
  · have hlt : num / den < k := by
      by_contra hk
      have := Nat.mul_le_mul_left den (not_lt.1 hk)
      have := Nat.mul_comm k den
      omega
    grind

theorem le_roundHalfEven {num den k : Nat} (hd : 0 < den) (h : k * den ≤ num) :
    k ≤ roundHalfEven num den := by
  have hle : k ≤ num / den := (Nat.le_div_iff_mul_le hd).2 h
  unfold roundHalfEven
  grind

/-! ## Rounding -/

theorem round_magnitude_le (negative : Bool) (num den : Nat) :
    (round negative num den).magnitude ≤ infiniteMagnitude := by
  unfold round
  split
  · exact (isFinite_iff.1 (isFinite_zero negative)).le
  · rw [magnitude_ofMagnitude ((min_le_right _ _).trans_lt infiniteMagnitude_lt)]
    exact min_le_right _ _

/-- How a positive ratio `q` is rounded to the magnitude `m`: it is counted in the last places of its
binade, or in the lowest ones, and the count is on the same side of every whole number as the ratio. -/
structure Rounds (q : ℚ) (m : Nat) (unit : ℤ) (count : Nat) : Prop where
  magnitude : m = min ((unit + 1074).toNat * 2 ^ 52 + count) infiniteMagnitude
  low : -1074 ≤ unit
  binade : -1074 < unit → (2 : ℚ) ^ (unit + 52) ≤ q
  high : q < (2 : ℚ) ^ (unit + 53)
  below : ∀ n : Nat, q ≤ n * (2 : ℚ) ^ unit → count ≤ n
  above : ∀ n : Nat, n * (2 : ℚ) ^ unit ≤ q → n ≤ count

theorem round_spec (negative : Bool) {num den : Nat} (hn : 0 < num) (hd : 0 < den) :
    ∃ unit count, Rounds (num / den) (round negative num den).magnitude unit count := by
  obtain ⟨low, high⟩ := floorLog2_spec hn hd
  have hdq : (0 : ℚ) < den := Nat.cast_pos.2 hd
  unfold round
  rw [if_neg hn.ne']
  generalize floorLog2 num den = e at low high
  generalize hu : max e (-1022) - 52 = u
  refine ⟨u, roundHalfEven (num * twoPow (-u).toNat) (den * twoPow u.toNat), ?_⟩
  constructor
  case magnitude =>
    rw [magnitude_ofMagnitude ((min_le_right _ _).trans_lt infiniteMagnitude_lt)]
    rfl
  case low => omega
  case binade =>
    intro h
    rwa [show u + 52 = e by omega]
  case high => exact high.trans_le (zpow_le_zpow_right₀ one_le_two (by omega))
  case below =>
    intro n h
    apply roundHalfEven_le
    -- cleared of fractions this is the bound that the rounding of a quotient needs
    rw [two_zpow_eq, mul_div_assoc', div_le_div_iff₀ hdq (twoPow_pos _)] at h
    have h : num * twoPow (-u).toNat ≤ n * twoPow u.toNat * den := by exact_mod_cast h
    calc _ ≤ _ := h
      _ = n * (den * twoPow u.toNat) := by ring
  case above =>
    intro n h
    apply le_roundHalfEven (Nat.mul_pos hd (Nat.pow_pos (by decide)))
    rw [two_zpow_eq, mul_div_assoc', div_le_div_iff₀ (twoPow_pos _) hdq] at h
    have h : n * twoPow u.toNat * den ≤ num * twoPow (-u).toNat := by exact_mod_cast h
    calc n * (den * twoPow u.toNat) = n * twoPow u.toNat * den := by ring
      _ ≤ _ := h

section
variable {x : Binary64} {num den : Nat}

/-- A datum is below the binade above its own. -/
theorem size_lt (x : Binary64) : x.size < (2 : ℚ) ^ (x.unit + 53) := by
  have hh : (x.significand : ℚ) < (2 : ℚ) ^ (53 : ℤ) := by exact_mod_cast (fields x).high
  calc x.size < (2 : ℚ) ^ (53 : ℤ) * (2 : ℚ) ^ x.unit := by unfold size; gcongr
    _ = (2 : ℚ) ^ (x.unit + 53) := by rw [← zpow_add₀ two_ne_zero, add_comm]

/-- And not below its own, unless that is the lowest one. -/
theorem le_size {x : Binary64} (h : -1074 < x.unit) : (2 : ℚ) ^ (x.unit + 52) ≤ x.size := by
  have hn : (2 : ℚ) ^ (52 : ℤ) ≤ x.significand := by exact_mod_cast (fields x).normal h
  calc (2 : ℚ) ^ (x.unit + 52) = (2 : ℚ) ^ (52 : ℤ) * (2 : ℚ) ^ x.unit := by
        rw [← zpow_add₀ two_ne_zero, add_comm]
    _ ≤ x.size := by unfold size; gcongr

/-- The magnitude of one. -/
def oneMagnitude : Nat := 1023 * twoPow 52

theorem one_le_size {x : Binary64} (h : oneMagnitude ≤ x.magnitude) : 1 ≤ x.size := by
  have hm := (fields x).magnitude
  have hh := (fields x).high
  have h1 : oneMagnitude = 1023 * 4503599627370496 := by decide
  have hu : 0 ≤ x.unit + 52 := by omega
  exact (one_le_zpow₀ one_le_two hu).trans (le_size (by omega))

/-- A ratio that is not above a datum is not rounded to one above it. -/
theorem round_le (negative : Bool) (hd : 0 < den) (h : (num : ℚ) / den ≤ x.size) :
    (round negative num den).magnitude ≤ x.magnitude := by
  have hf := fields x
  have hm := hf.magnitude
  rcases Nat.eq_zero_or_pos num with rfl | hn
  · rw [round, if_pos rfl, zero, magnitude_ofMagnitude (by decide)]
    exact Nat.zero_le _
  · obtain ⟨u, k, hr⟩ := round_spec negative hn hd
    have hlow := hr.low
    rw [hr.magnitude]
    refine (min_le_left _ _).trans ?_
    rcases lt_trichotomy u x.unit with hlt | heq | hgt
    · -- the datum is in a binade above
      have hk := hr.below (2 ^ 53) <| hr.high.le.trans <| by
        rw [zpow_add₀ two_ne_zero, mul_comm]; norm_num
      have := hf.normal (by omega)
      omega
    · have hk := hr.below x.significand (heq ▸ h)
      omega
    · -- the datum is in a binade below, and cannot reach the ratio
      have hle : x.unit + 53 ≤ u + 52 := by omega
      have hreach := (hr.binade (by have := hf.low; omega)).trans h
      have hshort := (size_lt x).trans_le (zpow_le_zpow_right₀ one_le_two hle)
      exact absurd hreach (not_le.2 hshort)

/-- A ratio that is not below a finite datum is not rounded to one below it. -/
theorem le_round (negative : Bool) (hd : 0 < den) (hx : x.isFinite = true) (h : x.size ≤ (num : ℚ) / den) :
    x.magnitude ≤ (round negative num den).magnitude := by
  have hf := fields x
  have hm := hf.magnitude
  rcases Nat.eq_zero_or_pos num with rfl | hn
  · -- only zero is not above zero
    have hsig : x.significand = 0 := by
      have hpos : (0 : ℚ) < (2 : ℚ) ^ x.unit := by positivity
      have hle : (x.significand : ℚ) * (2 : ℚ) ^ x.unit ≤ 0 := by simpa [size] using h
      have hsig := nonpos_of_mul_nonpos_left hle hpos
      exact Nat.le_zero.1 (by exact_mod_cast hsig)
    have hunit : ¬ -1074 < x.unit := fun hu => by have := hf.normal hu; omega
    have := hf.low
    omega
  · obtain ⟨u, k, hr⟩ := round_spec negative hn hd
    have hlow := hr.low
    rw [hr.magnitude]
    refine le_min ?_ (isFinite_iff.1 hx).le
    rcases lt_trichotomy u x.unit with hlt | heq | hgt
    · -- the datum is in a binade above, and the ratio cannot reach it
      have hle : u + 53 ≤ x.unit + 52 := by omega
      have hreach := (le_size (show -1074 < x.unit by omega)).trans h
      have hshort := hr.high.trans_le (zpow_le_zpow_right₀ one_le_two hle)
      exact absurd hreach (not_le.2 hshort)
    · have hk := hr.above x.significand (heq ▸ h)
      omega
    · -- the datum is in a binade below
      have hk := hr.above (2 ^ 52) <| le_trans (by rw [zpow_add₀ two_ne_zero, mul_comm]; norm_num) <|
        hr.binade (by have := hf.low; omega)
      have := hf.high
      have := hf.low
      omega

end

/-! ## Arithmetic -/

section
variable {x y : Binary64}

theorem isFinite_div (hx : x.isFinite = true) (hy : y.isFinite = true)
    (one : oneMagnitude ≤ y.magnitude) : (x.div y).isFinite = true := by
  have hy0 : y.isZero = false := decide_eq_false fun h0 => by rw [h0] at one; exact absurd one (by decide)
  have hys := one_le_size one
  have hsig : 0 < y.significand := by
    by_contra h0
    have : y.significand = 0 := by omega
    norm_num [size, this] at hys
  unfold div
  simp only [not_special hx, not_special hy, hy0, Bool.or_false, Bool.false_eq_true, if_false]
  rw [isFinite_iff] at hx ⊢
  refine (round_le _ ?_ ?_).trans_lt hx
  · exact Nat.mul_pos hsig (Nat.pow_pos (by decide))
  · rw [ratio_scaled, zpow_sub₀ two_ne_zero]
    calc (x.significand : ℚ) / y.significand * ((2 : ℚ) ^ x.unit / (2 : ℚ) ^ y.unit)
        = x.size / y.size := by rw [size, size, div_mul_div_comm]
      _ ≤ x.size := div_le_self (by unfold size; positivity) hys

/-- A product of finite data is finite or infinite, and never NaN. -/
theorem isFinite_mul (hx : x.isFinite = true) (hy : y.isFinite = true)
    (h : (x.mul y).isInfinite = false) : (x.mul y).isFinite = true := by
  have hle : (x.mul y).magnitude ≤ infiniteMagnitude := by
    unfold mul
    simp only [not_special hx, not_special hy, Bool.or_false, Bool.false_eq_true, if_false]
    exact round_magnitude_le ..
  exact isFinite_iff.2 (lt_of_le_of_ne hle (of_decide_eq_false h))

end

/-- An integer below 2^64 is rounded to a finite datum, whatever its sign. -/
theorem isFinite_round (negative : Bool) {m : Nat} (h : m < twoPow 64) :
    (round negative m 1).isFinite = true := by
  -- the datum two to the sixty-fourth
  generalize hx : ofMagnitude false (1087 * twoPow 52) = x
  have hsize : x.size = 2 ^ 64 := by
    have hsig : x.significand = 2 ^ 52 := by rw [← hx]; decide
    have hunit : x.unit = 12 := by rw [← hx]; decide
    rw [size, hsig, hunit]
    norm_num
  have hfinite : x.isFinite = true := by rw [← hx]; decide
  have hle : (m : ℚ) / (1 : Nat) ≤ x.size := by
    rw [hsize, Nat.cast_one, div_one]
    exact_mod_cast h.le
  exact isFinite_iff.2 ((round_le negative Nat.one_pos hle).trans_lt (isFinite_iff.1 hfinite))

theorem isFinite_ofNat {m : Nat} (h : m < twoPow 64) : (ofNat m).isFinite = true := isFinite_round false h

theorem isFinite_ofInt {n : Int} (low : -(twoPow 63 : Int) ≤ n) (high : n < twoPow 64) :
    (ofInt n).isFinite = true := by
  have h63 : twoPow 63 = 2 ^ 63 := rfl
  have h64 : twoPow 64 = 2 ^ 64 := rfl
  exact isFinite_round _ (by omega)

theorem tenPow_le {m n : Nat} (h : m ≤ n) : tenPow m ≤ tenPow n := Nat.pow_le_pow_right (by decide) h

/-- The powers of ten up to 10^308 are finite data, and none of them is below one. -/
theorem tenPow_spec {k : Nat} (h : k ≤ 308) :
    (ofDecimal false 1 k).isFinite = true ∧ oneMagnitude ≤ (ofDecimal false 1 k).magnitude := by
  have hlen : decimalLength 1 = 1 := by unfold decimalLength; rfl
  have hround : ofDecimal false 1 k = round false (tenPow k) 1 := by
    rw [ofDecimal, if_neg Nat.one_ne_zero]
    simp only [hlen, Int.toNat_natCast, show (-(k : ℤ)).toNat = 0 by omega]
    rw [if_neg (by omega), if_neg (by omega), Nat.one_mul]
    rfl
  rw [hround]
  constructor
  · -- the greatest finite datum
    generalize hx : ofMagnitude false (infiniteMagnitude - 1) = x
    have hsize : x.size = ((2 ^ 53 - 1) * twoPow 971 : Nat) := by
      have hsig : x.significand = 2 ^ 53 - 1 := by rw [← hx]; decide
      have hunit : x.unit = (971 : Nat) := by rw [← hx]; decide
      rw [size, hsig, hunit, Nat.cast_mul, twoPow_cast, zpow_natCast]
    have hfinite : x.isFinite = true := by rw [← hx]; decide
    have hpow : tenPow k ≤ (2 ^ 53 - 1) * twoPow 971 := (tenPow_le h).trans (by decide +kernel)
    have hle : (tenPow k : ℚ) / (1 : Nat) ≤ x.size := by
      rw [hsize, Nat.cast_one, div_one]
      exact Nat.cast_le.2 hpow
    exact isFinite_iff.2 ((round_le false Nat.one_pos hle).trans_lt (isFinite_iff.1 hfinite))
  · generalize hx : ofMagnitude false oneMagnitude = x
    have hmag : x.magnitude = oneMagnitude := by rw [← hx]; decide
    have hsize : x.size = 1 := by
      have hsig : x.significand = 2 ^ 52 := by rw [← hx]; decide
      have hunit : x.unit = -52 := by rw [← hx]; decide
      rw [size, hsig, hunit]
      norm_num
    have hfinite : x.isFinite = true := by rw [← hx]; decide
    have hpow : 1 ≤ tenPow k := Nat.pow_pos (by decide)
    have hle : x.size ≤ (tenPow k : ℚ) / (1 : Nat) := by
      rw [hsize, Nat.cast_one, div_one]
      exact_mod_cast hpow
    exact hmag ▸ le_round false Nat.one_pos hfinite hle

end ShapeLedger.Binary64
