/-
Which texts are read as a port. A number is read in 64 bits, digit by digit from the left; so a number that is
no port may be too large to be read at all, but one that is a port never is, whatever zeros are in front of it.
-/
import ShapeLedger.CommandLine.Parse
import Mathlib.Data.List.Basic
import Mathlib.Data.Nat.Digits.Defs

namespace ShapeLedger.CommandLine

/-! ## Definitions -/

/-- One way to write an integer: decimal digits with a sign in front of them, or without one. Only what is below
zero has a minus sign. -/
inductive IntegerText : String → Int → Prop where
  | unsigned {ds : List Char} (digits : ∀ c ∈ ds, c.isDigit = true) (some : ds ≠ []) :
      IntegerText (String.ofList ds) (Nat.ofDigitChars 10 ds 0)
  | positive {ds : List Char} (digits : ∀ c ∈ ds, c.isDigit = true) (some : ds ≠ []) :
      IntegerText (String.ofList ('+' :: ds)) (Nat.ofDigitChars 10 ds 0)
  | negative {ds : List Char} (digits : ∀ c ∈ ds, c.isDigit = true) (below : 0 < Nat.ofDigitChars 10 ds 0) :
      IntegerText (String.ofList ('-' :: ds)) (-(Nat.ofDigitChars 10 ds 0))

/-- A number with a sign. -/
def signed (negative : Bool) (n : Nat) : Int := if negative then -n else n

/-! ## Digits -/

section
variable {ds : List Char} {negative : Bool} {k : Nat} {n v : Int}

theorem le_ofDigitChars (ds : List Char) (k : Nat) : k ≤ Nat.ofDigitChars 10 ds k := by
  induction ds generalizing k with
  | nil => simp
  | cons c ds ih =>
    rw [Nat.ofDigitChars_cons]
    have := ih (10 * k + (c.toNat - '0'.toNat))
    omega

/-- What one digit more makes of a number. -/
theorem signed_digit {c : Char} (hc : c.isDigit = true) :
    (if negative then signed negative k * 10 - ((c.toNat : Int) - 0x30)
      else signed negative k * 10 + ((c.toNat : Int) - 0x30)) =
      signed negative (10 * k + (c.toNat - '0'.toNat)) := by
  have hzero : '0'.toNat = 0x30 := rfl
  have hle : 0x30 ≤ c.toNat := by
    have := (Char.isDigit_iff_toNat.1 hc).1
    omega
  unfold signed
  split <;> omega

/-- The number that digits are read into is theirs. -/
theorem readDigits_eq_ok (hds : ∀ c ∈ ds, c.isDigit = true)
    (h : readDigits negative (signed negative k) ds = .ok v) : v = signed negative (Nat.ofDigitChars 10 ds k) := by
  induction ds generalizing k with
  | nil =>
    cases h
    simp
  | cons c ds ih =>
    obtain ⟨hc, hrest⟩ := List.forall_mem_cons.1 hds
    simp only [readDigits, hc, Bool.not_true, Bool.false_eq_true, if_false, signed_digit hc] at h
    rw [Nat.ofDigitChars_cons]
    split at h
    · cases h
    · split at h
      · cases h
      · exact ih hrest h

/-- Digits of a number that is not below zero, and is small enough, are read. -/
theorem readDigits_ofDigitChars (hds : ∀ c ∈ ds, c.isDigit = true)
    (h : (Nat.ofDigitChars 10 ds k : Int) < twoPow 63) :
    readDigits false k ds = .ok (Nat.ofDigitChars 10 ds k : Int) := by
  induction ds generalizing k with
  | nil => simp [readDigits]
  | cons c ds ih =>
    obtain ⟨hc, hrest⟩ := List.forall_mem_cons.1 hds
    have hstep := @signed_digit false k c hc
    simp only [signed, Bool.false_eq_true, if_false] at hstep
    rw [Nat.ofDigitChars_cons] at h ⊢
    -- the number only grows, so none of its beginnings is too large
    have hle := le_ofDigitChars ds (10 * k + (c.toNat - '0'.toNat))
    have hlow : ¬ ((10 * k + (c.toNat - '0'.toNat) : Nat) : Int) < -twoPow 63 := by
      have : (0 : Int) ≤ twoPow 63 := by decide
      omega
    have hhigh : ¬ (twoPow 63 : Int) ≤ ((10 * k + (c.toNat - '0'.toNat) : Nat) : Int) := by omega
    simp only [readDigits, hc, Bool.not_true, Bool.false_eq_true, if_false, hstep, if_neg hlow, if_neg hhigh]
    exact ih hrest h

/-! ## Ports -/

variable {t : String}

theorem readSigned_digits (hds : ∀ c ∈ ds, c.isDigit = true) (hne : ds ≠ []) :
    readSigned ds = readDigits false 0 ds := by
  unfold readSigned
  split
  · exact absurd rfl hne
  · exact absurd (hds '-' List.mem_cons_self) (by decide)
  · exact absurd (hds '+' List.mem_cons_self) (by decide)
  · rfl

theorem readSigned_sign (negative : Bool) (hne : ds ≠ []) :
    readSigned ((if negative then '-' else '+') :: ds) = readDigits negative 0 ds := by
  have hempty : ds.isEmpty = false := by simpa using hne
  cases negative <;> simp [readSigned, hempty]

/-- A text is read as the number that it writes, or not at all. -/
theorem readSigned_eq_ok (h : IntegerText t n) (hv : readSigned t.toList = .ok v) : v = n := by
  cases h with
  | unsigned hds hne =>
    rw [String.toList_ofList, readSigned_digits hds hne] at hv
    exact readDigits_eq_ok hds hv
  | positive hds hne =>
    rw [String.toList_ofList] at hv
    exact readDigits_eq_ok hds ((readSigned_sign false hne).symm.trans hv)
  | @negative ds hds hbelow =>
    rw [String.toList_ofList] at hv
    have hne : ds ≠ [] := by
      rintro rfl
      simp at hbelow
    have hread : readDigits true (signed true 0) ds = .ok v := (readSigned_sign true hne).symm.trans hv
    exact readDigits_eq_ok hds hread

theorem readSigned_of_lt (h : IntegerText t n) (hlow : 0 ≤ n) (hhigh : n < twoPow 63) :
    readSigned t.toList = .ok n := by
  cases h with
  | unsigned hds hne =>
    rw [String.toList_ofList, readSigned_digits hds hne]
    exact readDigits_ofDigitChars hds hhigh
  | positive hds hne =>
    rw [String.toList_ofList]
    exact (readSigned_sign false hne).trans (readDigits_ofDigitChars hds hhigh)
  | negative hds hbelow => omega

/-- A port is read from each of its texts. -/
theorem readPort_eq_ok (h : IntegerText t n) (hlow : 0 ≤ n) (hhigh : n < 65536) :
    readPort t = .ok (UInt16.ofNat n.toNat) := by
  have hsixteen : n < twoPow 16 := hhigh
  have hsixtyThree : (twoPow 16 : Int) ≤ twoPow 63 := by decide
  unfold readPort
  rw [readSigned_of_lt h hlow (by omega)]
  simp [hlow, hsixteen]

/-- No text of another number is taken. -/
theorem readPort_eq_error (h : IntegerText t n) (hout : ¬ (0 ≤ n ∧ n < 65536)) :
    ∃ fault, readPort t = .error fault := by
  unfold readPort
  cases hv : readSigned t.toList with
  | error fault => exact ⟨fault, rfl⟩
  | ok v =>
    obtain rfl := readSigned_eq_ok h hv
    refine ⟨.outOfRange v, if_neg ?_⟩
    rw [Bool.and_eq_true, decide_eq_true_iff, decide_eq_true_iff]
    exact hout

end

end ShapeLedger.CommandLine
