/-
The reader of number literals against the grammar. It takes as long a literal as it can, so it accepts
a literal of the grammar exactly where what follows cannot prolong it; the number that it gives is the
one that the literal denotes.
-/
import ShapeLedger.Proofs.Binary64.Rounding
import ShapeLedger.Proofs.Json.Grammar
import Mathlib.Data.List.TakeWhile

namespace ShapeLedger.Json

open Ascii Grammar

/-! ## What follows a literal -/

/-- No digit comes next. -/
def NoDigit (r : Bytes) : Prop := ∀ b ∈ r.head?, isDigit b = false

/-- Nothing comes next that would prolong a number literal. -/
structure Stops (r : Bytes) : Prop where
  digit : NoDigit r
  point : ∀ b ∈ r.head?, b ≠ point
  exponent : ∀ b ∈ r.head?, ¬ (b = lowerE ∨ b = upperE)

theorem stops_nil : Stops [] := by constructor <;> intro b hb <;> cases hb

theorem stops_cons {b : UInt8} {r : Bytes} (h : isDigit b = false) (hp : b ≠ point)
    (he : ¬ (b = lowerE ∨ b = upperE)) : Stops (b :: r) := by
  constructor <;> intro c hc <;> cases hc
  · exact h
  · exact hp
  · exact he

/-! ## Digits -/

section
variable {atEnd : Reason} {s r : Bytes}

theorem readDigits_sound {ds : Bytes} (h : readDigits atEnd s = .ok (ds, r)) : Digits ds ∧ s = ds ++ r := by
  unfold readDigits at h
  split at h
  · cases h
  · next b t =>
    split at h
    · next hb =>
      cases h
      refine ⟨⟨List.cons_ne_nil _ _, ?_⟩, ?_⟩
      · exact List.forall_mem_cons.2 ⟨hb, fun c hc => List.mem_takeWhile_imp hc⟩
      · rw [List.cons_append, List.takeWhile_append_dropWhile]
    · cases h

theorem readDigits_complete {ds : Bytes} (h : Digits ds) (hr : NoDigit r) :
    readDigits atEnd (ds ++ r) = .ok (ds, r) := by
  obtain ⟨hne, hall⟩ := h
  have htake : r.takeWhile isDigit = [] := by
    cases r with
    | nil => rfl
    | cons b t => rw [List.takeWhile_cons_of_neg]; simp [hr b rfl]
  have hdrop : r.dropWhile isDigit = r := by
    cases r with
    | nil => rfl
    | cons b t => rw [List.dropWhile_cons_of_neg]; simp [hr b rfl]
  cases ds with
  | nil => exact absurd rfl hne
  | cons b t =>
    rw [List.forall_mem_cons] at hall
    rw [List.cons_append, readDigits, if_pos hall.1, List.takeWhile_append_of_pos hall.2,
      List.dropWhile_append_of_pos hall.2, htake, hdrop, List.append_nil]

theorem readWhole_sound {ds : Bytes} (h : readWhole atEnd s = .ok (ds, r)) : Whole ds ∧ s = ds ++ r := by
  unfold readWhole at h
  split at h
  · cases h
  · next b t =>
    split at h
    · next hb =>
      subst hb
      split at h
      · cases h; exact ⟨.zero, rfl⟩
      · split at h
        · cases h
        · cases h; exact ⟨.zero, rfl⟩
    · next hb =>
      obtain ⟨hd, hs⟩ := readDigits_sound h
      refine ⟨.digits hd ?_, hs⟩
      -- the digits are the beginning of what is read, which does not start with a zero
      obtain ⟨c, u, rfl⟩ := List.exists_cons_of_ne_nil hd.1
      rw [List.head?_cons, ne_eq, Option.some.injEq, ← (List.cons.inj hs).1]
      exact hb

theorem readWhole_complete {ds : Bytes} (h : Whole ds) (hr : NoDigit r) :
    readWhole atEnd (ds ++ r) = .ok (ds, r) := by
  cases h with
  | zero =>
    cases r with
    | nil => rfl
    | cons b t =>
      have hb : isDigit b = false := hr b rfl
      simp only [List.cons_append, List.nil_append, readWhole, if_true, hb, Bool.false_eq_true, if_false]
  | digits hd first =>
    obtain ⟨b, t, rfl⟩ := List.exists_cons_of_ne_nil hd.1
    have hb : b ≠ zero := fun hb => first (by rw [hb]; rfl)
    have hread : readWhole atEnd (b :: (t ++ r)) = readDigits atEnd (b :: (t ++ r)) := by
      unfold readWhole
      exact if_neg hb
    rw [List.cons_append, hread]
    exact readDigits_complete hd hr

theorem readFraction_sound {ds : Bytes} (h : readFraction atEnd s = .ok (ds, r)) :
    ∃ x, Fraction x ds ∧ s = x ++ r := by
  unfold readFraction at h
  split at h
  · cases h; exact ⟨[], .absent, rfl⟩
  · split at h
    · next hb =>
      obtain ⟨hd, rfl⟩ := readDigits_sound h
      exact ⟨_, .present hd, by rw [hb]; rfl⟩
    · cases h; exact ⟨[], .absent, rfl⟩

theorem readFraction_complete {x ds : Bytes} (h : Fraction x ds) (hr : NoDigit r)
    (hp : ∀ b ∈ r.head?, b ≠ point) : readFraction atEnd (x ++ r) = .ok (ds, r) := by
  cases h with
  | absent =>
    cases r with
    | nil => rfl
    | cons b t => rw [List.nil_append, readFraction, if_neg (hp b rfl)]
  | present hd =>
    rw [List.cons_append, readFraction, if_pos rfl]
    exact readDigits_complete hd hr

/-- The sign of an exponent is read as the grammar has it, in front of something that is none. -/
theorem readSign_sound (s : Bytes) : ∃ x, Sign x (readSign s).1 ∧ s = x ++ (readSign s).2 := by
  unfold readSign
  split
  · exact ⟨[], .none, rfl⟩
  · split
    · next hb => exact ⟨[minus], .minus, by rw [hb]; rfl⟩
    · split
      · next hb => exact ⟨[plus], .plus, by rw [hb]; rfl⟩
      · exact ⟨[], .none, rfl⟩

theorem readSign_complete {x ds : Bytes} {negative : Bool} (h : Sign x negative) (hd : Digits ds)
    (r : Bytes) : readSign (x ++ (ds ++ r)) = (negative, ds ++ r) := by
  cases h with
  | none =>
    obtain ⟨b, t, rfl⟩ := List.exists_cons_of_ne_nil hd.1
    have hb : isDigit b = true := hd.2 b List.mem_cons_self
    have hm : b ≠ minus := by rintro rfl; exact absurd hb (by decide)
    have hp : b ≠ plus := by rintro rfl; exact absurd hb (by decide)
    rw [List.nil_append, List.cons_append, readSign, if_neg hm, if_neg hp]
  | plus => rfl
  | minus => rfl

theorem readExponent_sound {x : Option Exponent} (h : readExponent atEnd s = .ok (x, r)) :
    ∃ t, ExponentPart t x ∧ s = t ++ r := by
  unfold readExponent at h
  split at h
  · cases h; exact ⟨[], .absent, rfl⟩
  · next b u =>
    split at h
    · next hb =>
      rw [Bool.or_eq_true, decide_eq_true_eq, decide_eq_true_eq] at hb
      split at h
      · cases h
      · next ds v hd =>
        cases h
        obtain ⟨sign, hs, hu⟩ := readSign_sound u
        obtain ⟨hds, hv⟩ := readDigits_sound hd
        refine ⟨_, .present hb hs hds, ?_⟩
        rw [List.cons_append, List.append_assoc, ← hv, ← hu]
    · cases h; exact ⟨[], .absent, rfl⟩

theorem readExponent_complete {t : Bytes} {x : Option Exponent} (h : ExponentPart t x) (hr : NoDigit r)
    (he : ∀ b ∈ r.head?, ¬ (b = lowerE ∨ b = upperE)) : readExponent atEnd (t ++ r) = .ok (x, r) := by
  cases h with
  | absent =>
    cases r with
    | nil => rfl
    | cons b u =>
      have hb := he b rfl
      rw [List.nil_append, readExponent, if_neg (by simpa using hb)]
  | present letter hs hd =>
    rw [List.cons_append, List.append_assoc, readExponent, if_pos (by simpa using letter)]
    simp only [readSign_complete hs hd, readDigits_complete hd hr]

/-! ## Literals -/

theorem readMinus_sound (s : Bytes) :
    s = (if (readMinus s).1 then [minus] else []) ++ (readMinus s).2 := by
  unfold readMinus
  split
  · rfl
  · split
    · next hb => rw [hb]; rfl
    · rfl

theorem readMinus_complete {negative : Bool} {ds : Bytes} (h : Whole ds) (r : Bytes) :
    readMinus ((if negative then [minus] else []) ++ (ds ++ r)) = (negative, ds ++ r) := by
  cases negative with
  | true => rfl
  | false =>
    obtain ⟨b, t, rfl, hb⟩ : ∃ b t, ds = b :: t ∧ b ≠ minus := by
      cases h with
      | zero => exact ⟨zero, [], rfl, by decide⟩
      | digits hd first =>
        obtain ⟨b, t, rfl⟩ := List.exists_cons_of_ne_nil hd.1
        refine ⟨b, t, rfl, ?_⟩
        rintro rfl
        exact absurd (hd.2 _ List.mem_cons_self) (by decide)
    rw [if_neg (by decide), List.nil_append, List.cons_append, readMinus, if_neg hb]

theorem readNumeral_sound {n : Numeral} (h : readNumeral atEnd s = .ok (n, r)) :
    ∃ x, Literal x n ∧ s = x ++ r := by
  simp only [readNumeral, bind, Except.bind] at h
  split at h
  · cases h
  · next hw =>
    split at h
    · cases h
    · next hf =>
      split at h
      · cases h
      · next he =>
        cases h
        obtain ⟨hwhole, hs⟩ := readWhole_sound hw
        obtain ⟨x, hx, ht⟩ := readFraction_sound hf
        obtain ⟨y, hy, hu⟩ := readExponent_sound he
        have hl : Literal _ ⟨(readMinus s).1, _, _, _⟩ := .mk hwhole hx hy
        refine ⟨_, hl, ?_⟩
        rw [List.append_assoc, List.append_assoc, List.append_assoc, ← hu, ← ht, ← hs]
        exact readMinus_sound s

theorem readNumeral_complete {x : Bytes} {n : Numeral} (h : Literal x n) (hr : Stops r) :
    readNumeral atEnd (x ++ r) = .ok (n, r) := by
  cases h with
  | @mk negative whole fractionText fraction exponentText exponent hw hf he =>
    -- neither a fraction nor an exponent starts with a digit, and an exponent not with a point
    have hexp : NoDigit (exponentText ++ r) ∧ ∀ b ∈ (exponentText ++ r).head?, b ≠ point := by
      cases he with
      | absent => exact ⟨hr.digit, hr.point⟩
      | present letter =>
        rcases letter with rfl | rfl <;> refine ⟨?_, ?_⟩ <;> intro b hb <;> cases hb <;> decide
    have hfrac : NoDigit (fractionText ++ (exponentText ++ r)) := by
      cases hf with
      | absent => exact hexp.1
      | present => intro b hb; cases hb; decide
    simp only [List.append_assoc, readNumeral, readMinus_complete hw, readWhole_complete hw hfrac,
      readFraction_complete hf hexp.1 hexp.2, readExponent_complete he hr.digit hr.exponent, bind,
      Except.bind, pure, Except.pure]

end

/-! ## Integers -/

theorem le_foldl_digits (m : Nat) (ds : Bytes) : m ≤ ds.foldl (fun n d => n * 10 + digitValue d) m := by
  induction ds generalizing m with
  | nil => exact Nat.le_refl m
  | cons d r ih =>
    have := ih (m * 10 + digitValue d)
    rw [List.foldl_cons]
    omega

theorem absorb_lt {m : Nat} (h : m < twoPow 64) (ds : Bytes) : (absorb m ds).1 < twoPow 64 := by
  fun_induction absorb m ds with
  | case1 => exact h
  | case2 m d r hd ih => exact ih hd
  | case3 => exact h

/-- All digits are taken exactly when the number that they make is below 2^64. -/
theorem absorb_all_iff {m k : Nat} (h : m < twoPow 64) (ds : Bytes) :
    absorb m ds = (k, 0) ↔ ds.foldl (fun n d => n * 10 + digitValue d) m = k ∧ k < twoPow 64 := by
  fun_induction absorb m ds with
  | case1 m =>
    simp only [Prod.mk.injEq, and_true, List.foldl_nil]
    exact ⟨fun he => ⟨he, he ▸ h⟩, And.left⟩
  | case2 m d r hd ih => exact ih hd
  | case3 m d r hd =>
    have hle := le_foldl_digits (m * 10 + digitValue d) r
    simp only [Prod.mk.injEq, Nat.add_one_ne_zero, and_false, List.foldl_cons, false_iff, not_and]
    omega

theorem integer?_eq_some {n : Numeral} {k : Int} :
    n.integer? = some k ↔ IsInteger n ∧ k = signedWhole n := by
  have h64 : twoPow 64 = 18446744073709551616 := by decide
  have h63 : twoPow 63 = 9223372036854775808 := by decide
  -- all digits are absorbed just where the number has 64 bits
  have hall (m : Nat) : absorb 0 n.whole = (m, 0) ↔ decimal n.whole = m ∧ m < twoPow 64 :=
    absorb_all_iff (by decide) n.whole
  constructor
  · intro h
    unfold Numeral.integer? at h
    split at h
    · next hform =>
      rw [Bool.and_eq_true, List.isEmpty_iff, Option.isNone_iff_eq_none] at hform
      split at h
      · next m hm =>
        obtain ⟨hd, hlt⟩ := (hall m).1 hm
        split at h
        · next hneg =>
          have hn : n.negative = false := by simpa using hneg
          have hs : signedWhole n = m := by rw [signedWhole, hn, hd]; rfl
          rw [Option.some.injEq] at h
          refine ⟨⟨hform.1, hform.2, by omega, by omega, ?_⟩, by omega⟩
          intro hneg
          rw [hn] at hneg
          cases hneg
        · next hneg =>
          -- below zero the magnitude is at most 2^63, and it is not zero, since minus zero is no integer
          have hn : n.negative = true := by simpa using hneg
          have hs : signedWhole n = -(m : Int) := by rw [signedWhole, hn, hd]; rfl
          split at h
          · next hb =>
            rw [Bool.and_eq_true, decide_eq_true_eq, decide_eq_true_eq] at hb
            rw [Option.some.injEq] at h
            exact ⟨⟨hform.1, hform.2, by omega, by omega, by omega⟩, by omega⟩
          · cases h
      · cases h
    · cases h
  · rintro ⟨⟨hf, he, low, high, hz⟩, rfl⟩
    unfold Numeral.integer?
    cases hn : n.negative with
    | false =>
      have hs : signedWhole n = decimal n.whole := by rw [signedWhole, hn]; rfl
      rw [hf, he, hs, (hall _).2 ⟨rfl, by omega⟩]
      rfl
    | true =>
      have hs : signedWhole n = -(decimal n.whole : Int) := by rw [signedWhole, hn]; rfl
      have hpos := hz hn
      have hb : (0 < decimal n.whole && decimal n.whole ≤ twoPow 63) = true := by
        rw [Bool.and_eq_true, decide_eq_true_eq, decide_eq_true_eq]; omega
      rw [hf, he, hs, (hall _).2 ⟨rfl, by omega⟩]
      exact if_pos hb

/-! ## Conversion -/

theorem scaleDown_isFinite {x : Binary64} (h : x.isFinite = true) (k : Nat) :
    (scaleDown x k).isFinite = true := by
  fun_induction scaleDown x k with
  | case1 x k hk => exact Binary64.isFinite_div h (Binary64.tenPow_spec hk).1 (Binary64.tenPow_spec hk).2
  | case2 => exact h
  | case3 x k _ _ ih =>
    have hp := Binary64.tenPow_spec (Nat.le_refl 308)
    exact ih (Binary64.isFinite_div h hp.1 hp.2)

theorem scale?_isFinite {m : Nat} {e : Int} {x : Binary64} (hm : m < twoPow 64)
    (h : scale? m e = some x) : x.isFinite = true := by
  unfold scale? at h
  have hof := Binary64.isFinite_ofNat hm
  split at h
  · rw [← Option.some.inj h]
    exact scaleDown_isFinite hof _
  · split at h
    · rw [← Option.some.inj h]
      exact Binary64.isFinite_zero false
    · split at h
      · cases h
      · next hneg _ hle =>
        dsimp only at h
        split at h
        · cases h
        · next hinf =>
          obtain ⟨k, rfl⟩ := Int.eq_ofNat_of_zero_le (not_lt.1 hneg)
          rw [← Option.some.inj h]
          exact Binary64.isFinite_mul hof (Binary64.tenPow_spec (by omega)).1 (by simpa using hinf)

/-- Digits are converted to finite data only. -/
theorem toBinary64?_isFinite {n : Numeral} {x : Binary64} (h : toBinary64? n = some x) :
    x.isFinite = true := by
  have hm : n.significand.1 < twoPow 64 := absorb_lt (absorb_lt (by decide) _) _
  obtain ⟨y, hy, rfl⟩ := Option.map_eq_some_iff.1 h
  have hfin : y.isFinite = true := by
    split at hy
    · exact scale?_isFinite hm hy
    · split at hy
      · exact scale?_isFinite hm hy
      · split at hy
        · rw [← Option.some.inj hy]
          exact Binary64.isFinite_zero false
        · cases hy
  split
  · exact Binary64.isFinite_neg hfin
  · exact hfin

theorem converted_iff {f : Binary64 → Binary64} {v : Number} (after : Nat) (o : Option Binary64) :
    (match o with | some x => .ok (.real (f x)) | none => .error after : Except Nat Number) = .ok v ↔
      ∃ x, o.map f = some x ∧ v = .real x := by
  cases o with
  | none => exact ⟨nofun, nofun⟩
  | some y =>
    rw [Except.ok.injEq]
    exact ⟨fun h => ⟨_, rfl, h.symm⟩, fun ⟨_, hx, hv⟩ => by rw [hv, ← Option.some.inj hx]⟩

/-- A literal that is no integer has the value that its digits are converted to. -/
theorem value_of_not_integer {n : Numeral} {v : Number} (h : n.integer? = none) :
    n.value = .ok v ↔ ∃ x, toBinary64? n = some x ∧ v = .real x := by
  unfold Numeral.value toBinary64? Numeral.signed
  rw [h]
  generalize n.significand = sig
  obtain ⟨m, e⟩ := sig
  cases n.exponent with
  | none => dsimp only; exact converted_iff 0 (scale? m e)
  | some p =>
    cases hp : exponentMagnitude 0 p.digits with
    | ok k =>
      simp only [hp]
      exact converted_iff 0 (scale? m (if p.negative then e - k else e + k))
    | error after =>
      simp only [hp]
      split
      · exact converted_iff 0 (some (Binary64.zero false))
      · exact converted_iff after none

theorem value_eq_ok {n : Numeral} {v : Number} : n.value = .ok v ↔ NumberDenotes n v := by
  cases hi : n.integer? with
  | some k =>
    obtain ⟨hint, rfl⟩ := integer?_eq_some.1 hi
    have hv : n.value = .ok (.integer (signedWhole n)) := by unfold Numeral.value; rw [hi]
    rw [hv, Except.ok.injEq]
    constructor
    · rintro rfl
      exact .integer hint
    · intro h
      cases h with
      | integer => rfl
      | real hnot => exact absurd hint hnot
  | none =>
    have hnot : ¬ IsInteger n := fun hint => by
      rw [integer?_eq_some.2 ⟨hint, rfl⟩] at hi
      cases hi
    rw [value_of_not_integer hi]
    constructor
    · rintro ⟨x, hx, rfl⟩
      exact .real hnot hx (toBinary64?_isFinite hx)
    · intro h
      cases h with
      | integer hint => exact absurd hint hnot
      | real _ hx => exact ⟨_, hx, rfl⟩

/-! ## Numbers -/

theorem readNumber_sound {s r : Bytes} {v : Number} (h : readNumber s = .ok (v, r)) :
    ∃ x n, Literal x n ∧ NumberDenotes n v ∧ s = x ++ r := by
  unfold readNumber at h
  split at h
  · cases h
  · next n _ hn =>
    split at h
    · next hv =>
      cases h
      obtain ⟨x, hx, hs⟩ := readNumeral_sound hn
      exact ⟨x, n, hx, value_eq_ok.1 hv, hs⟩
    · cases h

theorem readNumber_complete {x r : Bytes} {n : Numeral} {v : Number} (hx : Literal x n)
    (hv : NumberDenotes n v) (hr : Stops r) : readNumber (x ++ r) = .ok (v, r) := by
  unfold readNumber
  simp only [readNumeral_complete hx hr, value_eq_ok.2 hv]

end ShapeLedger.Json
