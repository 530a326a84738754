/-
Readers that say nothing before they have seen it. A reader is steady on a text when what it says of the text
stays the same however the bytes that it has not come to are changed: a result as long as the byte that follows it
stays, and a fault as long as the bytes in front of its place do.

There are two exceptions. That a string is no UTF-8 is found out at its closing quote, and reported further in
front, so this fault stays as long as the whole literal does. Of numbers out of range nothing is said, since the
digits that follow have a part in where they are reported.

A reader that is made of steady readers is steady (`Steady.onByte`, `Steady.onToken`, `Steady.bind`,
`Steady.map`), so that each reader of the language has a short proof that looks at no other text than its own.
-/
import Mathlib.Data.List.TakeWhile
import ShapeLedger.Json.Reader
import ShapeLedger.Proofs.Json.StringLiteral

namespace ShapeLedger.Json

open Ascii Grammar

/-! ## Definitions -/

/-- A result that comes with the bytes that are left. -/
class HasRest (ρ : Type) where
  rest : ρ → Bytes
  /-- The same with other bytes left. -/
  leaving : ρ → Bytes → ρ
  leaving_rest (y : ρ) : leaving y (rest y) = y
  rest_leaving (y : ρ) (r : Bytes) : rest (leaving y r) = r
  leaving_leaving (y : ρ) (r r' : Bytes) : leaving (leaving y r) r' = leaving y r'

open HasRest

instance : HasRest Bytes := ⟨id, fun _ r => r, fun _ => rfl, fun _ _ => rfl, fun _ _ _ => rfl⟩

instance {α : Type} : HasRest (α × Bytes) :=
  ⟨Prod.snd, fun y r => (y.1, r), fun _ => rfl, fun _ _ => rfl, fun _ _ _ => rfl⟩

/-- The state with other bytes to read. -/
def State.leaving : State → Bytes → State
  | .wanting stack _, r => .wanting stack r
  | .holding stack v _, r => .holding stack v r

instance : HasRest State :=
  ⟨State.rest, State.leaving, fun st => by cases st <;> rfl, fun st _ => by cases st <;> rfl,
    fun st _ _ => by cases st <;> rfl⟩

/-- A text that ends with a string literal that is no UTF-8. The literal is well formed up to some place, and what is
written from there on stands for bytes that no character begins. The place `i` is as many bytes in front of the end
as these are; it is behind the first byte of what is wrong. -/
inductive EndsIllFormed (s : Bytes) (i : Nat) : Prop where
  | mk {before good wrong bad : Bytes} {cs : List Char}
      (literal : s = before ++ quote :: (good ++ (wrong ++ [quote])))
      (hgood : Characters good cs) (hwrong : Unescaped wrong bad)
      (stuck : bad ≠ [] ∧ ∀ c t, bad ≠ Utf8.encodeCodePoint (Char.toNat c) ++ t)
      (place : i + bad.length = s.length) (behind : (before ++ quote :: good).length < i)

/-- In `s` there is such a literal with `m` bytes behind it, and `unread` bytes behind the place. -/
def HoldsIllFormed (s : Bytes) (unread m : Nat) : Prop :=
  ∃ x r i, s = x ++ r ∧ r.length = m ∧ EndsIllFormed x i ∧ i + unread = s.length

section
variable {ρ : Type}

/-- The result stays when bytes at the end of the text are changed, as long as these bytes are left, and one in
front of them. -/
def Kept [HasRest ρ] (f : Bytes → Except Fault ρ) (s : Bytes) (y : ρ) : Prop :=
  ∀ p t q t', s = p ++ t → rest y = q ++ t → q ≠ [] → f (p ++ t') = .ok (leaving y (q ++ t'))

/-- The fault stays where it is when bytes among the last `m` are changed. -/
def Settled (f : Bytes → Except Fault ρ) (s : Bytes) (e : Fault) (m : Nat) : Prop :=
  ∀ p t t', s = p ++ t → t.length ≤ m →
    ∃ k, e.unread = k + t.length ∧ f (p ++ t') = .error ⟨e.reason, k + t'.length⟩

/-- Neither an early end, nor what is found out only at the end of a string. -/
def Reason.isPlain (reason : Reason) : Bool := !reason.isEarlyEnd && reason ≠ .invalidCodePoint

/-- The place of a fault that a reader finds in `s`, where it has looked at the bytes `c` in front of `s`. -/
inductive Placed (c : Bytes) (f : Bytes → Except Fault ρ) (s : Bytes) : Fault → Prop where
  | early {reason : Reason} (h : reason.isEarlyEnd = true) : Placed c f s ⟨reason, 0⟩
  | range {unread : Nat} : Placed c f s ⟨.numberOutOfRange, unread⟩
  | plain {e : Fault} (h : e.reason.isPlain = true) (inside : e.unread < (c ++ s).length)
      (stays : Settled f s e e.unread) : Placed c f s e
  | illFormed {unread m : Nat} (literal : HoldsIllFormed (c ++ s) unread m)
      (stays : Settled f s ⟨.invalidCodePoint, unread⟩ m) : Placed c f s ⟨.invalidCodePoint, unread⟩

/-- What a reader says of `s`, having looked at `c` in front of it, depends on no byte that it has not come to. -/
structure Steady [HasRest ρ] (c : Bytes) (f : Bytes → Except Fault ρ) (s : Bytes) : Prop where
  result : ∀ y, f s = .ok y → rest y <:+ c ++ s ∧ Kept f s y
  fault : ∀ e, f s = .error e → Placed c f s e

/-- Looks at one byte. -/
def onByte (atEnd : Except Fault ρ) (f : UInt8 → Bytes → Except Fault ρ) : Bytes → Except Fault ρ
  | [] => atEnd
  | b :: r => f b r

/-- Looks at the first byte that is no blank. -/
def onToken (atEnd : Except Fault ρ) (f : UInt8 → Bytes → Except Fault ρ) (s : Bytes) : Except Fault ρ :=
  onByte atEnd f (skipSpace s)

/-- What a reader may say where the text ends. -/
inductive AtEnd [HasRest ρ] : Except Fault ρ → Prop where
  | fault {reason : Reason} (h : reason.isEarlyEnd = true) : AtEnd (.error ⟨reason, 0⟩)
  | result {y : ρ} (h : rest y = []) : AtEnd (.ok y)

end

/-! ## Ends of a text -/

section
variable {s x y q t : Bytes}

theorem length_lt_of_append (h : x = q ++ t) (hq : q ≠ []) : t.length < x.length := by
  have hpos := List.length_pos_iff.2 hq
  rw [h, List.length_append]
  omega

/-- Of two ends of one text the longer ends with the shorter. -/
theorem exists_append_of_suffix (hx : x <:+ s) (hy : y <:+ s) (h : x.length < y.length) :
    ∃ q, q ≠ [] ∧ y = q ++ x := by
  obtain ⟨q, rfl⟩ := List.suffix_of_suffix_length_le hx hy (Nat.le_of_lt h)
  refine ⟨q, ?_, rfl⟩
  rintro rfl
  exact absurd h (Nat.lt_irrefl _)

/-- Where bytes behind the first byte that is not dropped are changed, the same bytes are dropped. -/
theorem dropWhile_changed {P : UInt8 → Bool} {p : Bytes} (h : (p ++ t).dropWhile P = q ++ t) (hq : q ≠ [])
    (t' : Bytes) :
    (p ++ t').dropWhile P = q ++ t' ∧ (p ++ t').takeWhile P = (p ++ t).takeWhile P := by
  obtain ⟨b, q, rfl⟩ := List.exists_cons_of_ne_nil hq
  have hb : P b = false := by
    have hhead := List.head?_dropWhile_not P (p ++ t)
    rw [h] at hhead
    exact hhead
  have hp : p = (p ++ t).takeWhile P ++ b :: q := by
    have hsplit := List.takeWhile_append_dropWhile (p := P) (l := p ++ t)
    rw [h, ← List.append_assoc] at hsplit
    exact (List.append_cancel_right hsplit).symm
  have hall : ∀ a ∈ (p ++ t).takeWhile P, P a = true := fun a ha => List.mem_takeWhile_imp ha
  generalize (p ++ t).takeWhile P = w at hp hall
  subst hp
  rw [List.append_assoc, List.dropWhile_append_of_pos hall, List.takeWhile_append_of_pos hall]
  simp [List.dropWhile_cons_of_neg, List.takeWhile_cons_of_neg, hb]

end

/-! ## Faults -/

section
variable {ρ σ : Type} {c c' s s' : Bytes} {e : Fault} {unread m : Nat} {f : Bytes → Except Fault ρ}
  {g : Bytes → Except Fault σ}

theorem EndsIllFormed.append {i : Nat} (h : EndsIllFormed s i) (x : Bytes) :
    EndsIllFormed (x ++ s) (x.length + i) := by
  obtain ⟨rfl, hgood, hwrong, stuck, place, behind⟩ := h
  refine .mk (List.append_assoc x _ _).symm hgood hwrong stuck ?_ ?_
  · rw [List.length_append, ← place]
    omega
  · rw [List.append_assoc, List.length_append]
    omega

theorem HoldsIllFormed.lt (h : HoldsIllFormed s unread m) : m < s.length := by
  obtain ⟨x, r, i, rfl, rfl, ⟨rfl, -, -, -, -, -⟩, -⟩ := h
  simp only [List.length_append, List.length_cons]
  omega

theorem HoldsIllFormed.mono (h : HoldsIllFormed s unread m) (hs : s <:+ s') : HoldsIllFormed s' unread m := by
  obtain ⟨z, rfl⟩ := hs
  obtain ⟨x, r, i, rfl, hr, hx, hi⟩ := h
  refine ⟨z ++ x, r, z.length + i, (List.append_assoc z x r).symm, hr, hx.append z, ?_⟩
  rw [List.length_append, ← hi]
  omega

/-- A fault found in `x` alone stays as long as `x` does. -/
theorem Settled.of_forall {x : Bytes} {reason : Reason} {n : Nat}
    (h : ∀ r, f (x ++ r) = .error ⟨reason, r.length + n⟩) (r : Bytes) :
    Settled f (x ++ r) ⟨reason, r.length + n⟩ r.length := by
  intro p t t' hp ht
  have hsuffix : t <:+ r :=
    List.suffix_of_suffix_length_le (hp ▸ List.suffix_append p t) (List.suffix_append x r) ht
  obtain ⟨q, rfl⟩ := hsuffix
  rw [← List.append_assoc] at hp
  obtain rfl := List.append_cancel_right hp
  refine ⟨q.length + n, ?_, ?_⟩
  · simp only [List.length_append]
    omega
  · rw [List.append_assoc, h, List.length_append, Nat.add_right_comm]

/-- A fault of a part is one of the whole, if it stays in the whole where it does in the part. -/
theorem Placed.lift (h : Placed c' f s' e) (hs : c' ++ s' <:+ c ++ s)
    (hstays : ∀ m, m < (c' ++ s').length → Settled f s' e m → Settled g s e m) : Placed c g s e := by
  cases h with
  | early h => exact .early h
  | range => exact .range
  | plain h inside stays => exact .plain h (Nat.lt_of_lt_of_le inside hs.length_le) (hstays _ inside stays)
  | illFormed literal stays => exact .illFormed (literal.mono hs) (hstays _ literal.lt stays)

end

/-! ## Readers made of steady ones -/

section
variable {ρ σ : Type} [HasRest ρ] [HasRest σ] {c s : Bytes} {f : Bytes → Except Fault ρ}

theorem Steady.mono (h : Steady [] f s) : Steady c f s := by
  have hs : [] ++ s <:+ c ++ s := List.suffix_append c s
  constructor
  · intro y hy
    obtain ⟨hrest, hkept⟩ := h.result y hy
    exact ⟨hrest.trans hs, hkept⟩
  · intro e he
    exact (h.fault e he).lift hs fun m _ hstays => hstays

theorem Steady.onByte {atEnd : Except Fault ρ} {f : UInt8 → Bytes → Except Fault ρ} (hend : AtEnd atEnd)
    (h : ∀ b r, s = b :: r → Steady [b] (f b) r) : Steady c (onByte atEnd f) s := by
  cases s with
  | nil =>
    constructor
    · intro y hy
      cases hend with
      | fault => cases hy
      | result hrest =>
        cases hy
        refine ⟨by rw [hrest]; exact List.nil_suffix, ?_⟩
        intro p t q t' _ hq hne
        rw [hrest] at hq
        exact absurd (List.append_eq_nil_iff.1 hq.symm).1 hne
    · intro e he
      cases hend with
      | fault hearly => cases he; exact .early hearly
      | result => cases he
  | cons b r =>
    have hr := h b r rfl
    have hs : [b] ++ r <:+ c ++ b :: r := List.suffix_append c (b :: r)
    -- in both cases the byte that was looked at is none of those that change
    constructor
    · intro y hy
      obtain ⟨hrest, hkept⟩ := hr.result y hy
      refine ⟨hrest.trans hs, ?_⟩
      intro p t q t' hp hq hne
      cases p with
      | nil =>
        have hlt := length_lt_of_append hq hne
        have hle := hrest.length_le
        rw [List.nil_append] at hp
        rw [← hp] at hlt
        exact absurd hlt (Nat.not_lt.2 hle)
      | cons a p =>
        cases hp
        exact hkept p t q t' rfl hq hne
    · intro e he
      refine (hr.fault e he).lift hs ?_
      intro m hm hstays p t t' hp ht
      cases p with
      | nil =>
        rw [List.nil_append] at hp
        rw [← hp] at ht
        exact absurd hm (Nat.not_lt.2 ht)
      | cons a p =>
        cases hp
        exact hstays p t t' rfl ht

/-- Blanks in front make no difference. -/
theorem Steady.skip (h : Steady [] f (skipSpace s)) : Steady c (fun s => f (skipSpace s)) s := by
  refine Steady.mono ?_
  have hs : skipSpace s <:+ s := List.dropWhile_suffix isSpace
  constructor
  · intro y hy
    obtain ⟨hrest, hkept⟩ := h.result y hy
    refine ⟨hrest.trans hs, ?_⟩
    rintro p t q t' rfl hq hne
    have hlt : t.length < (skipSpace (p ++ t)).length :=
      Nat.lt_of_lt_of_le (length_lt_of_append hq hne) hrest.length_le
    obtain ⟨x, hx, hskip⟩ := exists_append_of_suffix (List.suffix_append p t) hs hlt
    have hchanged : skipSpace (p ++ t') = x ++ t' := (dropWhile_changed hskip hx t').1
    show f (skipSpace (p ++ t')) = _
    rw [hchanged]
    exact hkept x t q t' hskip hq hne
  · intro e he
    refine (h.fault e he).lift hs ?_
    rintro m hm hstays p t t' rfl ht
    obtain ⟨x, hx, hskip⟩ := exists_append_of_suffix (List.suffix_append p t) hs (Nat.lt_of_le_of_lt ht hm)
    have hchanged : skipSpace (p ++ t') = x ++ t' := (dropWhile_changed hskip hx t').1
    show ∃ k, _ ∧ f (skipSpace (p ++ t')) = _
    rw [hchanged]
    exact hstays x t t' hskip ht

theorem Steady.onToken {atEnd : Except Fault ρ} {f : UInt8 → Bytes → Except Fault ρ} (hend : AtEnd atEnd)
    (h : ∀ b r, skipSpace s = b :: r → Steady [b] (f b) r) : Steady c (onToken atEnd f) s :=
  Steady.skip (.onByte hend h)

/-- Bytes at the end that the second of two readers comes to are left by the first, with one in front of them. -/
theorem exists_left {y : ρ} {p t : Bytes} (hrest : rest y <:+ c ++ (p ++ t)) (h : t.length < (rest y).length) :
    ∃ q, q ≠ [] ∧ rest y = q ++ t :=
  exists_append_of_suffix ((List.suffix_append p t).trans (List.suffix_append c _)) hrest h

theorem Steady.bind {g : ρ → Except Fault σ} (hf : Steady c f s)
    (hg : ∀ y, f s = .ok y → Steady [] (fun r => g (leaving y r)) (rest y)) :
    Steady c (fun s => f s >>= g) s := by
  constructor
  · intro z hz
    obtain ⟨y, hy, hgy⟩ := bind_eq_ok hz
    obtain ⟨hrest, hkept⟩ := hf.result y hy
    obtain ⟨hrest', hkept'⟩ := (hg y hy).result z (by rw [leaving_rest]; exact hgy)
    refine ⟨hrest'.trans hrest, ?_⟩
    rintro p t q' t' rfl hq' hne
    -- the second reader stops in front of where the first one did, so the change is behind both
    have hlt : t.length < (rest y).length :=
      Nat.lt_of_lt_of_le (length_lt_of_append hq' hne) hrest'.length_le
    obtain ⟨q, hq, hyq⟩ := exists_left hrest hlt
    show f (p ++ t') >>= g = _
    rw [hkept p t q t' rfl hyq hq]
    exact hkept' q t q' t' hyq hq' hne
  · intro e he
    replace he : f s >>= g = .error e := he
    -- the fault is the first reader's, or the second one's at what the first has left
    cases hy : f s with
    | error e' =>
      rw [hy] at he
      cases he
      refine (hf.fault e hy).lift (List.suffix_refl _) ?_
      intro m _ hstays p t t' hp ht
      obtain ⟨k, hk, hfp⟩ := hstays p t t' hp ht
      refine ⟨k, hk, ?_⟩
      show f (p ++ t') >>= g = _
      rw [hfp]
      rfl
    | ok y =>
      obtain ⟨hrest, hkept⟩ := hf.result y hy
      have hge : g (leaving y (rest y)) = .error e := by
        rw [leaving_rest]
        rw [hy] at he
        exact he
      refine ((hg y hy).fault e hge).lift hrest ?_
      rintro m hm hstays p t t' rfl ht
      -- up to the place of the fault both readers see the same
      obtain ⟨q, hq, hyq⟩ := exists_left hrest (Nat.lt_of_le_of_lt ht hm)
      obtain ⟨k, hk, hgq⟩ := hstays q t t' hyq ht
      refine ⟨k, hk, ?_⟩
      show f (p ++ t') >>= g = _
      rw [hkept p t q t' rfl hyq hq]
      exact hgq

/-- A result with what is left behind the bytes `pre`, which were looked at. -/
theorem Steady.ok {mk : Bytes → ρ} {pre : Bytes} (hpre : pre <:+ c)
    (h : ∀ r r', rest (mk r) = pre ++ r ∧ leaving (mk r) (pre ++ r') = mk r') :
    Steady c (fun r => .ok (mk r)) s := by
  constructor
  · rintro y ⟨⟩
    obtain ⟨x, rfl⟩ := hpre
    refine ⟨⟨x, by rw [(h s []).1, List.append_assoc]⟩, ?_⟩
    rintro p t q t' rfl hq -
    rw [(h _ []).1, ← List.append_assoc] at hq
    rw [← List.append_cancel_right hq, List.append_assoc, (h _ _).2]
  · rintro e ⟨⟩

/-- The byte that was looked at is part of the result. -/
theorem Steady.taken {mk : Bytes → ρ} (h : ∀ r r', rest (mk r) = r ∧ leaving (mk r) r' = mk r') :
    Steady c (fun r => .ok (mk r)) s := .ok List.nil_suffix h

/-- The byte that was looked at is left. -/
theorem Steady.seen {b : UInt8} {mk : Bytes → ρ}
    (h : ∀ r r', rest (mk r) = b :: r ∧ leaving (mk r) (b :: r') = mk r') : Steady [b] (fun r => .ok (mk r)) s :=
  .ok (List.suffix_refl [b]) h

/-- The byte that was looked at is the fault. -/
theorem Steady.error {b : UInt8} {reason : Reason} (h : reason.isPlain = true) :
    Steady [b] (fun r => (.error ⟨reason, r.length⟩ : Except Fault ρ)) s := by
  constructor
  · rintro y ⟨⟩
  · rintro e ⟨⟩
    refine .plain h (Nat.lt_succ_self _) ?_
    rintro p t t' rfl -
    refine ⟨p.length, List.length_append, ?_⟩
    simp only [List.length_append]

theorem Steady.ite {P : Prop} [Decidable P] {f g : Bytes → Except Fault ρ} (hf : P → Steady c f s)
    (hg : ¬ P → Steady c g s) : Steady c (fun s => if P then f s else g s) s := by
  by_cases hP : P
  · simpa only [if_pos hP] using hf hP
  · simpa only [if_neg hP] using hg hP

/-- The same result in another form. -/
theorem Steady.map {g : ρ → σ} (hf : Steady c f s)
    (h : ∀ y r, rest (g y) = rest y ∧ leaving (g y) r = g (leaving y r)) : Steady c (fun s => (f s).map g) s := by
  have hbind : (fun s => (f s).map g) = fun s => f s >>= fun y => .ok (g y) := by
    funext s
    cases f s <;> rfl
  rw [hbind]
  refine hf.bind fun y _ => .taken ?_
  intro r r'
  constructor
  · rw [(h _ r).1, rest_leaving]
  · rw [(h _ r').2, leaving_leaving]

end

end ShapeLedger.Json
