/-
The readers of the language are steady, and so is the reading of a whole document.

Each reader is written once more as one that looks at a byte or at a token and goes on from there, which is the
form in which steadiness is put together. Only two proofs look at other texts than their own: a run of digits ends
at the first byte that is none, and a string that is no UTF-8 is the same fault whatever follows its closing quote.
-/
import ShapeLedger.Proofs.Json.RoundTrip
import ShapeLedger.Proofs.Json.Steady

namespace ShapeLedger.Json

open Ascii Grammar HasRest

/-! ## Punctuation and words -/

section
variable {c s : Bytes}

theorem readWord_steady (w : Bytes) : Steady c (readWord w) s := by
  induction w generalizing c s with
  | nil => exact .taken fun _ _ => ⟨rfl, rfl⟩
  | cons a w ih =>
    have heq : readWord (a :: w) = onByte (.error ⟨.valueEnds, 0⟩)
        (fun b r => if b = a then readWord w r else .error ⟨.expectedIdent, r.length⟩) := by
      funext s
      cases s <;> rfl
    rw [heq]
    exact .onByte (.fault rfl) fun b r _ => .ite (fun _ => ih) fun _ => .error rfl

theorem readColon_steady : Steady c readColon s := by
  have heq : readColon = onToken (.error ⟨.objectEnds, 0⟩)
      (fun b r => if b = colon then .ok r else .error ⟨.expectedColon, r.length⟩) := by
    funext s
    unfold readColon onToken
    cases skipSpace s <;> rfl
  rw [heq]
  refine .onToken (.fault rfl) fun b r _ => .ite (fun _ => ?_) fun _ => .error rfl
  exact .taken fun _ _ => ⟨rfl, rfl⟩

/-! ## Numbers -/

/-- A run of digits ends where it does whatever follows the byte that ends it. -/
theorem digits_steady (b : UInt8) : Steady [b] (fun r => readDigits .valueEnds (b :: r)) s := by
  refine .ite (fun hb => ?_) fun _ => .error rfl
  constructor
  · rintro y ⟨⟩
    refine ⟨(List.dropWhile_suffix isDigit).trans (List.suffix_append [b] s), ?_⟩
    rintro p t q t' rfl hq hne
    obtain ⟨hdrop, htake⟩ := dropWhile_changed hq hne t'
    simp only [hdrop, htake]
    rfl
  · rintro e ⟨⟩

theorem readDigits_steady : Steady c (readDigits .valueEnds) s := by
  have heq : readDigits .valueEnds = onByte (.error ⟨.valueEnds, 0⟩) fun b r => readDigits .valueEnds (b :: r) := by
    funext s
    cases s <;> rfl
  rw [heq]
  exact .onByte (.fault rfl) fun b r _ => digits_steady b

theorem whole_steady (b : UInt8) : Steady [b] (fun r => readWhole .valueEnds (b :: r)) s := by
  have heq : (fun r => readWhole .valueEnds (b :: r)) = fun r => if b = zero then
      onByte (.ok ([b], [])) (fun c t =>
        if isDigit c then .error ⟨.invalidNumber, t.length⟩ else .ok ([b], c :: t)) r
      else readDigits .valueEnds (b :: r) := by
    funext r
    cases r <;> rfl
  rw [heq]
  refine .ite (fun _ => .onByte (.result rfl) fun c t _ => ?_) fun _ => digits_steady b
  exact .ite (fun _ => .error rfl) fun _ => .seen fun _ _ => ⟨rfl, rfl⟩

theorem readFraction_steady : Steady c (readFraction .valueEnds) s := by
  have heq : readFraction .valueEnds = onByte (.ok ([], []))
      fun b r => if b = point then readDigits .valueEnds r else .ok ([], b :: r) := by
    funext s
    cases s <;> rfl
  rw [heq]
  exact .onByte (.result rfl) fun b r _ => .ite (fun _ => readDigits_steady) fun _ => .seen fun _ _ => ⟨rfl, rfl⟩

/-- Behind a sign, or where a sign may be missing. -/
theorem sign_steady {ρ : Type} [HasRest ρ] {f : Bool → Bytes → Except Fault ρ} (hend : AtEnd (f false []))
    (hsigned : ∀ negative a t, Steady [a] (f negative) t)
    (hplain : ∀ a t, Steady [a] (fun t => f false (a :: t)) t) :
    Steady c (fun s => f (readSign s).1 (readSign s).2) s := by
  have heq : (fun s => f (readSign s).1 (readSign s).2) = onByte (f false []) fun a t =>
      if a = minus then f true t else if a = plus then f false t else f false (a :: t) := by
    funext s
    cases s with
    | nil => rfl
    | cons a t => simp only [readSign, onByte, apply_ite Prod.fst, apply_ite Prod.snd]; split_ifs <;> rfl
  rw [heq]
  refine .onByte hend fun a t _ => .ite (fun _ => ?_) fun _ => .ite (fun _ => ?_) fun _ => ?_
  · exact hsigned true a t
  · exact hsigned false a t
  · exact hplain a t

theorem readExponent_steady : Steady c (readExponent .valueEnds) s := by
  let power (negative : Bool) (x : Bytes × Bytes) : Option Exponent × Bytes := (some ⟨negative, x.1⟩, x.2)
  have heq : readExponent .valueEnds = onByte (.ok (none, [])) fun b r =>
      if b = lowerE || b = upperE then (readDigits .valueEnds (readSign r).2).map (power (readSign r).1)
      else .ok (none, b :: r) := by
    funext s
    cases s with
    | nil => rfl
    | cons b r =>
      simp only [readExponent, onByte]
      cases readDigits .valueEnds (readSign r).2 <;> rfl
  rw [heq]
  refine .onByte (.result rfl) fun b r _ => .ite (fun _ => ?_) fun _ => .seen fun _ _ => ⟨rfl, rfl⟩
  refine sign_steady (f := fun negative s => (readDigits .valueEnds s).map (power negative)) (.fault rfl) ?_ ?_
  · intro negative a t
    exact readDigits_steady.map fun _ _ => ⟨rfl, rfl⟩
  · intro a t
    exact (digits_steady a).map fun _ _ => ⟨rfl, rfl⟩

/-- The number of a literal that ends in front of `r`. -/
def finishNumber (n : Numeral) (r : Bytes) : Except Fault (Number × Bytes) :=
  match n.value with
  | .ok v => .ok (v, r)
  | .error after => .error ⟨.numberOutOfRange, after + r.length⟩

def readPower (negative : Bool) (whole fraction s : Bytes) : Except Fault (Number × Bytes) :=
  readExponent .valueEnds s >>= fun x => finishNumber ⟨negative, whole, fraction, x.1⟩ x.2

def readBelowPoint (negative : Bool) (whole s : Bytes) : Except Fault (Number × Bytes) :=
  readFraction .valueEnds s >>= fun f => readPower negative whole f.1 f.2

def readUnsigned (negative : Bool) (s : Bytes) : Except Fault (Number × Bytes) :=
  readWhole .valueEnds s >>= fun w => readBelowPoint negative w.1 w.2

/-- A number is read part by part, behind its sign. -/
theorem readNumber_eq (s : Bytes) : readNumber s = readUnsigned (readMinus s).1 (readMinus s).2 := by
  unfold readNumber readNumeral readUnsigned
  cases readWhole .valueEnds (readMinus s).2 with
  | error => rfl
  | ok w =>
    simp only [bind, Except.bind, readBelowPoint]
    cases readFraction .valueEnds w.2 with
    | error => rfl
    | ok f =>
      simp only [readPower, bind, Except.bind]
      cases readExponent .valueEnds f.2 <;> rfl

theorem finishNumber_steady (n : Numeral) : Steady c (finishNumber n) s := by
  unfold finishNumber
  cases n.value with
  | ok v => exact .taken fun _ _ => ⟨rfl, rfl⟩
  | error after =>
    constructor
    · rintro y ⟨⟩
    · rintro e ⟨⟩
      exact .range

theorem readPower_steady (negative : Bool) (whole fraction : Bytes) : Steady c (readPower negative whole fraction) s :=
  readExponent_steady.bind fun x _ => finishNumber_steady ⟨negative, whole, fraction, x.1⟩

theorem readBelowPoint_steady (negative : Bool) (whole : Bytes) : Steady c (readBelowPoint negative whole) s :=
  readFraction_steady.bind fun f _ => readPower_steady negative whole f.1

theorem readWhole_steady : Steady c (readWhole .valueEnds) s := by
  have heq : readWhole .valueEnds = onByte (.error ⟨.valueEnds, 0⟩) fun b r => readWhole .valueEnds (b :: r) := by
    funext s
    cases s <;> rfl
  rw [heq]
  exact .onByte (.fault rfl) fun b r _ => whole_steady b

/-- A number from its sign or first digit on. -/
theorem number_steady (b : UInt8) : Steady [b] (fun r => readNumber (b :: r)) s := by
  have heq : (fun r => readNumber (b :: r)) = fun r =>
      if b = minus then readUnsigned true r else readUnsigned false (b :: r) := by
    funext r
    rw [readNumber_eq, readMinus]
    split_ifs <;> rfl
  rw [heq]
  refine .ite (fun _ => ?_) fun _ => ?_
  · exact readWhole_steady.bind fun w _ => readBelowPoint_steady true w.1
  · exact (whole_steady b).bind fun w _ => readBelowPoint_steady false w.1

/-! ## Strings -/

/-- What is made of four hexadecimal digits. -/
theorem hex_steady {ρ : Type} [HasRest ρ] {f : Nat → Bytes → Except Fault ρ} (h : ∀ n d t, Steady [d] (f n) t) :
    Steady c (fun s => readHex s >>= fun x => f x.1 x.2) s := by
  let atEnd : Except Fault ρ := .error ⟨.stringEnds, 0⟩
  have heq : (fun s => readHex s >>= fun x => f x.1 x.2) = onByte atEnd fun a => onByte atEnd fun b =>
      onByte atEnd fun c => onByte atEnd fun d r =>
        (hexNumber? a b c d).elim (.error ⟨.invalidEscape, r.length⟩) fun n => f n r := by
    funext s
    match s with
    | [] | [_] | [_, _] | [_, _, _] => rfl
    | a :: b :: c :: d :: r =>
      simp only [readHex, onByte]
      cases hexNumber? a b c d <;> rfl
  rw [heq]
  refine .onByte (.fault rfl) fun a _ _ => .onByte (.fault rfl) fun b _ _ => .onByte (.fault rfl) fun c _ _ =>
    .onByte (.fault rfl) fun d t _ => ?_
  cases hexNumber? a b c d with
  | some n => exact h n d t
  | none => exact .error rfl

theorem readTrailing_steady (high : Nat) : Steady c (readTrailing high) s := by
  let pair (low : Nat) (r : Bytes) : Except Fault (Nat × Bytes) :=
    if isTrailingSurrogate low then .ok (surrogatePair high low, r) else .error ⟨.loneSurrogate, r.length⟩
  have heq : readTrailing high = onByte (.error ⟨.stringEnds, 0⟩) fun b r =>
      if b ≠ backslash then .error ⟨.hexEscapeEnds, r.length⟩
      else onByte (.error ⟨.stringEnds, 0⟩) (fun a t =>
        if a ≠ lowerU then .error ⟨.hexEscapeEnds, t.length⟩ else readHex t >>= fun x => pair x.1 x.2) r := by
    funext s
    match s with
    | [] | [_] => rfl
    | b :: a :: t =>
      simp only [readTrailing, onByte]
      cases readHex t <;> rfl
  rw [heq]
  refine .onByte (.fault rfl) fun b r _ => .ite (fun _ => .error rfl) fun _ =>
    .onByte (.fault rfl) fun a t _ => .ite (fun _ => .error rfl) fun _ => hex_steady (f := pair) fun low d u => ?_
  exact .ite (fun _ => .taken fun _ _ => ⟨rfl, rfl⟩) fun _ => .error rfl

theorem readCodePoint_steady : Steady c readCodePoint s := by
  let unit (n : Nat) (r : Bytes) : Except Fault (Nat × Bytes) :=
    if isTrailingSurrogate n then .error ⟨.loneSurrogate, r.length⟩
    else if isLeadingSurrogate n then readTrailing n r
    else .ok (n, r)
  have heq : readCodePoint = fun s => readHex s >>= fun x => unit x.1 x.2 := by
    funext s
    unfold readCodePoint
    cases readHex s <;> rfl
  rw [heq]
  refine hex_steady (f := unit) fun n d t => .ite (fun _ => .error rfl) fun _ => .ite (fun _ => ?_) fun _ => ?_
  · exact readTrailing_steady n
  · exact .taken fun _ _ => ⟨rfl, rfl⟩

theorem readEscape_steady : Steady c readEscape s := by
  have heq : readEscape = onByte (.error ⟨.stringEnds, 0⟩) fun b r =>
      if b = lowerU then (readCodePoint r).map (fun x => (Utf8.encodeCodePoint x.1, x.2))
      else (escaped? b).elim (.error ⟨.invalidEscape, r.length⟩) fun c => .ok ([c], r) := by
    funext s
    cases s with
    | nil => rfl
    | cons b r =>
      simp only [readEscape, onByte]
      cases readCodePoint r <;> cases escaped? b <;> rfl
  rw [heq]
  refine .onByte (.fault rfl) fun b r _ => .ite (fun _ => ?_) fun _ => ?_
  · exact readCodePoint_steady.map fun _ _ => ⟨rfl, rfl⟩
  · cases escaped? b with
    | some a => exact .taken fun _ _ => ⟨rfl, rfl⟩
    | none => exact .error rfl

theorem readLiteral_eq (done : Bytes) : readLiteral done = onByte (.error ⟨.stringEnds, 0⟩) fun b r =>
    if b = quote then .ok (done.reverse, r)
    else if b = backslash then readEscape r >>= fun x => readLiteral (x.1.reverse ++ done) x.2
    else if b < space then .error ⟨.controlCharacter, r.length⟩
    else readLiteral (b :: done) r := by
  funext s
  cases s with
  | nil => rw [readLiteral]; rfl
  | cons b r =>
    rw [readLiteral, onByte]
    split_ifs
    · rfl
    · split
      · next h => rw [h]; rfl
      · next h => rw [h]; rfl
    · rfl
    · rfl

theorem readLiteral_steady (done : Bytes) : Steady c (readLiteral done) s := by
  induction hn : s.length using Nat.strong_induction_on generalizing s done c with
  | _ n ih =>
    subst hn
    rw [readLiteral_eq]
    refine .onByte (.fault rfl) fun b r hs => .ite (fun _ => ?_) fun _ => .ite (fun _ => ?_) fun _ =>
      .ite (fun _ => .error rfl) fun _ => ?_
    · exact .taken fun _ _ => ⟨rfl, rfl⟩
    · refine readEscape_steady.bind fun x hx => ?_
      have hlt := readEscape_length hx
      rw [hs, List.length_cons] at ih
      exact ih x.2.length (by omega) (x.1.reverse ++ done) rfl
    · rw [hs, List.length_cons] at ih
      exact ih _ (by omega) _ rfl

/-- The text of the bytes of a literal. -/
def toText (bytes r : Bytes) : Except Fault (String × Bytes) :=
  match Utf8.decodePrefix bytes with
  | (cs, []) => .ok (String.ofList cs, r)
  | (_, bad@(_ :: _)) => .error ⟨.invalidCodePoint, r.length + bad.length⟩

theorem readString_eq (s : Bytes) : readString s = readLiteral [] s >>= fun x => toText x.1 x.2 := by
  unfold readString
  cases readLiteral [] s <;> rfl

theorem toText_cases (bytes : Bytes) :
    (∃ t, ∀ r, toText bytes r = .ok (t, r)) ∨
      ∃ cs bad, Utf8.decodePrefix bytes = (cs, bad) ∧ bad ≠ [] ∧
        ∀ r, toText bytes r = .error ⟨.invalidCodePoint, r.length + bad.length⟩ := by
  unfold toText
  cases hd : Utf8.decodePrefix bytes with
  | mk cs bad =>
    cases bad with
    | nil => exact .inl ⟨String.ofList cs, fun r => rfl⟩
    | cons b bad => exact .inr ⟨cs, b :: bad, rfl, List.cons_ne_nil b bad, fun r => rfl⟩

/-- Where a string literal stops being UTF-8. -/
theorem holdsIllFormed_of_unescaped {body bytes bad r : Bytes} {cs : List Char} (h : Unescaped body bytes)
    (hd : Utf8.decodePrefix bytes = (cs, bad)) (hbad : bad ≠ []) :
    HoldsIllFormed ([quote] ++ (body ++ quote :: r)) (r.length + bad.length) r.length := by
  obtain ⟨rfl, hstuck⟩ := Utf8.decodePrefix_stuck hd
  obtain ⟨good, wrong, rfl, hgood, hwrong⟩ := h.split
  have hle : bad.length ≤ wrong.length := hwrong.length_le
  have hplace : good.length + (wrong.length - bad.length) + 2 + bad.length =
      ([] ++ quote :: (good ++ (wrong ++ [quote]))).length := by
    simp only [List.nil_append, List.length_cons, List.length_append, List.length_nil]
    omega
  refine ⟨_, r, _, ?_, rfl, .mk rfl hgood hwrong ⟨hbad, hstuck⟩ hplace ?_, ?_⟩
  · simp
  · simp only [List.nil_append, List.length_cons]
    omega
  · simp only [List.nil_append, List.length_cons, List.length_append, List.length_nil] at hplace ⊢
    omega

theorem readString_steady : Steady [quote] readString s := by
  have hliteral : Steady [quote] (readLiteral []) s := readLiteral_steady []
  have heq : readString = fun s => readLiteral [] s >>= fun x => toText x.1 x.2 := funext readString_eq
  -- the fault is in the literal, or in its bytes, which are looked at when it has ended
  cases hx : readLiteral [] s with
  | error e' =>
    rw [heq]
    refine hliteral.bind ?_
    intro y hy
    rw [hx] at hy
    cases hy
  | ok x =>
    obtain ⟨bytes, r⟩ := x
    rcases toText_cases bytes with ⟨text, htext⟩ | ⟨cs, bad, hd, hbad, htext⟩
    · rw [heq]
      refine hliteral.bind ?_
      intro y hy
      rw [hx] at hy
      cases hy
      simp only [leaving, htext]
      exact .taken fun _ _ => ⟨rfl, rfl⟩
    · obtain ⟨body, _, rfl, hbody, rfl⟩ := readLiteral_unescaped hx
      -- whatever follows the literal, it is refused for the same bytes
      have hfault (t : Bytes) :
          readString ((body ++ [quote]) ++ t) = .error ⟨.invalidCodePoint, t.length + bad.length⟩ := by
        rw [List.append_assoc, readString_eq]
        show readLiteral [] (body ++ quote :: t) >>= _ = _
        rw [readLiteral_of_unescaped hbody]
        exact htext t
      have hs : body ++ quote :: r = (body ++ [quote]) ++ r := by simp
      constructor
      · intro y hy
        rw [hs, hfault] at hy
        cases hy
      · intro e he
        rw [hs, hfault] at he
        cases he
        refine .illFormed (holdsIllFormed_of_unescaped hbody hd hbad) ?_
        rw [hs]
        exact .of_forall hfault r

/-! ## Documents -/

/-- A value that is no container, from its first byte on. -/
theorem scalar_steady (b : UInt8) : Steady [b] (fun r => readScalar (b :: r)) s := by
  refine .ite (fun _ => ?_) fun _ => .ite (fun _ => ?_) fun _ => .ite (fun _ => ?_) fun _ =>
    .ite (fun hb => ?_) fun _ => .ite (fun _ => ?_) fun _ => .error rfl
  · exact (readWord_steady _).map fun _ _ => ⟨rfl, rfl⟩
  · exact (readWord_steady _).map fun _ _ => ⟨rfl, rfl⟩
  · exact (readWord_steady _).map fun _ _ => ⟨rfl, rfl⟩
  · subst hb
    exact readString_steady.map fun _ _ => ⟨rfl, rfl⟩
  · exact (number_steady b).map fun _ _ => ⟨rfl, rfl⟩

theorem readKey_steady : Steady [quote] readKey s := by
  let keyed (key : String) (r : Bytes) : Except Fault (String × Bytes) := (readColon r).map (key, ·)
  have heq : readKey = fun s => readString s >>= fun x => keyed x.1 x.2 := by
    funext s
    unfold readKey
    cases readString s <;> rfl
  rw [heq]
  refine readString_steady.bind fun x _ => ?_
  show Steady [] (fun r => (readColon r).map (x.1, ·)) x.2
  exact readColon_steady.map fun _ _ => ⟨rfl, rfl⟩

theorem openArray_steady (stack : List Frame) : Steady c (openArray stack) s := by
  have heq : openArray stack = onToken (.error ⟨.listEnds, 0⟩) fun b r =>
      if b = closeBracket then .ok (.holding stack (.array []) r)
      else .ok (.wanting (.array [] :: stack) (b :: r)) := by
    funext s
    unfold openArray firstElement onToken onByte
    cases skipSpace s with
    | nil => rfl
    | cons b r => dsimp only; split_ifs <;> rfl
  rw [heq]
  refine .onToken (.fault rfl) fun b r _ => .ite (fun _ => ?_) fun _ => ?_
  · exact .taken fun _ _ => ⟨rfl, rfl⟩
  · exact .seen fun _ _ => ⟨rfl, rfl⟩

theorem openObject_steady (stack : List Frame) : Steady c (openObject stack) s := by
  have heq : openObject stack = onToken (.error ⟨.objectEnds, 0⟩) fun b r =>
      if b = closeBrace then .ok (.holding stack (.object []) r)
      else if b = quote then (readKey r).map (fun x => .wanting (.object [] x.1 :: stack) x.2)
      else .error ⟨.keyNotString, r.length⟩ := by
    funext s
    unfold openObject firstMember onToken onByte
    cases skipSpace s with
    | nil => rfl
    | cons b r => dsimp only; split_ifs <;> rfl
  rw [heq]
  refine .onToken (.fault rfl) fun b r _ => .ite (fun _ => ?_) fun _ => .ite (fun hb => ?_) fun _ => .error rfl
  · exact .taken fun _ _ => ⟨rfl, rfl⟩
  · subst hb
    exact readKey_steady.map fun _ _ => ⟨rfl, rfl⟩

theorem readOpening_steady (limit : Option Nat) (stack : List Frame) : Steady c (readOpening limit stack) s := by
  have heq : readOpening limit stack = onToken (.error ⟨.valueEnds, 0⟩) fun b r =>
      if b = openBracket then
        if mayOpen limit stack then openArray stack r else .error ⟨.nestingTooDeep, r.length⟩
      else if b = openBrace then
        if mayOpen limit stack then openObject stack r else .error ⟨.nestingTooDeep, r.length⟩
      else (readScalar (b :: r)).map (fun x => .holding stack x.1 x.2) := by
    funext s
    unfold readOpening onToken onByte
    cases skipSpace s <;> rfl
  rw [heq]
  refine .onToken (.fault rfl) fun b r _ => .ite (fun _ => ?_) fun _ => .ite (fun _ => ?_) fun _ => ?_
  · exact .ite (fun _ => openArray_steady stack) fun _ => .error rfl
  · exact .ite (fun _ => openObject_steady stack) fun _ => .error rfl
  · exact (scalar_steady b).map fun _ _ => ⟨rfl, rfl⟩

theorem closeArray_steady (done : List Value) (stack : List Frame) (v : Value) :
    Steady c (readClosing (.array done) stack v) s := by
  have heq : readClosing (.array done) stack v = onToken (.error ⟨.listEnds, 0⟩) fun b r =>
      if b = closeBracket then .ok (.holding stack (.array (v :: done).reverse) r)
      else if b = comma then
        onToken (.error ⟨.valueEnds, 0⟩) (fun a t =>
          if a = closeBracket then .error ⟨.trailingComma, t.length⟩
          else .ok (.wanting (.array (v :: done) :: stack) (a :: t))) r
      else .error ⟨.expectedListCommaOrEnd, r.length⟩ := by
    funext s
    unfold readClosing nextElement onToken onByte
    cases skipSpace s with
    | nil => rfl
    | cons b r =>
      dsimp only
      split_ifs
      · rfl
      · cases skipSpace r with
        | nil => rfl
        | cons a t => dsimp only; split_ifs <;> rfl
      · rfl
  rw [heq]
  refine .onToken (.fault rfl) fun b r _ => .ite (fun _ => ?_) fun _ => .ite (fun _ => ?_) fun _ => .error rfl
  · exact .taken fun _ _ => ⟨rfl, rfl⟩
  · refine .onToken (.fault rfl) fun a t _ => .ite (fun _ => .error rfl) fun _ => ?_
    exact .seen fun _ _ => ⟨rfl, rfl⟩

theorem closeObject_steady (members : Members) (key : String) (stack : List Frame) (v : Value) :
    Steady c (readClosing (.object members key) stack v) s := by
  have heq : readClosing (.object members key) stack v = onToken (.error ⟨.objectEnds, 0⟩) fun b r =>
      if b = closeBrace then .ok (.holding stack (.object (members.put key v)) r)
      else if b = comma then
        onToken (.error ⟨.valueEnds, 0⟩) (fun a t =>
          if a = quote then (readKey t).map (fun x => .wanting (.object (members.put key v) x.1 :: stack) x.2)
          else if a = closeBrace then .error ⟨.trailingComma, t.length⟩
          else .error ⟨.keyNotString, t.length⟩) r
      else .error ⟨.expectedObjectCommaOrEnd, r.length⟩ := by
    funext s
    unfold readClosing nextMember onToken onByte
    cases skipSpace s with
    | nil => rfl
    | cons b r =>
      dsimp only
      split_ifs
      · rfl
      · cases skipSpace r with
        | nil => rfl
        | cons a t => dsimp only; split_ifs <;> rfl
      · rfl
  rw [heq]
  refine .onToken (.fault rfl) fun b r _ => .ite (fun _ => ?_) fun _ => .ite (fun _ => ?_) fun _ => .error rfl
  · exact .taken fun _ _ => ⟨rfl, rfl⟩
  · refine .onToken (.fault rfl) fun a t _ => .ite (fun ha => ?_) fun _ => .ite (fun _ => .error rfl) fun _ =>
      .error rfl
    subst ha
    exact readKey_steady.map fun _ _ => ⟨rfl, rfl⟩

theorem readClosing_steady (frame : Frame) (stack : List Frame) (v : Value) :
    Steady c (readClosing frame stack v) s := by
  cases frame with
  | array done => exact closeArray_steady done stack v
  | object members key => exact closeObject_steady members key stack v

theorem run_wanting_eq (limit : Option Nat) (stack : List Frame) (r : Bytes) :
    run limit (.wanting stack r) = readOpening limit stack r >>= run limit := by
  rw [run]
  split
  · next h => rw [h]; rfl
  · next h => rw [h]; rfl

theorem run_holding_eq (limit : Option Nat) (frame : Frame) (stack : List Frame) (v : Value) (r : Bytes) :
    run limit (.holding (frame :: stack) v r) = readClosing frame stack v r >>= run limit := by
  rw [run]
  split
  · next h => rw [h]; rfl
  · next h => rw [h]; rfl

theorem run_done_eq (limit : Option Nat) (v : Value) (r : Bytes) : run limit (.holding [] v r) = .ok (v, r) := by
  rw [run]

/-- The whole reading of a document, by its steps. -/
theorem run_steady (limit : Option Nat) (st : State) : Steady [] (fun r => run limit (st.leaving r)) st.rest := by
  induction hn : st.rest.length using Nat.strong_induction_on generalizing st with
  | _ n ih =>
    subst hn
    match st with
    | .wanting stack s =>
      show Steady [] (fun r => run limit (.wanting stack r)) s
      simp only [run_wanting_eq]
      exact (readOpening_steady limit stack).bind fun next h => ih _ (readOpening_length h) next rfl
    | .holding [] v s =>
      show Steady [] (fun r => run limit (.holding [] v r)) s
      simp only [run_done_eq]
      exact .taken fun _ _ => ⟨rfl, rfl⟩
    | .holding (frame :: stack) v s =>
      show Steady [] (fun r => run limit (.holding (frame :: stack) v r)) s
      simp only [run_holding_eq]
      exact (readClosing_steady frame stack v).bind fun next h => ih _ (readClosing_length h) next rfl

theorem readEnd_steady (v : Value) : Steady c (fun r => (readEnd r).map fun _ => (v, ([] : Bytes))) s := by
  have heq : (fun r => (readEnd r).map fun _ => (v, ([] : Bytes))) =
      onToken (.ok (v, [])) fun _ r => .error ⟨.trailingCharacters, r.length⟩ := by
    funext r
    unfold readEnd onToken onByte
    cases skipSpace r <;> rfl
  rw [heq]
  exact .onToken (.result rfl) fun b r _ => .error rfl

/-- Where a document is refused, this stays as long as what was looked at does. -/
theorem readDocument_placed (limit : Option Nat) {e : Fault} (h : readDocument limit s = .error e) :
    Placed [] (readDocument limit) s e := by
  let whole (r : Bytes) : Except Fault (Value × Bytes) :=
    run limit (.wanting [] r) >>= fun x => (readEnd x.2).map fun _ => (x.1, [])
  have hsame (r : Bytes) (e : Fault) : whole r = .error e ↔ readDocument limit r = .error e := by
    simp only [whole, readDocument]
    cases run limit (.wanting [] r) with
    | error f => simp [bind, Except.bind]
    | ok x =>
      simp only [bind, Except.bind]
      cases readEnd x.2 <;> simp [Except.map]
  have hsteady : Steady [] whole s := (run_steady limit (.wanting [] s)).bind fun x _ => readEnd_steady x.1
  refine (hsteady.fault e ((hsame s e).2 h)).lift (List.suffix_refl _) ?_
  intro m _ hstays p t t' hp ht
  obtain ⟨k, hk, hwhole⟩ := hstays p t t' hp ht
  exact ⟨k, hk, (hsame _ _).1 hwhole⟩

end

end ShapeLedger.Json
