/-
The reader takes the numbers, dates and times of the grammar, where nothing follows them that could belong to
them. A number is never taken for the beginning of a date or a time.
-/
import ShapeLedger.Proofs.Toml.Strings

namespace ShapeLedger.Toml

open Grammar

/-! ## Behind a value -/

/-- The characters that may come next behind a value and blanks. -/
def closers : List Char := ['\n', '\r', '#', ',', ']', '}']

/-- What may follow a value. -/
def EndsValue (rest : Chars) : Prop := ∀ c ∈ (skipBlanks rest).head?, c ∈ closers

section
variable {rest : Chars} {p : Char → Bool}

/-- None of the characters that may follow a value has a property, so the next one does not have it. -/
theorem EndsValue.head (h : EndsValue rest) (hp : (' ' :: '\t' :: closers).any p = false) :
    ∀ c ∈ rest.head?, p c = false := by
  intro c hc
  rw [List.any_eq_false] at hp
  refine Bool.eq_false_iff.2 ?_
  obtain ⟨u, rfl⟩ : ∃ u, rest = c :: u := ⟨rest.tail, List.eq_cons_of_mem_head? hc⟩
  cases hblank : isBlank c with
  | true => rcases isBlank_iff.1 hblank with rfl | rfl <;> exact hp _ (by simp)
  | false =>
    have hmem : c ∈ closers := h c (by rw [skipBlanks_cons hblank]; rfl)
    exact hp c (by simp [hmem])

theorem EndsValue.ne (h : EndsValue rest) {c : Char} (hc : c ∉ ' ' :: '\t' :: closers) : rest.head? ≠ some c := by
  intro he
  have := h.head (p := (· = c)) (List.any_eq_false.2 (fun b hb hbc => hc (of_decide_eq_true hbc ▸ hb))) c he
  simp at this

theorem EndsValue.tail (h : EndsValue (' ' :: rest)) : EndsValue rest := h

end

/-! ## Digits -/

section
variable {base : Nat} {t digits done rest : Chars} {c : Char}

theorem isDigitOf_ten (c : Char) : isDigitOf 10 c = c.isDigit := by
  have h0 : '0' ≤ c ↔ 48 ≤ c.toNat := Iff.rfl
  have h9 : c ≤ '9' ↔ c.toNat ≤ 57 := Iff.rfl
  have ha : 'a' ≤ c ↔ 97 ≤ c.toNat := Iff.rfl
  have hf : c ≤ 'f' ↔ c.toNat ≤ 102 := Iff.rfl
  have hA : 'A' ≤ c ↔ 65 ≤ c.toNat := Iff.rfl
  have hF : c ≤ 'F' ↔ c.toNat ≤ 70 := Iff.rfl
  have hdigit : c.isDigit = (decide (48 ≤ c.toNat) && decide (c.toNat ≤ 57)) := rfl
  simp only [isDigitOf, hexDigit?, hdigit, h0, h9, ha, hf, hA, hF, Bool.and_eq_true, decide_eq_true_eq]
  split
  · next h => simp [h]; omega
  · next h =>
    have hno : (decide (48 ≤ c.toNat) && decide (c.toNat ≤ 57)) = false := by simpa using h
    rw [hno]
    split
    · simp; omega
    · split
      · simp; omega
      · rfl

/-- What may follow digits: no digit and no underscore. -/
def EndsRun (base : Nat) (rest : Chars) : Prop := ∀ c ∈ rest.head?, isDigitOf base c = false ∧ c ≠ '_'

theorem ne_underscore (h : isDigitOf base c = true) : c ≠ '_' := by
  rintro rfl
  cases h

theorem moreDigits_cons (h : isDigitOf base c = true) :
    moreDigits (isDigitOf base) done (c :: rest) = moreDigits (isDigitOf base) (c :: done) rest := by
  have := ne_underscore h
  simp_all [moreDigits]

theorem moreDigits_apart (h : isDigitOf base c = true) :
    moreDigits (isDigitOf base) done ('_' :: c :: rest) = moreDigits (isDigitOf base) (c :: done) rest := by
  simp [moreDigits, h]

theorem moreDigits_stop (h : EndsRun base rest) :
    moreDigits (isDigitOf base) done rest = some (done.reverse, rest) := by
  cases rest with
  | nil => rfl
  | cons c rest =>
    obtain ⟨hdigit, hunder⟩ := h c rfl
    simp_all [moreDigits]

theorem digits?_append (h : Run base t digits) (stop : EndsRun base rest) :
    digits? (isDigitOf base) (t ++ rest) = some (digits, rest) := by
  -- the first digit has been taken already
  have hmore : ∀ done, ∃ c u, t = c :: u ∧ isDigitOf base c = true ∧
      moreDigits (isDigitOf base) (c :: done) (u ++ rest) = some (done.reverse ++ digits, rest) := by
    induction h with
    | @last c hc => exact fun done => ⟨c, [], rfl, hc, by simp [moreDigits_stop stop]⟩
    | @next c t digits hc _ ih =>
      intro done
      obtain ⟨b, u, rfl, hb, hu⟩ := ih (c :: done)
      exact ⟨c, b :: u, rfl, hc, by rw [List.cons_append, moreDigits_cons hb, hu]; simp⟩
    | @apart c t digits hc _ ih =>
      intro done
      obtain ⟨b, u, rfl, hb, hu⟩ := ih (c :: done)
      exact ⟨c, '_' :: b :: u, rfl, hc, by
        rw [List.cons_append, List.cons_append, moreDigits_apart hb, hu]; simp⟩
  obtain ⟨c, u, rfl, hc, hu⟩ := hmore []
  rw [List.cons_append, digits?, if_pos hc]
  exact hu

theorem digits?_decimal (h : Run 10 t digits) (stop : EndsRun 10 rest) :
    digits? Char.isDigit (t ++ rest) = some (digits, rest) := by
  rw [← funext isDigitOf_ten]
  exact digits?_append h stop

theorem Grammar.Run.eq_cons (h : Run base t digits) : ∃ c u, t = c :: u ∧ isDigitOf base c = true := by
  cases h with
  | last hc => exact ⟨_, _, rfl, hc⟩
  | next hc _ => exact ⟨_, _, rfl, hc⟩
  | apart hc _ => exact ⟨_, _, rfl, hc⟩

end

/-! ## Beginnings of dates and times -/

section
variable {n k : Nat} {s t digits whole r rest : Chars}

theorem fixed?_append (h : Fixed 10 n digits k) : fixed? n (digits ++ rest) = some (k, rest) := by
  obtain ⟨rfl, hdigits, rfl⟩ := h
  have hall : digits.all Char.isDigit = true := List.all_eq_true.2 (fun c hc => isDigitOf_ten c ▸ hdigits c hc)
  simp [fixed?, hall]

theorem fixed?_eq_some (h : fixed? n s = some (k, r)) :
    ∃ d, s = d ++ r ∧ d.length = n ∧ ∀ c ∈ d, c.isDigit = true := by
  unfold fixed? at h
  simp only [Bool.and_eq_true, decide_eq_true_eq, List.all_eq_true] at h
  split at h
  · next hd =>
    cases h
    exact ⟨s.take n, (List.take_append_drop n s).symm, hd.1, hd.2⟩
  · cases h

theorem hour?_eq_some (h : hour? s = some r) :
    ∃ d, s = d ++ ':' :: r ∧ d.length = 2 ∧ ∀ c ∈ d, c.isDigit = true := by
  unfold hour? ranged? at h
  cases hfixed : fixed? 2 s with
  | none => simp [hfixed] at h
  | some found =>
    obtain ⟨k, u⟩ := found
    obtain ⟨d, rfl, hlength, hd⟩ := fixed?_eq_some hfixed
    have hcolon : expect? ':' u = some r := by
      by_cases hk : (decide (0 ≤ k) && decide (k ≤ 23)) = true
      · simpa only [hfixed, if_pos hk] using h
      · simp only [hfixed, if_neg hk] at h
        cases h
    cases u with
    | nil => cases hcolon
    | cons c u =>
      by_cases hc : c = ':'
      · rw [expect?, if_pos hc] at hcolon
        cases hcolon
        exact ⟨d, by rw [hc], hlength, hd⟩
      · rw [expect?, if_neg hc] at hcolon
        cases hcolon

/-- Behind the digits at its head, a text does not go on as a date or a time does. -/
def Undated (s : Chars) : Prop :=
  ∀ d r, d ≠ [] → (∀ c ∈ d, c.isDigit = true) → s ≠ d ++ '-' :: r ∧ s ≠ d ++ ':' :: r

theorem Undated.moment? (h : Undated s) : moment? s = none := by
  have hne {n : Nat} {d : Chars} (hlength : d.length = n + 1) : d ≠ [] := List.ne_nil_of_length_eq_add_one hlength
  unfold Toml.moment?
  split
  · next hfixed =>
    obtain ⟨d, rfl, hlength, hd⟩ := fixed?_eq_some hfixed
    exact absurd rfl (h d _ (hne hlength) hd).1
  · cases hhour : hour? s with
    | none => rfl
    | some r =>
      obtain ⟨d, rfl, hlength, hd⟩ := hour?_eq_some hhour
      exact absurd rfl (h d _ (hne hlength) hd).2

theorem undated_of_head (h : ∀ c ∈ s.head?, c.isDigit = false) : Undated s := by
  intro d r hne hd
  obtain ⟨c, u, rfl⟩ := List.exists_cons_of_ne_nil hne
  constructor <;> rintro rfl <;> exact absurd (hd c (.head _)) (by simp [h c rfl])

theorem undated_of_dropWhile (hyphen : (s.dropWhile Char.isDigit).head? ≠ some '-')
    (colon : (s.dropWhile Char.isDigit).head? ≠ some ':') : Undated s := by
  intro d r _ hd
  constructor
  · rintro rfl
    rw [dropWhile_run hd (by simp)] at hyphen
    exact hyphen rfl
  · rintro rfl
    rw [dropWhile_run hd (by simp)] at colon
    exact colon rfl

/-- Digits with underscores are not the beginning of a date or a time. -/
theorem Grammar.Run.undated (h : Run 10 t digits) (stop : EndsRun 10 rest) (hyphen : rest.head? ≠ some '-')
    (colon : rest.head? ≠ some ':') : Undated (t ++ rest) := by
  have hrest : rest.dropWhile Char.isDigit = rest :=
    dropWhile_run (t := []) (by simp) (fun c hc => isDigitOf_ten c ▸ (stop c hc).1)
  have hdrop : ((t ++ rest).dropWhile Char.isDigit).head? = rest.head? ∨
      ((t ++ rest).dropWhile Char.isDigit).head? = some '_' := by
    induction h with
    | last hc =>
      rw [isDigitOf_ten] at hc
      rw [List.cons_append, List.dropWhile_cons_of_pos hc]
      exact .inl (congrArg _ hrest)
    | next hc _ ih =>
      rw [isDigitOf_ten] at hc
      rw [List.cons_append, List.dropWhile_cons_of_pos hc]
      exact ih
    | apart hc _ _ =>
      rw [isDigitOf_ten] at hc
      rw [List.cons_append, List.dropWhile_cons_of_pos hc]
      exact .inr rfl
  refine undated_of_dropWhile ?_ ?_
  · rcases hdrop with he | he <;> rw [he]
    · exact hyphen
    · decide
  · rcases hdrop with he | he <;> rw [he]
    · exact colon
    · decide

end

/-! ## Numbers -/

section
variable {s t u f e whole fraction digits rest : Chars} {negative : Bool} {exponent : Option Int} {n : Int}
  {x : Binary64}

theorem sign_append (hs : Sign s negative) (plus : u.head? ≠ some '+') (minus : u.head? ≠ some '-') :
    sign (s ++ u) = (negative, u) := by
  cases hs with
  | none =>
    rw [List.nil_append]
    unfold sign
    split
    · exact absurd rfl minus
    · exact absurd rfl plus
    · rfl
  | plus => rfl
  | minus => rfl

theorem Grammar.Whole.eq_cons (h : Whole t whole) : ∃ c u, t = c :: u ∧ c.isDigit = true := by
  cases h with
  | zero => exact ⟨'0', [], rfl, by decide⟩
  | digits h _ =>
    obtain ⟨c, u, rfl, hc⟩ := h.eq_cons
    exact ⟨c, u, rfl, isDigitOf_ten c ▸ hc⟩

theorem Grammar.Whole.head (h : Whole t whole) {c : Char} (hc : c.isDigit = false) : (t ++ u).head? ≠ some c := by
  obtain ⟨b, v, rfl, hb⟩ := h.eq_cons
  intro he
  cases he
  rw [hc] at hb
  cases hb

theorem whole?_append (h : Whole t whole) (stop : EndsRun 10 rest) : whole? (t ++ rest) = some (whole, rest) := by
  cases h with
  | zero => rfl
  | digits h first =>
    rw [← digits?_decimal h stop]
    obtain ⟨c, u, rfl, -⟩ := h.eq_cons
    simp_all [whole?]

theorem fraction?_append (h : Fraction f fraction) (stop : EndsRun 10 rest) (point : rest.head? ≠ some '.') :
    fraction? (f ++ rest) = some (fraction, rest) := by
  cases h with
  | absent =>
    rw [List.nil_append]
    unfold fraction?
    split
    · exact absurd rfl point
    · rfl
  | present h => exact digits?_decimal h stop

theorem Grammar.Run.head (h : Run 10 t digits) {c : Char} (hc : c.isDigit = false) : (t ++ u).head? ≠ some c := by
  obtain ⟨b, v, rfl, hb⟩ := h.eq_cons
  intro he
  cases he
  rw [isDigitOf_ten, hc] at hb
  cases hb

theorem exponent?_append (h : ExponentText e exponent) (stop : EndsRun 10 rest) (small : rest.head? ≠ some 'e')
    (large : rest.head? ≠ some 'E') : exponent? (e ++ rest) = some (exponent, rest) := by
  cases h with
  | absent =>
    cases rest with
    | nil => rfl
    | cons c rest => simp_all [exponent?]
  | @present c s t digits negative letter hs ht =>
    have hsign : sign (s ++ (t ++ rest)) = (negative, t ++ rest) :=
      sign_append hs (ht.head (by decide)) (ht.head (by decide))
    have hletter : (decide (c = 'e') || decide (c = 'E')) = true := by simpa using letter
    simp only [List.cons_append, List.append_assoc, exponent?, hletter, if_true, hsign, digits?_decimal ht stop]
    rfl

/-- What follows the digits of a whole number is a fraction, an exponent, or behind the number. -/
theorem endsRun_of_value {base : Nat} (h : EndsValue rest) : EndsRun base rest := by
  intro c hc
  refine ⟨?_, fun hunder => h.ne (by decide) (hunder ▸ hc)⟩
  have hhex : hexDigit? c = none := by
    have := h.head (p := fun c => (hexDigit? c).isSome) (by decide) c hc
    simpa using this
  rw [isDigitOf, hhex]
  rfl

theorem endsRun_exponent (he : ExponentText e exponent) (h : EndsValue rest) : EndsRun 10 (e ++ rest) := by
  cases he with
  | absent => exact endsRun_of_value h
  | present letter _ _ =>
    intro c hc
    cases hc
    rcases letter with rfl | rfl <;> decide

theorem endsRun_fraction (hf : Fraction f fraction) (he : ExponentText e exponent) (h : EndsValue rest) :
    EndsRun 10 (f ++ (e ++ rest)) := by
  cases hf with
  | absent =>
    rw [List.nil_append]
    exact endsRun_exponent he h
  | present _ =>
    intro c hc
    cases hc
    decide

/-- A character that may stand behind the digits of a whole number. -/
theorem head_fraction (hf : Fraction f fraction) (he : ExponentText e exponent) (h : EndsValue rest) {c : Char}
    (hc : c ∉ ['.', 'e', 'E', ' ', '\t', '\n', '\r', '#', ',', ']', '}']) : (f ++ (e ++ rest)).head? ≠ some c := by
  simp only [List.mem_cons, List.not_mem_nil, or_false, not_or] at hc
  cases hf with
  | present _ => simp [hc.1, eq_comm]
  | absent =>
    cases he with
    | present letter _ _ =>
      simp only [List.nil_append, List.cons_append, List.head?_cons, ne_eq, Option.some.injEq]
      rcases letter with rfl | rfl
      · exact fun h => hc.2.1 h.symm
      · exact fun h => hc.2.2.1 h.symm
    | absent => exact h.ne (by simp [closers, hc])

/-- A decimal number of any form, from its sign on. -/
theorem decimal?_append (hs : Sign s negative) (ht : Whole t whole) (hf : Fraction f fraction)
    (he : ExponentText e exponent) (hr : EndsValue rest) :
    decimal? (s ++ (t ++ (f ++ (e ++ rest)))) =
      if fraction.isEmpty && exponent.isNone then (integer? (signed negative (number 10 whole))).map (·, rest)
      else if Binary64.ofDecimal negative (number 10 (whole ++ fraction))
          (exponent.getD 0 - (fraction.length : Int)) = .infinity false then none
      else some (.real (Binary64.ofDecimal negative (number 10 (whole ++ fraction))
          (exponent.getD 0 - (fraction.length : Int))), rest) := by
  have hpoint : (e ++ rest).head? ≠ some '.' := by
    cases he with
    | absent => exact hr.ne (by decide)
    | present letter _ _ => rcases letter with rfl | rfl <;> simp
  simp only [decimal?, sign_append hs (ht.head (by decide)) (ht.head (by decide)),
    whole?_append ht (endsRun_fraction hf he hr), fraction?_append hf (endsRun_exponent he hr) hpoint,
    exponent?_append he (endsRun_of_value hr) (hr.ne (by decide)) (hr.ne (by decide)), Option.bind_eq_bind,
    Option.bind_some]
  split
  · unfold signed
    generalize integer? _ = i
    cases i <;> rfl
  · rfl

end

section
variable {s t u f e whole fraction digits rest : Chars} {negative : Bool} {exponent : Option Int} {n : Int}
  {x : Binary64} {c : Char}

/-- What neither begins as a string or a word nor goes on as a date or a time is read as a number. -/
theorem scalarValue?_undated (h : Undated (c :: u)) (hc : c ∉ ['"', '\x27', 't', 'f']) :
    scalarValue? (c :: u) = number? (c :: u) := by
  simp only [List.mem_cons, List.not_mem_nil, or_false, not_or] at hc
  unfold scalarValue?
  split
  · next he => exact absurd (List.cons.inj he).1 hc.1
  · next he => exact absurd (List.cons.inj he).1 hc.2.1
  · next he => exact absurd (List.cons.inj he).1 hc.2.2.1
  · next he => exact absurd (List.cons.inj he).1 hc.2.2.2
  · rw [h.moment?]

theorem Grammar.Whole.run (h : Whole t whole) : Run 10 t whole := by
  cases h with
  | zero => exact .last (by decide)
  | digits h _ => exact h

/-- Where no other base is named and the text is no special datum, a number is a decimal one. -/
theorem number?_append (hs : Sign s negative) (ht : Whole t whole) (hf : Fraction f fraction)
    (he : ExponentText e exponent) (hr : EndsValue rest) :
    number? (s ++ (t ++ (f ++ (e ++ rest)))) = decimal? (s ++ (t ++ (f ++ (e ++ rest)))) := by
  have hspecial : special? (s ++ (t ++ (f ++ (e ++ rest)))) = none := by
    simp only [special?, sign_append hs (ht.head (by decide)) (ht.head (by decide))]
    have hi : (t ++ (f ++ (e ++ rest))).head? ≠ some 'i' := ht.head (by decide)
    have hn : (t ++ (f ++ (e ++ rest))).head? ≠ some 'n' := ht.head (by decide)
    split
    · next hu => exact absurd (hu ▸ rfl) hi
    · next hu => exact absurd (hu ▸ rfl) hn
    · rfl
  -- behind a zero comes none of the letters that name a base
  have hbase (letter : Char) (r : Chars) (hletter : letter ∈ ['x', 'o', 'b']) :
      s ++ (t ++ (f ++ (e ++ rest))) ≠ '0' :: letter :: r := by
    intro h
    cases hs with
    | plus => cases h
    | minus => cases h
    | none =>
      cases ht with
      | digits ht first =>
        obtain ⟨c, v, rfl, -⟩ := ht.eq_cons
        exact first (congrArg some (List.cons.inj h).1)
      | zero =>
        have hu : f ++ (e ++ rest) = letter :: r := (List.cons.inj h).2
        have hhead := head_fraction hf he hr (c := letter) (by
          simp only [List.mem_cons, List.not_mem_nil, or_false] at hletter
          rcases hletter with rfl | rfl | rfl <;> decide)
        rw [hu] at hhead
        exact hhead rfl
  unfold number?
  split
  · next h => exact absurd h (hbase 'x' _ (by decide))
  · next h => exact absurd h (hbase 'o' _ (by decide))
  · next h => exact absurd h (hbase 'b' _ (by decide))
  · rw [hspecial]

/-- A decimal number is not taken for anything else. -/
theorem scalarValue?_decimal (hs : Sign s negative) (ht : Whole t whole) (hf : Fraction f fraction)
    (he : ExponentText e exponent) (hr : EndsValue rest) :
    scalarValue? (s ++ (t ++ (f ++ (e ++ rest)))) = decimal? (s ++ (t ++ (f ++ (e ++ rest)))) := by
  rw [← number?_append hs ht hf he hr]
  cases hs with
  | plus => exact scalarValue?_undated (undated_of_head (by simp)) (by decide)
  | minus => exact scalarValue?_undated (undated_of_head (by simp)) (by decide)
  | none =>
    have hundated : Undated (t ++ (f ++ (e ++ rest))) :=
      ht.run.undated (endsRun_fraction hf he hr) (head_fraction hf he hr (by decide))
        (head_fraction hf he hr (by decide))
    obtain ⟨c, v, rfl, hc⟩ := ht.eq_cons
    refine scalarValue?_undated hundated (fun hmem => ?_)
    simp only [List.mem_cons, List.not_mem_nil, or_false] at hmem
    rcases hmem with rfl | rfl | rfl | rfl <;> exact absurd hc (by decide)

/-- Without a fraction and an exponent, a decimal number is an integer. -/
theorem decimal?_integer (hs : Sign s negative) (ht : Whole t whole) (hr : EndsValue rest) :
    decimal? (s ++ (t ++ rest)) = (integer? (signed negative (number 10 whole))).map (·, rest) := by
  have hread := decimal?_append hs ht .absent .absent hr
  rwa [if_pos (by rw [List.isEmpty_nil, Option.isNone_none, Bool.and_self]), List.nil_append,
    List.nil_append] at hread

/-- A number in another base than ten. -/
theorem number?_based {letter : Char} {base : Nat} (hletter : (letter, base) ∈ bases) (ht : Run base t digits)
    (hr : EndsValue rest) :
    number? ('0' :: letter :: (t ++ rest)) = (integer? (number base digits)).map (·, rest) := by
  have hbased : based? base (t ++ rest) = (integer? (number base digits)).map (·, rest) :=
    calc based? base (t ++ rest)
        = (digits? (isDigitOf base) (t ++ rest)).bind
            (fun p => (integer? (number base p.1)).bind (fun i => some (i, p.2))) := rfl
      _ = (integer? (number base digits)).bind (fun i => some (i, rest)) := by
        rw [digits?_append ht (endsRun_of_value hr), Option.bind_some]
      _ = (integer? (number base digits)).map (·, rest) := Option.map_eq_bind.symm
  simp only [bases, List.mem_cons, List.not_mem_nil, or_false, Prod.mk.injEq] at hletter
  rw [← hbased]
  rcases hletter with ⟨rfl, rfl⟩ | ⟨rfl, rfl⟩ | ⟨rfl, rfl⟩ <;> rw [number?]

/-- An integer of any size is read; one that takes more than 64 bits is refused. -/
theorem scalarValue?_integer (h : IntegerText s n) (hr : EndsValue rest) :
    scalarValue? (s ++ rest) = (integer? n).map (·, rest) := by
  cases h with
  | @decimal s t digits negative hs ht =>
    rw [List.append_assoc, ← decimal?_integer hs ht hr]
    exact scalarValue?_decimal hs ht .absent .absent hr
  | @based letter base t digits hletter ht =>
    rw [List.cons_append, List.cons_append, ← number?_based hletter ht hr]
    simp only [bases, List.mem_cons, List.not_mem_nil, or_false, Prod.mk.injEq] at hletter
    refine scalarValue?_undated (undated_of_dropWhile ?_ ?_) (by decide) <;>
      rcases hletter with ⟨rfl, rfl⟩ | ⟨rfl, rfl⟩ | ⟨rfl, rfl⟩ <;> simp

theorem scalarValue?_decimalText (h : DecimalText s x) (hx : x ≠ .infinity false) (hr : EndsValue rest) :
    scalarValue? (s ++ rest) = some (.real x, rest) := by
  cases h with
  | @mk s t whole f fraction e negative exponent hs ht hf he some =>
    have hform : ¬ (fraction.isEmpty && exponent.isNone) = true := by simpa [imp_iff_not_or] using some
    rw [List.append_assoc, List.append_assoc, List.append_assoc, scalarValue?_decimal hs ht hf he hr,
      decimal?_append hs ht hf he hr, if_neg hform, if_neg hx]

theorem scalarValue?_special (h : SpecialText s x) : scalarValue? (s ++ rest) = some (.real x, rest) := by
  have hread {s : Chars} {negative : Bool} {c d e : Char} (hs : Sign s negative) (hc : c = 'i' ∨ c = 'n') :
      scalarValue? (s ++ [c, d, e] ++ rest) = number? (s ++ [c, d, e] ++ rest) := by
    cases hs with
    | none =>
      rcases hc with rfl | rfl <;> exact scalarValue?_undated (undated_of_head (by simp)) (by decide)
    | plus => exact scalarValue?_undated (undated_of_head (by simp)) (by decide)
    | minus => exact scalarValue?_undated (undated_of_head (by simp)) (by decide)
  cases h with
  | infinity hs =>
    rw [hread hs (.inl rfl)]
    cases hs <;> rfl
  | nan hs =>
    rw [hread hs (.inr rfl)]
    cases hs <;> rfl

end

/-! ## Dates and times -/

section
variable {s d t p o rest : Chars} {n low high k year month day : Nat} {c : Char}

theorem ranged?_append (h : Fixed 10 n d k) (hlow : low ≤ k) (hhigh : k ≤ high) :
    ranged? n low high (d ++ rest) = some (k, rest) := by
  simp [ranged?, fixed?_append h, hlow, hhigh]

theorem daysIn_le (year month : Nat) : daysIn year month ≤ 31 := by
  unfold daysIn
  split
  · split <;> decide
  · split <;> decide

theorem restOfDate?_append {m d : Chars} (hm : Fixed 10 2 m month) (hd : Fixed 10 2 d day)
    (firstMonth : 1 ≤ month) (lastMonth : month ≤ 12) (firstDay : 1 ≤ day) (lastDay : day ≤ daysIn year month) :
    restOfDate? year (m ++ '-' :: (d ++ rest)) = some rest := by
  have hday : day ≤ 31 := lastDay.trans (daysIn_le year month)
  simp [restOfDate?, ranged?_append hm firstMonth lastMonth, expect?, ranged?_append hd firstDay hday, lastDay]

theorem restOfTime?_append {m s p : Chars} {minute second : Nat} (hm : Fixed 10 2 m minute)
    (hs : Fixed 10 2 s second) (lastMinute : minute ≤ 59) (lastSecond : second ≤ 60) (hp : PartText p)
    (point : rest.head? ≠ some '.') (digit : ∀ c ∈ rest.head?, c.isDigit = false) :
    restOfTime? (m ++ ':' :: (s ++ (p ++ rest))) = some rest := by
  simp only [restOfTime?, ranged?_append hm (Nat.zero_le _) lastMinute, Option.bind_eq_bind, Option.bind_some,
    expect?, if_true, ranged?_append hs (Nat.zero_le _) lastSecond]
  cases hp with
  | absent =>
    rw [List.nil_append]
    split
    · exact absurd rfl point
    · rfl
  | @present t some h =>
    rw [List.cons_append]
    simp only [takeWhile_run h digit, dropWhile_run h digit, if_neg some]

theorem hour?_append {h : Chars} {hour : Nat} (hh : Fixed 10 2 h hour) (lastHour : hour ≤ 23) :
    hour? (h ++ ':' :: rest) = some rest := by
  simp [hour?, ranged?_append hh (Nat.zero_le _) lastHour, expect?]

theorem offset?_append (ho : OffsetText o) (hr : EndsValue rest) : offset? (o ++ rest) = some rest := by
  cases ho with
  | absent =>
    cases rest with
    | nil => rfl
    | cons c rest =>
      have hZ : c ≠ 'Z' := fun h => hr.ne (c := 'Z') (by decide) (by rw [h]; rfl)
      have hz : c ≠ 'z' := fun h => hr.ne (c := 'z') (by decide) (by rw [h]; rfl)
      have hplus : c ≠ '+' := fun h => hr.ne (c := '+') (by decide) (by rw [h]; rfl)
      have hminus : c ≠ '-' := fun h => hr.ne (c := '-') (by decide) (by rw [h]; rfl)
      simp [offset?, hZ, hz, hplus, hminus]
  | universal hc => rcases hc with rfl | rfl <;> rfl
  | @distance c h m hour minute hc hh hm lastHour lastMinute =>
    rw [List.cons_append, List.append_assoc, List.cons_append]
    rcases hc with rfl | rfl <;>
      simp [offset?, hour?_append hh lastHour, ranged?_append hm (Nat.zero_le _) lastMinute]

/-- Behind a time stands what ends a value, or an offset. -/
theorem head_offset (ho : OffsetText o) (hr : EndsValue rest) {p : Char → Bool}
    (hp : ('Z' :: 'z' :: '+' :: '-' :: ' ' :: '\t' :: closers).any p = false) :
    ∀ c ∈ (o ++ rest).head?, p c = false := by
  have hno := List.any_eq_false.1 hp
  cases ho with
  | absent => exact hr.head (List.any_eq_false.2 (fun c hc => hno c (by simp_all)))
  | universal hc =>
    intro b hb
    cases hb
    rcases hc with rfl | rfl <;> exact Bool.eq_false_iff.2 (hno _ (by decide))
  | distance hc _ _ _ _ =>
    intro b hb
    cases hb
    rcases hc with rfl | rfl <;> exact Bool.eq_false_iff.2 (hno _ (by decide))

/-- What follows a date alone is not taken for a time. -/
theorem timeOfDate?_stop (hr : EndsValue rest) : timeOfDate? rest = some rest := by
  cases rest with
  | nil => rfl
  | cons c rest =>
    have hT : c ≠ 'T' := fun h => hr.ne (c := 'T') (by decide) (by rw [h]; rfl)
    have ht : c ≠ 't' := fun h => hr.ne (c := 't') (by decide) (by rw [h]; rfl)
    by_cases hc : c = ' '
    · subst hc
      have hhour : hour? rest = none := by
        cases hhour : hour? rest with
        | none => rfl
        | some r =>
          obtain ⟨d, rfl, hlength, hd⟩ := hour?_eq_some hhour
          obtain ⟨b, d, rfl⟩ := List.exists_cons_of_length_eq_add_one hlength
          have := hr.tail.head (p := Char.isDigit) (by decide) b rfl
          rw [hd b (.head _)] at this
          cases this
      simp [timeOfDate?, hhour]
    · simp [timeOfDate?, hT, ht, hc]

/-- A date, a time or both are read where a value ends behind them. -/
theorem moment?_append (h : MomentText s) (hr : EndsValue rest) : moment? (s ++ rest) = some (some rest) := by
  cases h with
  | date hd =>
    cases hd with
    | mk hy hm hd firstMonth lastMonth firstDay lastDay =>
      simp only [List.append_assoc, List.cons_append, moment?, fixed?_append hy,
        restOfDate?_append hm hd firstMonth lastMonth firstDay lastDay, Option.bind_eq_bind, Option.bind_some,
        timeOfDate?_stop hr]
  | time ht =>
    cases ht with
    | @mk h m s p hour minute second hh hm hs lastHour lastMinute lastSecond hp =>
      -- the colon comes too early for a year
      have hfixed : fixed? 4 (h ++ ':' :: (m ++ ':' :: (s ++ (p ++ rest)))) = none := by
        obtain ⟨a, b, rfl⟩ := List.length_eq_two.1 hh.1
        simp [fixed?]
      simp only [List.append_assoc, List.cons_append, moment?, hfixed, hour?_append hh lastHour,
        restOfTime?_append hm hs lastMinute lastSecond hp (hr.ne (by decide)) (hr.head (by decide))]
  | @both d t o c hd hc ht ho =>
    cases hd with
    | mk hy hm hd firstMonth lastMonth firstDay lastDay =>
      cases ht with
      | mk hh hm' hs lastHour lastMinute lastSecond hp =>
        have hc' : (decide (c = 'T') || decide (c = 't') || decide (c = ' ')) = true := by
          rcases hc with rfl | rfl | rfl <;> decide
        -- whatever ends the time is no fraction of a second
        have hpoint : (o ++ rest).head? ≠ some '.' := fun h =>
          absurd (head_offset ho hr (p := (· = '.')) (by decide) '.' h) (by decide)
        simp only [List.append_assoc, List.cons_append, moment?, fixed?_append hy,
          restOfDate?_append hm hd firstMonth lastMonth firstDay lastDay, Option.bind_eq_bind, Option.bind_some,
          timeOfDate?, hc', if_true, hour?_append hh lastHour,
          restOfTime?_append hm' hs lastMinute lastSecond hp hpoint (head_offset ho hr (by decide)),
          offset?_append ho hr]

end

end ShapeLedger.Toml
