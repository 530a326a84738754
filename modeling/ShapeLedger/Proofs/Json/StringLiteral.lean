/-
The reader of string literals against the grammar: it accepts exactly the literals of the grammar,
and gives the text that each denotes.

The reader undoes escapes first and looks at the encoding of the outcome afterwards, so there are two
steps here too. `Unescaped` is the first: bytes, some of which come from escapes. An escape stands for
whole characters, which neither end nor begin inside another, so where the outcome is UTF-8 the raw
bytes between escapes are whole characters as well.
-/
import ShapeLedger.Proofs.Json.Grammar
import ShapeLedger.Proofs.Text.Utf8
import ShapeLedger.Json.StringLiteral

namespace ShapeLedger.Json

open Ascii Grammar

/-! ## Escapes -/

theorem hexValue?_lt {b : UInt8} {n : Nat} (h : hexValue? b = some n) : n < 16 := by
  simp only [hexValue?, Bool.and_eq_true, decide_eq_true_eq] at h
  split at h
  · simp only [Option.some.injEq] at h; omega
  · split at h
    · simp only [Option.some.injEq] at h; omega
    · split at h
      · simp only [Option.some.injEq] at h; omega
      · cases h

theorem Grammar.Hex.lt {s : Bytes} {n : Nat} (h : Hex s n) : n < 0x10000 := by
  cases h with
  | mk ha hb hc hd =>
    have := hexValue?_lt ha
    have := hexValue?_lt hb
    have := hexValue?_lt hc
    have := hexValue?_lt hd
    omega

theorem hexNumber?_eq_some {a b c d : UInt8} {n : Nat} :
    hexNumber? a b c d = some n ↔ Hex [a, b, c, d] n := by
  constructor
  · intro h
    simp only [hexNumber?, Option.bind_eq_bind, Option.bind_eq_some_iff, Option.pure_def,
      Option.some.injEq] at h
    obtain ⟨i, hi, j, hj, k, hk, l, hl, rfl⟩ := h
    exact .mk hi hj hk hl
  · intro h
    cases h with
    | mk ha hb hc hd => simp [hexNumber?, ha, hb, hc, hd]

theorem readHex_eq_ok {s r : Bytes} {n : Nat} : readHex s = .ok (n, r) ↔ ∃ h, s = h ++ r ∧ Hex h n := by
  constructor
  · intro h
    unfold readHex at h
    split at h
    · split at h
      · next hx =>
        cases h
        exact ⟨_, rfl, hexNumber?_eq_some.1 hx⟩
      · cases h
    · cases h
  · rintro ⟨t, rfl, h⟩
    cases h with
    | mk ha hb hc hd =>
      have hx := hexNumber?_eq_some.2 (.mk ha hb hc hd)
      simp only [List.cons_append, List.nil_append, readHex, hx]

theorem readTrailing_eq_ok {high : Nat} {s r : Bytes} {n : Nat} :
    readTrailing high s = .ok (n, r) ↔
      ∃ t low, s = backslash :: lowerU :: (t ++ r) ∧ Hex t low ∧ isTrailingSurrogate low = true ∧
        n = surrogatePair high low := by
  constructor
  · intro h
    unfold readTrailing at h
    split at h
    · cases h
    · next b u =>
      split at h
      · cases h
      · next hb =>
        split at h
        · cases h
        · next c t =>
          split at h
          · cases h
          · next hc =>
            split at h
            · cases h
            · next low v hx =>
              split at h
              · next ht =>
                simp only [Except.ok.injEq, Prod.mk.injEq] at h
                obtain ⟨rfl, rfl⟩ := h
                obtain ⟨d, rfl, hd⟩ := readHex_eq_ok.1 hx
                rw [ne_eq, not_not] at hb hc
                exact ⟨d, low, by rw [hb, hc], hd, ht, rfl⟩
              · cases h
  · rintro ⟨t, low, rfl, ht, hl, hn⟩
    have hx : readHex (t ++ r) = .ok (low, r) := readHex_eq_ok.2 ⟨t, rfl, ht⟩
    simp only [readTrailing, ne_eq, not_true_eq_false, if_false, hx, hl, if_true, hn]

theorem isLeadingSurrogate_iff {n : Nat} : isLeadingSurrogate n = true ↔ 0xD800 ≤ n ∧ n ≤ 0xDBFF := by
  simp [isLeadingSurrogate]

theorem isTrailingSurrogate_iff {n : Nat} : isTrailingSurrogate n = true ↔ 0xDC00 ≤ n ∧ n ≤ 0xDFFF := by
  simp [isTrailingSurrogate]

theorem letters_ne {b : UInt8} {c : Char} (h : (b, c) ∈ letters) : b ≠ lowerU := by
  have hall : ∀ x ∈ letters, x.1 ≠ lowerU := by decide
  exact hall _ h

/-- The escapes of code points: one that is no surrogate, or a surrogate pair. -/
theorem readCodePoint_eq_ok {s r : Bytes} {n : Nat} :
    readCodePoint s = .ok (n, r) ↔ ∃ e c, s = e ++ r ∧ Escape (lowerU :: e) c ∧ n = c.toNat := by
  constructor
  · intro h
    unfold readCodePoint at h
    split at h
    · cases h
    · next m u hx =>
      obtain ⟨d, rfl, hd⟩ := readHex_eq_ok.1 hx
      have hlt := hd.lt
      split at h
      · cases h
      · next ht =>
        -- a trailing surrogate cannot come first; a leading one needs the next, and any other unit is a character
        rw [isTrailingSurrogate_iff] at ht
        split at h
        · next hl =>
          rw [isLeadingSurrogate_iff] at hl
          obtain ⟨t, low, rfl, hlow, htr, hn⟩ := readTrailing_eq_ok.1 h
          rw [isTrailingSurrogate_iff] at htr
          unfold surrogatePair at hn
          have hc : (Char.ofNat n).toNat = n := Utf8.toNat_ofNat_char (by omega)
          exact ⟨d ++ backslash :: lowerU :: t, _, by simp only [List.append_assoc, List.cons_append],
            .pair hd hlow hl htr (hc.trans hn), hc.symm⟩
        · next hl =>
          rw [isLeadingSurrogate_iff] at hl
          simp only [Except.ok.injEq, Prod.mk.injEq] at h
          obtain ⟨rfl, rfl⟩ := h
          have hc : (Char.ofNat m).toNat = m := Utf8.toNat_ofNat_char (by omega)
          exact ⟨d, _, rfl, .codePoint (hc.symm ▸ hd), hc.symm⟩
  · rintro ⟨e, c, rfl, he, rfl⟩
    have hv := Utf8.toNat_valid c
    cases he with
    | letter h => exact absurd rfl (letters_ne h)
    | codePoint h =>
      -- a character is no surrogate
      have ht : isTrailingSurrogate c.toNat = false := by
        rw [Bool.eq_false_iff, Ne, isTrailingSurrogate_iff]; omega
      have hl : isLeadingSurrogate c.toNat = false := by
        rw [Bool.eq_false_iff, Ne, isLeadingSurrogate_iff]; omega
      have hx : readHex (e ++ r) = .ok (c.toNat, r) := readHex_eq_ok.2 ⟨e, rfl, h⟩
      simp only [readCodePoint, hx, ht, hl, Bool.false_eq_true, if_false]
    | @pair s t high low _ hs ht leading trailing hc =>
      have hx : readHex (s ++ backslash :: lowerU :: t ++ r) =
          .ok (high, backslash :: lowerU :: (t ++ r)) :=
        readHex_eq_ok.2 ⟨s, by simp only [List.append_assoc, List.cons_append], hs⟩
      have htr : isTrailingSurrogate high = false := by
        rw [Bool.eq_false_iff, Ne, isTrailingSurrogate_iff]; omega
      simp only [readCodePoint, hx, htr, isLeadingSurrogate_iff.2 leading, if_true, Bool.false_eq_true,
        if_false]
      exact readTrailing_eq_ok.2 ⟨t, low, rfl, ht, isTrailingSurrogate_iff.2 trailing, hc⟩

theorem escaped?_eq_some {b x : UInt8} :
    escaped? b = some x ↔ ∃ c, (b, c) ∈ letters ∧ Utf8.encodeCodePoint c.toNat = [x] := by
  constructor
  · intro h
    simp only [escaped?, Bool.or_eq_true, decide_eq_true_eq] at h
    split at h
    · next hb =>
      cases h
      rcases hb with (rfl | rfl) | rfl
      · exact ⟨'"', by decide, rfl⟩
      · exact ⟨'\\', by decide, rfl⟩
      · exact ⟨'/', by decide, rfl⟩
    · split at h
      · next hb => cases h; exact ⟨'\x08', by rw [hb]; decide, rfl⟩
      · split at h
        · next hb => cases h; exact ⟨'\x0C', by rw [hb]; decide, rfl⟩
        · split at h
          · next hb => cases h; exact ⟨'\n', by rw [hb]; decide, rfl⟩
          · split at h
            · next hb => cases h; exact ⟨'\r', by rw [hb]; decide, rfl⟩
            · split at h
              · next hb => cases h; exact ⟨'\t', by rw [hb]; decide, rfl⟩
              · cases h
  · rintro ⟨c, h, hx⟩
    have hall : ∀ p ∈ letters,
        (escaped? p.1).map (fun x => [x]) = some (Utf8.encodeCodePoint p.2.toNat) := by
      decide
    have hb := hall _ h
    simp only [hx, Option.map_eq_some_iff, List.singleton_inj] at hb
    obtain ⟨y, hy, rfl⟩ := hb
    exact hy

/-- The reader of escapes accepts those of the grammar, and gives the bytes of their characters. -/
theorem readEscape_eq_ok {s r bs : Bytes} :
    readEscape s = .ok (bs, r) ↔
      ∃ e c, s = e ++ r ∧ Escape e c ∧ bs = Utf8.encodeCodePoint c.toNat := by
  constructor
  · intro h
    unfold readEscape at h
    split at h
    · cases h
    · next b t =>
      split at h
      · next hb =>
        split at h
        · cases h
        · next n u hn =>
          cases h
          obtain ⟨e, c, rfl, he, rfl⟩ := readCodePoint_eq_ok.1 hn
          exact ⟨lowerU :: e, c, by rw [hb]; rfl, he, rfl⟩
      · split at h
        · next x hx =>
          cases h
          obtain ⟨c, hc, hcx⟩ := escaped?_eq_some.1 hx
          exact ⟨[b], c, rfl, .letter hc, hcx.symm⟩
        · cases h
  · rintro ⟨e, c, rfl, he, rfl⟩
    -- both forms with hexadecimal digits are read in the same way
    have hu {d : Bytes} (hd : Escape (lowerU :: d) c) :
        readEscape (lowerU :: (d ++ r)) = .ok (Utf8.encodeCodePoint c.toNat, r) := by
      have hx : readCodePoint (d ++ r) = .ok (c.toNat, r) := readCodePoint_eq_ok.2 ⟨d, c, rfl, hd, rfl⟩
      simp only [readEscape, if_true, hx]
    cases he with
    | @letter b _ h =>
      obtain ⟨x, hx⟩ : ∃ x, Utf8.encodeCodePoint c.toNat = [x] := by
        have hall : ∀ p ∈ letters, (Utf8.encodeCodePoint p.2.toNat).length = 1 := by decide
        exact List.length_eq_one_iff.1 (hall _ h)
      simp only [List.cons_append, List.nil_append, readEscape, letters_ne h, if_false,
        escaped?_eq_some.2 ⟨c, h, hx⟩, hx]
    | codePoint h => exact hu (.codePoint h)
    | pair hs ht leading trailing hc => exact hu (.pair hs ht leading trailing hc)

/-! ## Bytes between the quotes -/

/-- Bytes between quotes, and those that they stand for: raw ones, and the characters of escapes. -/
inductive Unescaped : Bytes → Bytes → Prop where
  | nil : Unescaped [] []
  | raw {b : UInt8} {s t : Bytes} (hq : b ≠ quote) (hb : b ≠ backslash) (hc : ¬ b < space)
      (tail : Unescaped s t) : Unescaped (b :: s) (b :: t)
  | escape {e s t : Bytes} {c : Char} (he : Escape e c) (tail : Unescaped s t) :
      Unescaped (backslash :: (e ++ s)) (Utf8.encodeCodePoint c.toNat ++ t)

theorem readLiteral_unescaped {done s bs r : Bytes} (h : readLiteral done s = .ok (bs, r)) :
    ∃ body t, s = body ++ quote :: r ∧ Unescaped body t ∧ bs = done.reverse ++ t := by
  fun_induction readLiteral done s with
  | case1 => cases h
  | case2 done r =>
    cases h
    exact ⟨[], [], rfl, .nil, (List.append_nil _).symm⟩
  | case3 => cases h
  | case4 done r bs' t he _ ih =>
    obtain ⟨body, u, rfl, hu, rfl⟩ := ih h
    obtain ⟨e, c, rfl, hc, rfl⟩ := readEscape_eq_ok.1 he
    refine ⟨backslash :: (e ++ body), _, ?_, .escape hc hu, ?_⟩
    · rw [List.cons_append, List.append_assoc]
    · rw [List.reverse_append, List.reverse_reverse, List.append_assoc]
  | case5 => cases h
  | case6 done b r hq hb hc ih =>
    obtain ⟨body, u, rfl, hu, rfl⟩ := ih h
    refine ⟨b :: body, _, rfl, .raw hq hb hc hu, ?_⟩
    rw [List.reverse_cons, List.append_assoc]
    rfl

theorem readLiteral_of_unescaped {body t : Bytes} (h : Unescaped body t) (done r : Bytes) :
    readLiteral done (body ++ quote :: r) = .ok (done.reverse ++ t, r) := by
  induction h generalizing done with
  | nil => rw [List.nil_append, readLiteral, if_pos rfl, List.append_nil]
  | raw hq hb hc _ ih =>
    rw [List.cons_append, readLiteral, if_neg hq, if_neg hb, if_neg hc, ih, List.reverse_cons,
      List.append_assoc]
    rfl
  | @escape e s t c he _ ih =>
    have hr : readEscape (e ++ (s ++ quote :: r)) = .ok (Utf8.encodeCodePoint c.toNat, s ++ quote :: r) :=
      readEscape_eq_ok.2 ⟨e, c, rfl, he, rfl⟩
    rw [List.cons_append, List.append_assoc, readLiteral, if_neg (by decide), if_pos rfl]
    split
    · next hf => rw [hr] at hf; cases hf
    · next he' =>
      rw [hr] at he'
      cases he'
      rw [ih, List.reverse_append, List.reverse_reverse, List.append_assoc]

/-! ## Characters -/

/-- Bytes that stand for themselves between the quotes. -/
def IsRaw (b : UInt8) : Prop := b ≠ quote ∧ b ≠ backslash ∧ ¬ b < space

/-- The characters that may be written plainly are those whose bytes stand for themselves. -/
theorem plain_iff {c : Char} :
    (c ≠ '"' ∧ c ≠ '\\' ∧ ' ' ≤ c) ↔ ∀ b ∈ Utf8.encodeCodePoint c.toNat, IsRaw b := by
  have hq : c = '"' ↔ c.toNat = 0x22 := by rw [← Char.toNat_inj]; rfl
  have hb : c = '\\' ↔ c.toNat = 0x5C := by rw [← Char.toNat_inj]; rfl
  have hs : ' ' ≤ c ↔ 0x20 ≤ c.toNat := Iff.rfl
  have raw {b : UInt8} : IsRaw b ↔ b.toNat ≠ 0x22 ∧ b.toNat ≠ 0x5C ∧ 0x20 ≤ b.toNat := by
    simp only [IsRaw, ne_eq, ← UInt8.toNat_inj, UInt8.lt_iff_toNat_lt, Nat.not_lt]; rfl
  rw [ne_eq, ne_eq, hq, hb, hs]
  by_cases h : c.toNat < 0x80
  · rw [Utf8.encodeCodePoint_ascii h, List.forall_mem_singleton, raw, Utf8.toNat_ofNat_byte (by omega)]
  · refine iff_of_true (by omega) ?_
    obtain ⟨a, tails, hc, ha, ht⟩ := Utf8.encodeCodePoint_wide (c := c) (by omega)
    rw [hc, List.forall_mem_cons]
    refine ⟨raw.2 (by omega), fun b hb => raw.2 ?_⟩
    have := Utf8.isTail_iff.1 (ht b hb)
    omega

/-- Continuation bytes do not come from escapes. -/
theorem Unescaped.of_tails {s t tails : Bytes} (ht : ∀ b ∈ tails, Utf8.isTail b = true)
    (h : Unescaped s (tails ++ t)) :
    ∃ s', s = tails ++ s' ∧ Unescaped s' t ∧ ∀ b ∈ tails, IsRaw b := by
  induction tails generalizing s with
  | nil => exact ⟨s, rfl, h, by simp⟩
  | cons b tails ih =>
    rw [List.forall_mem_cons] at ht
    generalize hu : b :: tails ++ t = u at h
    cases h with
    | nil => cases hu
    | raw hq hb hc tail =>
      cases hu
      obtain ⟨s', rfl, hs', hraw⟩ := ih ht.2 tail
      exact ⟨s', rfl, hs', List.forall_mem_cons.2 ⟨⟨hq, hb, hc⟩, hraw⟩⟩
    | @escape _ _ _ c _ _ =>
      obtain ⟨a, as, hc, ha, -⟩ := Utf8.encodeCodePoint_eq_cons c
      rw [hc] at hu
      rw [← (List.cons.inj hu).1, ht.1] at ha
      cases ha

theorem Unescaped.of_nil {s : Bytes} (h : Unescaped s []) : s = [] := by
  generalize hu : ([] : Bytes) = u at h
  cases h with
  | nil => rfl
  | raw => cases hu
  | @escape _ _ _ c _ _ =>
    obtain ⟨a, as, hc, -⟩ := Utf8.encodeCodePoint_eq_cons c
    rw [hc] at hu
    cases hu

/-- Where a character comes out, one was written. -/
theorem Unescaped.head {s t : Bytes} {c : Char} (h : Unescaped s (Utf8.encodeCodePoint c.toNat ++ t)) :
    ∃ x y, s = x ++ y ∧ Character x c ∧ Unescaped y t := by
  obtain ⟨a, tails, hc, ha, ht⟩ := Utf8.encodeCodePoint_eq_cons c
  generalize hu : Utf8.encodeCodePoint c.toNat ++ t = u at h
  cases h with
  | nil => rw [hc] at hu; cases hu
  | raw hq hb hctl tail =>
    rw [hc] at hu
    cases hu
    obtain ⟨s', rfl, hs', hraw⟩ := Unescaped.of_tails ht tail
    have hall : ∀ b ∈ Utf8.encodeCodePoint c.toNat, IsRaw b := by
      rw [hc]
      exact List.forall_mem_cons.2 ⟨⟨hq, hb, hctl⟩, hraw⟩
    obtain ⟨h1, h2, h3⟩ := plain_iff.2 hall
    have hplain : Character (a :: tails) c := hc ▸ .plain h1 h2 h3
    exact ⟨a :: tails, s', rfl, hplain, hs'⟩
  | escape he tail =>
    obtain ⟨rfl, rfl⟩ := Utf8.encodeCodePoint_append_inj hu
    exact ⟨_, _, rfl, .escape he, tail⟩

theorem Unescaped.raws {raws s t : Bytes} (hr : ∀ b ∈ raws, IsRaw b) (h : Unescaped s t) :
    Unescaped (raws ++ s) (raws ++ t) := by
  induction raws with
  | nil => exact h
  | cons b raws ih =>
    rw [List.forall_mem_cons] at hr
    exact .raw hr.1.1 hr.1.2.1 hr.1.2.2 (ih hr.2)

/-- Bytes between quotes stand for the bytes of a text exactly if they are its characters. -/
theorem unescaped_iff {s : Bytes} {cs : List Char} :
    Unescaped s (cs.flatMap (fun c => Utf8.encodeCodePoint c.toNat)) ↔ Characters s cs := by
  constructor
  · intro h
    induction cs generalizing s with
    | nil => rw [h.of_nil]; exact .nil
    | cons c cs ih =>
      rw [List.flatMap_cons] at h
      obtain ⟨x, y, rfl, hx, hy⟩ := h.head
      exact .cons hx (ih hy)
  · intro h
    induction h with
    | nil => exact .nil
    | cons head _ ih =>
      rw [List.flatMap_cons]
      cases head with
      | plain h1 h2 h3 => exact ih.raws (plain_iff.1 ⟨h1, h2, h3⟩)
      | escape he => exact .escape he ih

/-- The characters that come out first were written first. -/
theorem Unescaped.split {s t : Bytes} {cs : List Char}
    (h : Unescaped s (cs.flatMap (fun c => Utf8.encodeCodePoint c.toNat) ++ t)) :
    ∃ x y, s = x ++ y ∧ Characters x cs ∧ Unescaped y t := by
  induction cs generalizing s with
  | nil => exact ⟨[], s, rfl, .nil, h⟩
  | cons c cs ih =>
    rw [List.flatMap_cons, List.append_assoc] at h
    obtain ⟨z, s, rfl, hz, hs⟩ := h.head
    obtain ⟨x, y, rfl, hx, hy⟩ := ih hs
    exact ⟨z ++ x, y, (List.append_assoc z x y).symm, .cons hz hx, hy⟩

/-! ## Literals -/

/-- The reader accepts the literals of the grammar, from behind the opening quote, and gives the text
that each denotes. -/
theorem readString_eq_ok {s r : Bytes} {t : String} :
    readString s = .ok (t, r) ↔ ∃ q, quote :: s = q ++ r ∧ Quoted q t := by
  constructor
  · intro h
    unfold readString at h
    split at h
    · cases h
    · next bytes u hl =>
      split at h
      · next cs hd =>
        cases h
        obtain ⟨body, x, rfl, hx, hbytes⟩ := readLiteral_unescaped hl
        rw [List.reverse_nil, List.nil_append] at hbytes
        rw [← hbytes, Utf8.decodePrefix_eq_nil.1 hd, unescaped_iff] at hx
        refine ⟨quote :: (body ++ [quote]), ?_, .mk (by rwa [String.toList_ofList])⟩
        simp only [List.cons_append, List.append_assoc, List.nil_append]
      · cases h
  · rintro ⟨q, hq, h⟩
    cases h with
    | @mk body _ h =>
      simp only [List.cons_append, List.append_assoc, List.nil_append, List.cons.injEq, true_and] at hq
      subst hq
      have hl := readLiteral_of_unescaped (unescaped_iff.2 h) [] r
      rw [List.reverse_nil, List.nil_append] at hl
      have hd := Utf8.decodePrefix_encode t
      rw [Utf8.encode] at hd
      simp only [readString, hl, hd, String.ofList_toList]

end ShapeLedger.Json
