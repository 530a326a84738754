/-
The reader takes the blanks, strings and keys of the grammar, whatever may follow them.
-/
import Mathlib.Data.List.DropRight
import ShapeLedger.Proofs.Toml.Grammar

namespace ShapeLedger.Toml

open Grammar

/-! ## Runs of characters -/

section
variable {p : Char → Bool} {t rest : Chars}

theorem dropWhile_run (h : ∀ c ∈ t, p c = true) (stop : ∀ c ∈ rest.head?, p c = false) :
    (t ++ rest).dropWhile p = rest := by
  rw [List.dropWhile_append_of_pos h]
  cases rest with
  | nil => rfl
  | cons c rest => rw [List.dropWhile_cons_of_neg (by simp [stop c rfl])]

theorem takeWhile_run (h : ∀ c ∈ t, p c = true) (stop : ∀ c ∈ rest.head?, p c = false) :
    (t ++ rest).takeWhile p = t := by
  rw [List.takeWhile_append_of_pos h]
  cases rest with
  | nil => simp
  | cons c rest => rw [List.takeWhile_cons_of_neg (by simp [stop c rfl]), List.append_nil]

end

/-! ## Blanks, comments and line ends -/

section
variable {w s t r tail rest : Chars} {c : Char}

@[simp] theorem isBlank_iff : isBlank c = true ↔ c = ' ' ∨ c = '\t' := by simp [isBlank]

theorem isPlain_iff : isPlain c = true ↔ Plain c := by simp [isPlain, Plain]

theorem newline?_append (h : LineEnd w) : newline? (w ++ rest) = some rest := by
  cases h <;> rfl

/-- A line end is one of two, and neither begins with a blank or a character of a comment. -/
theorem Grammar.LineEnd.eq_cons (h : LineEnd w) :
    ∃ c t, w = c :: t ∧ isBlank c = false ∧ isPlain c = false ∧ (c = '\n' ∨ c = '\r') := by
  cases h
  · exact ⟨'\n', [], rfl, by decide, by decide, .inl rfl⟩
  · exact ⟨'\r', ['\n'], rfl, by decide, by decide, .inr rfl⟩

theorem skipBlanks_append (h : Blanks w) : skipBlanks (w ++ rest) = skipBlanks rest := by
  induction w with
  | nil => rfl
  | cons c w ih =>
    have hc : isBlank c = true := isBlank_iff.2 (h c (.head _))
    rw [List.cons_append, skipBlanks, List.dropWhile_cons_of_pos hc]
    exact ih (fun x hx => h x (.tail _ hx))

theorem skipBlanks_cons (h : isBlank c = false) : skipBlanks (c :: rest) = c :: rest := by
  rw [skipBlanks, List.dropWhile_cons_of_neg (by simp [h])]

theorem skipBlanks_skipBlanks (s : Chars) : skipBlanks (skipBlanks s) = skipBlanks s :=
  List.dropWhile_idempotent _ s

/-- The end of a line: the end of the text, or a line end and the text behind it. -/
inductive Grammar.Onward : Chars → Chars → Prop where
  | stop : Onward [] []
  | line {e t : Chars} (he : LineEnd e) : Onward (e ++ t) t

theorem Grammar.Onward.head (h : Onward tail t) :
    ∀ c ∈ tail.head?, isBlank c = false ∧ isPlain c = false ∧ (c = '\n' ∨ c = '\r') := by
  intro c hc
  cases h with
  | stop => cases hc
  | line he =>
    obtain ⟨d, u, rfl, hd⟩ := he.eq_cons
    cases hc
    exact hd

theorem Grammar.Onward.skipBlanks (h : Onward tail t) : skipBlanks tail = tail := by
  cases tail with
  | nil => rfl
  | cons c tail => exact skipBlanks_cons (h.head c rfl).1

theorem Grammar.Onward.endLine? (h : Onward tail t) (hs : skipComment (Toml.skipBlanks s) = tail) :
    endLine? s = some t := by
  rw [Toml.endLine?, hs]
  cases h with
  | stop => rfl
  | @line e t he =>
    have hn : newline? (e ++ t) = some t := newline?_append he
    obtain ⟨c, u, rfl, -⟩ := he.eq_cons
    exact hn

theorem skipComment_append (hs : Comment s) (h : Onward tail t) : skipComment (s ++ tail) = tail := by
  obtain ⟨u, rfl, hu⟩ := hs
  exact dropWhile_run (fun c hc => isPlain_iff.2 (hu c hc)) (fun c hc => (h.head c hc).2.1)

theorem endLine?_comment (hs : Comment s) (h : Onward tail t) : endLine? (s ++ tail) = some t := by
  refine h.endLine? ?_
  have hcons : skipBlanks (s ++ tail) = s ++ tail := by
    obtain ⟨u, rfl, -⟩ := hs
    exact skipBlanks_cons (by decide)
  rw [hcons, skipComment_append hs h]

/-- Nothing is left on a line behind its last token. -/
theorem endLine?_append (hr : Remark r) (h : Onward tail t) : endLine? (r ++ tail) = some t := by
  cases hr with
  | blank hw =>
    have hcomment : skipComment tail = tail := by
      unfold skipComment
      split
      · have := (h.head '#' rfl).2.2
        contradiction
      · rfl
    exact h.endLine? (by rw [skipBlanks_append hw, h.skipBlanks, hcomment])
  | comment hw hu =>
    rw [← endLine?_comment hu h, List.append_assoc]
    simp only [endLine?, skipBlanks_append hw]

end

/-! ## Gaps -/

section
variable {w t e rest : Chars} {c : Char}

theorem skipGap_blank (h : isBlank c = true) : skipGap false (c :: rest) = skipGap false rest := by
  simp [skipGap, h]

theorem skipGap_line {inComment : Bool} (he : LineEnd e) :
    skipGap inComment (e ++ rest) = skipGap false rest := by
  have hfeed (inComment : Bool) : skipGap inComment ('\n' :: rest) = skipGap false rest := by
    simp [skipGap, isPlain]
  cases he with
  | feed => exact hfeed inComment
  | both =>
    rw [List.cons_append, List.cons_append, List.nil_append]
    rw [skipGap, if_neg (by simp [isPlain]), if_neg (by decide), if_pos (by simp)]
    exact hfeed false

theorem skipGap_comment (ht : ∀ c ∈ t, Plain c) : skipGap true (t ++ rest) = skipGap true rest := by
  induction t with
  | nil => rfl
  | cons c t ih =>
    have hc : isPlain c = true := isPlain_iff.2 (ht c (.head _))
    rw [List.cons_append, skipGap, if_pos (by simp [hc])]
    exact ih (fun x hx => ht x (.tail _ hx))

/-- A gap is passed over whole. -/
theorem skipGap_append (h : Gap w) : skipGap false (w ++ rest) = skipGap false rest := by
  induction h with
  | nil => rfl
  | blank hc _ ih => rw [List.cons_append, skipGap_blank (isBlank_iff.2 hc), ih]
  | line he _ ih => rw [List.append_assoc, skipGap_line he, ih]
  | comment ht he _ ih =>
    obtain ⟨u, rfl, hu⟩ := ht
    rw [List.cons_append, List.cons_append, List.append_assoc, List.append_assoc, skipGap, if_neg (by simp),
      if_neg (by decide), if_neg (by simp), if_pos rfl, skipGap_comment hu, skipGap_line he, ih]

theorem skipGap_cons (blank : isBlank c = false) (feed : c ≠ '\n') (both : c ≠ '\r') (comment : c ≠ '#') :
    skipGap false (c :: rest) = c :: rest := by
  simp [skipGap, blank, feed, both, comment]

end

/-! ## Escapes -/

section
variable {e digits rest : Chars} {c : Char}

/-- Digits are read as the number that they make. -/
theorem foldlM_hexDigit? (h : ∀ d ∈ digits, isDigitOf 16 d = true) (n : Nat) :
    digits.foldlM (fun n d => (hexDigit? d).map (n * 16 + ·)) n =
      some (digits.foldl (fun n d => n * 16 + (hexDigit? d).getD 0) n) := by
  induction digits generalizing n with
  | nil => rfl
  | cons d digits ih =>
    obtain ⟨k, hk⟩ : ∃ k, hexDigit? d = some k := by
      have hd := h d (.head _)
      simp only [isDigitOf, Option.any_eq_true] at hd
      obtain ⟨k, hk, -⟩ := hd
      exact ⟨k, hk⟩
    rw [List.foldlM_cons, List.foldl_cons, hk]
    exact ih (fun x hx => h x (.tail _ hx)) _

theorem scalar?_eq {n : Nat} (h : Fixed 16 n digits c.toNat) : scalar? digits = some c := by
  obtain ⟨-, hdigits, hnumber⟩ := h
  have hvalid : c.toNat < 0xD800 ∨ 0xDFFF < c.toNat ∧ c.toNat < 0x110000 := c.valid
  simp only [number] at hnumber
  simp only [scalar?, foldlM_hexDigit? hdigits, hnumber, Option.bind_eq_bind, Option.bind_some]
  rw [if_pos (by simpa using hvalid), Char.ofNat_toNat]

theorem numbered?_append {n : Nat} (h : Fixed 16 n digits c.toNat) :
    numbered? n (digits ++ rest) = some (c, rest) := by
  obtain rfl := h.1
  rw [numbered?, if_neg (by simp), List.take_left, List.drop_left, scalar?_eq h]

theorem escape?_append (h : Escape e c) : escape? (e ++ rest) = some (c, rest) := by
  cases h with
  | letter h =>
    simp only [letters, List.mem_cons, List.not_mem_nil, or_false, Prod.mk.injEq] at h
    rcases h with ⟨rfl, rfl⟩ | ⟨rfl, rfl⟩ | ⟨rfl, rfl⟩ | ⟨rfl, rfl⟩ | ⟨rfl, rfl⟩ | ⟨rfl, rfl⟩ | ⟨rfl, rfl⟩ <;> rfl
  | short h => simp [escape?, numbered?_append h]
  | long h => simp [escape?, numbered?_append h]

/-- An escape is not a line end. -/
theorem joined?_escape (h : Escape e c) : joined? (e ++ rest) = none := by
  have hcons {b : Char} {t : Chars} (hblank : isBlank b = false) (hfeed : b ≠ '\n') (hreturn : b ≠ '\r') :
      joined? (b :: t) = none := by
    rw [joined?, skipBlanks_cons hblank]
    simp [newline?, hfeed, hreturn]
  cases h with
  | letter h =>
    simp only [letters, List.mem_cons, List.not_mem_nil, or_false, Prod.mk.injEq] at h
    rcases h with ⟨rfl, rfl⟩ | ⟨rfl, rfl⟩ | ⟨rfl, rfl⟩ | ⟨rfl, rfl⟩ | ⟨rfl, rfl⟩ | ⟨rfl, rfl⟩ | ⟨rfl, rfl⟩ <;>
      exact hcons (by decide) (by decide) (by decide)
  | short h => exact hcons (by decide) (by decide) (by decide)
  | long h => exact hcons (by decide) (by decide) (by decide)

end

/-! ## Strings on one line -/

section
variable {t s r done rest : Chars} {c : Char}

theorem basicString?_escape (h : escape? r = some (c, t)) :
    basicString? done ('\\' :: r) = basicString? (c :: done) t := by
  rw [basicString?, if_neg (by decide), if_pos rfl]
  split <;> simp_all

theorem basicString?_append (h : Basic t s) :
    basicString? done (t ++ '"' :: rest) = some (done.reverse ++ s, rest) := by
  induction h generalizing done with
  | nil => rw [List.nil_append, basicString?, if_pos rfl, List.append_nil]
  | @plain c t s hc quote backslash _ ih =>
    rw [List.cons_append, basicString?, if_neg quote, if_neg backslash, if_pos (isPlain_iff.2 hc), ih,
      List.reverse_cons, List.append_assoc, List.singleton_append]
  | @escape e t s c he _ ih =>
    rw [List.cons_append, List.append_assoc, basicString?_escape (escape?_append he), ih, List.reverse_cons,
      List.append_assoc, List.singleton_append]

/-- A string on one line does not begin with the quote that ends it. -/
theorem Grammar.Basic.head (h : Basic t s) : t.head? ≠ some '"' := by
  cases h with
  | nil => simp
  | plain _ quote _ _ => simpa using quote
  | escape _ _ => simp

theorem literalString?_append (h : Literal t) : literalString? (t ++ '\x27' :: rest) = some (t, rest) := by
  have hin : ∀ c ∈ t, (isPlain c && decide (c ≠ '\x27')) = true := by
    intro c hc
    simp [isPlain_iff.2 (h c hc).1, (h c hc).2]
  have stop : ∀ c ∈ ('\x27' :: rest).head?, (isPlain c && decide (c ≠ '\x27')) = false := by simp
  simp only [literalString?, dropWhile_run hin stop, takeWhile_run hin stop]

end

/-! ## Strings over several lines -/

section
variable {quote : Char} {n : Nat} {t s w done rest : Chars}

theorem takeWhile_quotes (stop : rest.head? ≠ some quote) :
    (List.replicate n quote ++ rest).takeWhile (· = quote) = List.replicate n quote := by
  refine takeWhile_run (by simp) (fun c hc => decide_eq_false ?_)
  rintro rfl
  exact stop hc

/-- Quotes in front of the three that close a string belong to it. -/
theorem closing?_append (hn : n ≤ 2) (stop : rest.head? ≠ some quote) :
    closing? quote (List.replicate n quote ++ quote :: quote :: quote :: rest) =
      some (List.replicate n quote, rest) := by
  have hquotes : List.replicate n quote ++ quote :: quote :: quote :: rest =
      List.replicate (n + 3) quote ++ rest := by
    rw [List.replicate_add, List.append_assoc]
    rfl
  have hmin : min (n + 3) 5 = n + 3 := by omega
  rw [hquotes, closing?, takeWhile_quotes stop, List.length_replicate, hmin, if_neg (by omega),
    Nat.add_sub_cancel, List.drop_left' List.length_replicate]

/-- Fewer than three quotes do not close a string. -/
theorem closing?_of_lt (hn : n < 3) (stop : rest.head? ≠ some quote) :
    closing? quote (List.replicate n quote ++ rest) = none := by
  have hmin : min n 5 = n := by omega
  rw [closing?, takeWhile_quotes stop, List.length_replicate, hmin, if_pos hn]

theorem skipLines_blank {c : Char} (h : isBlank c = true) :
    joined?.skipLines (c :: rest) = joined?.skipLines rest := by
  simp [joined?.skipLines, h]

theorem skipLines_append (h : Joint w) (stop : ∀ c ∈ rest.head?, c ≠ ' ' ∧ c ≠ '\t' ∧ c ≠ '\n' ∧ c ≠ '\r') :
    joined?.skipLines (w ++ rest) = rest := by
  induction h with
  | nil =>
    cases rest with
    | nil => rfl
    | cons c rest =>
      obtain ⟨hspace, htab, hfeed, hreturn⟩ := stop c rfl
      simp [joined?.skipLines, isBlank, hspace, htab, hfeed, hreturn]
  | blank hc _ ih => rw [List.cons_append, skipLines_blank (isBlank_iff.2 hc), ih]
  | line he _ ih =>
    have hfeed {u : Chars} : joined?.skipLines ('\n' :: u) = joined?.skipLines u := by simp [joined?.skipLines]
    cases he with
    | feed => rw [List.append_assoc, List.singleton_append, hfeed, ih]
    | both =>
      rw [List.append_assoc, List.cons_append, List.singleton_append, joined?.skipLines, if_neg (by decide),
        if_pos (by simp), hfeed, ih]

/-- The quotes at the head of what stands in a long string: there is nothing else, or something that is no
quote follows them. -/
inductive Headed (quote : Char) (n : Nat) : Chars → Chars → Prop where
  | all : Headed quote n (List.replicate n quote) (List.replicate n quote)
  | more {t s : Chars} {c : Char} (hc : c ≠ quote) : Headed quote n (List.replicate n quote ++ c :: t) s

theorem Headed.cons (h : Headed quote n t s) : Headed quote (n + 1) (quote :: t) (quote :: s) := by
  cases h with
  | all => exact .all
  | more hc => exact .more hc

/-- What the reader finds where quotes are at the head: the end of the string, or a quote of it. -/
theorem Headed.closing? (h : Headed quote n t s) (hn : n ≤ 2) (stop : rest.head? ≠ some quote) :
    closing? quote (t ++ quote :: quote :: quote :: rest) = some (s, rest) ∨
    closing? quote (t ++ quote :: quote :: quote :: rest) = none := by
  cases h with
  | all => exact .inl (closing?_append hn stop)
  | more hc =>
    rw [List.append_assoc, List.cons_append]
    exact .inr (closing?_of_lt (by omega) (by simpa using hc))

theorem Grammar.LineEnd.ne_nil (h : LineEnd w) : w ≠ [] := by cases h <;> simp

/-- A line end at the head of a text is no quote. -/
theorem Headed.line {e : Chars} (he : LineEnd e) (hfeed : quote ≠ '\n') (hreturn : quote ≠ '\r') :
    Headed quote 0 (e ++ t) s := by
  cases he with
  | feed => exact .more hfeed.symm
  | both => exact .more hreturn.symm

theorem Grammar.LongBasic.headed (h : LongBasic n t s) : n ≤ 2 ∧ Headed '"' n t s := by
  induction h with
  | nil => exact ⟨Nat.zero_le _, .all⟩
  | quote hn _ ih => exact ⟨hn, ih.2.cons⟩
  | plain _ quote _ _ _ => exact ⟨Nat.zero_le _, .more quote⟩
  | line he _ _ => exact ⟨Nat.zero_le _, .line he (by decide) (by decide)⟩
  | escape _ _ _ => exact ⟨Nat.zero_le _, .more (by decide)⟩
  | joined _ _ _ _ _ _ => exact ⟨Nat.zero_le _, .more (by decide)⟩

theorem Grammar.LongLiteral.headed (h : LongLiteral n t s) : n ≤ 2 ∧ Headed '\x27' n t s := by
  induction h with
  | nil => exact ⟨Nat.zero_le _, .all⟩
  | quote hn _ ih => exact ⟨hn, ih.2.cons⟩
  | plain _ quote _ _ => exact ⟨Nat.zero_le _, .more quote⟩
  | line he _ _ => exact ⟨Nat.zero_le _, .line he (by decide) (by decide)⟩

theorem longBasicString?_line {c : Char} {r : Chars} (quote : c ≠ '"') (backslash : c ≠ '\\')
    (plain : isPlain c = false) (h : newline? (c :: r) = some t) :
    longBasicString? done (c :: r) = longBasicString? ('\n' :: done) t := by
  rw [longBasicString?, if_neg quote, if_neg backslash, if_neg (by simp [plain])]
  split <;> simp_all

theorem longBasicString?_escape {c : Char} {r : Chars} (hjoined : joined? r = none)
    (h : escape? r = some (c, t)) : longBasicString? done ('\\' :: r) = longBasicString? (c :: done) t := by
  rw [longBasicString?, if_neg (by decide), if_pos rfl]
  split
  · simp_all
  · split <;> simp_all

theorem longBasicString?_joined {r : Chars} (h : joined? r = some t) :
    longBasicString? done ('\\' :: r) = longBasicString? done t := by
  rw [longBasicString?, if_neg (by decide), if_pos rfl]
  split <;> simp_all

theorem longLiteralString?_line {c : Char} {r : Chars} (quote : c ≠ '\x27') (plain : isPlain c = false)
    (h : newline? (c :: r) = some t) : longLiteralString? done (c :: r) = longLiteralString? ('\n' :: done) t := by
  rw [longLiteralString?, if_neg quote, if_neg (by simp [plain])]
  split <;> simp_all

theorem longBasicString?_append (h : LongBasic n t s) (stop : rest.head? ≠ some '"') :
    longBasicString? done (t ++ '"' :: '"' :: '"' :: rest) = some (done.reverse ++ s, rest) := by
  -- one case for each way to write a part of the string; what is read so far is kept in reverse
  induction h generalizing done with
  | nil =>
    have hclosing := closing?_append (n := 0) (Nat.zero_le _) stop
    rw [List.replicate_zero, List.nil_append] at hclosing
    rw [List.nil_append, longBasicString?, if_pos rfl, hclosing]
  | @quote n t s hn ht ih =>
    rw [List.cons_append, longBasicString?, if_pos rfl]
    -- the quotes run into the closing ones, or end in front of something else
    rcases ht.headed.2.cons.closing? hn stop with hclosing | hclosing <;> rw [List.cons_append] at hclosing
    · rw [hclosing]
    · rw [hclosing]
      simp only
      rw [ih, List.reverse_cons, List.append_assoc, List.singleton_append]
  | plain hc quote backslash _ ih =>
    rw [List.cons_append, longBasicString?, if_neg quote, if_neg backslash, if_pos (isPlain_iff.2 hc), ih,
      List.reverse_cons, List.append_assoc, List.singleton_append]
  | @line n e t s he _ ih =>
    have hnewline : newline? (e ++ (t ++ '"' :: '"' :: '"' :: rest)) = some (t ++ '"' :: '"' :: '"' :: rest) :=
      newline?_append he
    rw [List.append_assoc]
    obtain ⟨c, u, rfl, -, hplain, hc⟩ := he.eq_cons
    have hquote : c ≠ '"' := by rcases hc with rfl | rfl <;> decide
    have hbackslash : c ≠ '\\' := by rcases hc with rfl | rfl <;> decide
    rw [List.cons_append] at hnewline ⊢
    rw [longBasicString?_line hquote hbackslash hplain hnewline, ih, List.reverse_cons, List.append_assoc,
      List.singleton_append]
  | escape he _ ih =>
    rw [List.cons_append, List.append_assoc, longBasicString?_escape (joined?_escape he) (escape?_append he), ih,
      List.reverse_cons, List.append_assoc, List.singleton_append]
  | @joined n w e w' t s hw he hw' _ stop' ih =>
    have hjoined : joined? (w ++ (e ++ (w' ++ (t ++ '"' :: '"' :: '"' :: rest)))) =
        some (t ++ '"' :: '"' :: '"' :: rest) := by
      -- blanks end where the line does
      have hcons : skipBlanks (e ++ (w' ++ (t ++ '"' :: '"' :: '"' :: rest))) =
          e ++ (w' ++ (t ++ '"' :: '"' :: '"' :: rest)) := by
        obtain ⟨c, u, rfl, hc, -⟩ := he.eq_cons
        exact skipBlanks_cons hc
      rw [joined?, skipBlanks_append hw, hcons, newline?_append he]
      simp only
      rw [skipLines_append hw']
      cases t with
      | nil => simp
      | cons c t => exact stop'
    simp only [List.cons_append, List.append_assoc]
    rw [longBasicString?_joined hjoined]
    exact ih

theorem longLiteralString?_append (h : LongLiteral n t s) (stop : rest.head? ≠ some '\x27') :
    longLiteralString? done (t ++ '\x27' :: '\x27' :: '\x27' :: rest) = some (done.reverse ++ s, rest) := by
  induction h generalizing done with
  | nil =>
    have hclosing := closing?_append (n := 0) (Nat.zero_le _) stop
    rw [List.replicate_zero, List.nil_append] at hclosing
    rw [List.nil_append, longLiteralString?, if_pos rfl, hclosing]
  | @quote n t s hn ht ih =>
    rw [List.cons_append, longLiteralString?, if_pos rfl]
    rcases ht.headed.2.cons.closing? hn stop with hclosing | hclosing <;> rw [List.cons_append] at hclosing
    · rw [hclosing]
    · rw [hclosing]
      simp only
      rw [ih, List.reverse_cons, List.append_assoc, List.singleton_append]
  | plain hc quote _ ih =>
    rw [List.cons_append, longLiteralString?, if_neg quote, if_pos (isPlain_iff.2 hc), ih,
      List.reverse_cons, List.append_assoc, List.singleton_append]
  | @line n e t s he _ ih =>
    have hnewline : newline? (e ++ (t ++ '\x27' :: '\x27' :: '\x27' :: rest)) =
        some (t ++ '\x27' :: '\x27' :: '\x27' :: rest) := newline?_append he
    rw [List.append_assoc]
    obtain ⟨c, u, rfl, -, hplain, hc⟩ := he.eq_cons
    have hquote : c ≠ '\x27' := by rcases hc with rfl | rfl <;> decide
    rw [List.cons_append] at hnewline ⊢
    rw [longLiteralString?_line hquote hplain hnewline, ih, List.reverse_cons, List.append_assoc,
      List.singleton_append]

theorem dropNewline_append (hw : Opening w t) (hquote : quote ≠ '\n') (hreturn : quote ≠ '\r') :
    dropNewline (w ++ (t ++ quote :: rest)) = t ++ quote :: rest := by
  rcases hw with hw | ⟨rfl, hfeed, hcarriage⟩
  · rw [dropNewline, newline?_append hw, Option.getD_some]
  · have hnone : newline? (t ++ quote :: rest) = none := by
      cases t with
      | nil => simp [newline?, hquote, hreturn]
      | cons c t => simp_all [newline?]
    rw [List.nil_append, dropNewline, hnone, Option.getD_none]

/-- A string of any kind is read, whatever follows it but one more quote. -/
theorem string?_append (h : StringText t s) (quote : rest.head? ≠ some '"')
    (apostrophe : rest.head? ≠ some '\x27') : string? (t ++ rest) = some (s, rest) := by
  cases h with
  | @basic t s h =>
    have hread : basicString? [] (t ++ '"' :: rest) = some (s, rest) := basicString?_append h
    rw [List.cons_append, List.append_assoc, List.singleton_append, ← hread]
    have hhead := h.head
    -- two quotes are an empty string, unless a third one follows
    cases t with
    | nil =>
      cases rest with
      | nil => rfl
      | cons c rest => simp_all [string?]
    | cons c t => simp_all [string?]
  | literal h =>
    have hread : literalString? (s ++ '\x27' :: rest) = some (s, rest) := literalString?_append h
    rw [List.cons_append, List.append_assoc, List.singleton_append, ← hread]
    cases s with
    | nil =>
      cases rest with
      | nil => rfl
      | cons c rest => simp_all [string?]
    | cons c s =>
      have := (h c (.head _)).2
      simp_all [string?]
  | longBasic hw h =>
    simp only [List.cons_append, List.append_assoc, List.nil_append]
    rw [string?, dropNewline_append hw (by decide) (by decide), longBasicString?_append h quote,
      List.reverse_nil, List.nil_append]
  | longLiteral hw h =>
    simp only [List.cons_append, List.append_assoc, List.nil_append]
    rw [string?, dropNewline_append hw (by decide) (by decide), longLiteralString?_append h apostrophe,
      List.reverse_nil, List.nil_append]

end

/-! ## Keys -/

section
variable {t p rest : Chars} {key : String} {keys : List String} {n : Nat}

/-- A character that a key begins with. -/
def startsKey (c : Char) : Bool := c = '"' || c = '\x27' || isKeyChar c

theorem Grammar.KeyText.eq_cons (h : KeyText t key) : ∃ c u, t = c :: u ∧ startsKey c = true := by
  cases h with
  | basic _ => exact ⟨_, _, rfl, by decide⟩
  | literal _ => exact ⟨_, _, rfl, by decide⟩
  | bare some h =>
    obtain ⟨c, u, rfl⟩ := List.exists_cons_of_ne_nil some
    exact ⟨c, u, rfl, by simp [startsKey, h c (.head _)]⟩

theorem isBlank_of_startsKey {c : Char} (h : startsKey c = true) : isBlank c = false := by
  refine Bool.eq_false_iff.2 (fun hc => ?_)
  rcases isBlank_iff.1 hc with rfl | rfl <;> exact absurd h (by decide)

theorem key?_append (h : KeyText t key) (stop : ∀ c ∈ rest.head?, isKeyChar c = false) :
    ∃ s, key? (t ++ rest) = some (s, rest) ∧ String.ofList s = key := by
  cases h with
  | @basic t s h =>
    have hread : basicString? [] (t ++ '"' :: rest) = some (s, rest) := basicString?_append h
    exact ⟨_, by rw [List.cons_append, List.append_assoc]; exact hread, rfl⟩
  | @literal t h =>
    have hread : literalString? (t ++ '\x27' :: rest) = some (t, rest) := literalString?_append h
    exact ⟨_, by rw [List.cons_append, List.append_assoc]; exact hread, rfl⟩
  | bare some h =>
    refine ⟨t, ?_, rfl⟩
    rw [key?.eq_3, takeWhile_run h stop, dropWhile_run h stop, if_neg (by simpa using some)]
    -- no quote begins it, since none is a character of it
    all_goals
      intro r hr
      obtain ⟨c, u, rfl⟩ := List.exists_cons_of_ne_nil some
      cases hr
      exact absurd (h _ (.head _)) (by decide)

/-- What may follow a key path: nothing that could belong to it. -/
def EndsPath (rest : Chars) : Prop := ∀ c ∈ rest.head?, isBlank c = false ∧ c ≠ '.' ∧ isKeyChar c = false

/-- What follows a key and its blanks is no part of it. -/
theorem keyChar_blanks {w : Chars} (hw : Blanks w) (stop : ∀ c ∈ rest.head?, isKeyChar c = false) :
    ∀ c ∈ (w ++ rest).head?, isKeyChar c = false := by
  intro c hc
  cases w with
  | nil => exact stop c hc
  | cons b w =>
    cases hc
    rcases hw _ (.head _) with rfl | rfl <;> decide

theorem keyPath?_append (h : PathText n p keys) (stop : EndsPath rest) :
    keyPath? n (p ++ rest) = some (keys, rest) := by
  induction h with
  | @last n w k w' key hw hk hw' =>
    have hskip : skipBlanks rest = rest := by
      cases rest with
      | nil => rfl
      | cons c rest => exact skipBlanks_cons (stop c rfl).1
    obtain ⟨s, hread, rfl⟩ := key?_append hk (keyChar_blanks hw' (fun c hc => (stop c hc).2.2))
    obtain ⟨b, u, rfl, hb⟩ := hk.eq_cons
    simp only [List.append_assoc, keyPath?, skipBlanks_append hw, Option.bind_eq_bind]
    rw [List.cons_append, skipBlanks_cons (isBlank_of_startsKey hb), ← List.cons_append, hread]
    simp only [Option.bind_some, skipBlanks_append hw', hskip]
    split
    · next hdot => exact absurd rfl (stop '.' rfl).2.1
    · rfl
  | @dot n w k w' t key keys hw hk hw' _ ih =>
    have hpoint : ∀ c ∈ (w' ++ '.' :: (t ++ rest)).head?, isKeyChar c = false :=
      keyChar_blanks hw' (by simp [isKeyChar])
    obtain ⟨s, hread, rfl⟩ := key?_append hk hpoint
    obtain ⟨b, u, rfl, hb⟩ := hk.eq_cons
    simp only [List.append_assoc, List.cons_append, keyPath?, skipBlanks_append hw, Option.bind_eq_bind]
    rw [skipBlanks_cons (isBlank_of_startsKey hb), ← List.cons_append, hread]
    simp only [Option.bind_some, skipBlanks_append hw', skipBlanks_cons (c := '.') (by decide), ih]
    rfl

/-- A key path begins with a key, behind blanks. -/
theorem Grammar.PathText.eq_append (h : PathText n p keys) :
    ∃ w c u, p = w ++ c :: u ∧ Blanks w ∧ startsKey c = true := by
  cases h with
  | last hw hk _ =>
    obtain ⟨c, u, rfl, hc⟩ := hk.eq_cons
    exact ⟨_, c, _, rfl, hw, hc⟩
  | dot hw hk _ _ =>
    obtain ⟨c, u, rfl, hc⟩ := hk.eq_cons
    exact ⟨_, c, _, rfl, hw, hc⟩

theorem keyPath?_skipBlanks (s : Chars) : keyPath? n (skipBlanks s) = keyPath? n s := by
  cases n with
  | zero => rfl
  | succ n => rw [keyPath?, keyPath?, skipBlanks_skipBlanks]

end

end ShapeLedger.Toml
