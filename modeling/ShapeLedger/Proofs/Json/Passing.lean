/-
The values that are passed over, as a grammar, and the skipper against it. They are written as values are,
but more loosely: a string need be no UTF-8, half of a surrogate pair may stand alone in it, and a number
may be of any size. As in the document reader, brackets are kept on a stack: a piece of a text takes the
skipper on over it whatever is open around it (`Passes`), and a run has behind it a text for every bracket
that was open (`Traces`). Whatever the document reader reads may be passed over as well.
-/
import ShapeLedger.Json.Skip
import ShapeLedger.Proofs.Json.Reading

namespace ShapeLedger.Json

open Ascii

namespace Grammar

/-- What may stand between the quotes of a string that is passed over. -/
inductive Loose : Bytes → Prop where
  | nil : Loose []
  | raw {b : UInt8} {s : Bytes} (h : IsRaw b) (tail : Loose s) : Loose (b :: s)
  | letter {b : UInt8} {c : Char} {s : Bytes} (h : (b, c) ∈ letters) (tail : Loose s) :
      Loose (backslash :: b :: s)
  | codeUnit {x s : Bytes} {n : Nat} (h : Hex x n) (tail : Loose s) : Loose (backslash :: lowerU :: (x ++ s))

/-- The byte that opens a bracket. -/
def start : Bracket → UInt8
  | .list => openBracket
  | .record => openBrace

/-- A piece of a text that is passed over: a value, one with blanks around it, or one or more items of a
bracket, which are the elements of a list or the members of a record. -/
inductive Piece where
  | value
  | element
  | item (bracket : Bracket)
  | items (bracket : Bracket)

/-- What a piece of this kind may be written like, where nothing is made of it. -/
inductive Passed : Bytes → Piece → Prop where
  | null : Passed [0x6E, 0x75, 0x6C, 0x6C] .value
  | true : Passed [0x74, 0x72, 0x75, 0x65] .value
  | false : Passed [0x66, 0x61, 0x6C, 0x73, 0x65] .value
  | number {s : Bytes} {n : Numeral} (hs : Literal s n) : Passed s .value
  | text {s : Bytes} (hs : Loose s) : Passed (quote :: (s ++ [quote])) .value
  | empty {w : Bytes} {bracket : Bracket} (hw : Blank w) :
      Passed (start bracket :: (w ++ [bracket.close])) .value
  | full {s : Bytes} {bracket : Bracket} (hs : Passed s (.items bracket)) :
      Passed (start bracket :: (s ++ [bracket.close])) .value
  | element {w s w' : Bytes} (hw : Blank w) (hs : Passed s .value) (hw' : Blank w') :
      Passed (w ++ (s ++ w')) .element
  | listed {s : Bytes} (hs : Passed s .element) : Passed s (.item .list)
  | member {w k w' s : Bytes} (hw : Blank w) (hk : Loose k) (hw' : Blank w') (hs : Passed s .element) :
      Passed (w ++ quote :: (k ++ quote :: (w' ++ colon :: s))) (.item .record)
  | last {s : Bytes} {bracket : Bracket} (hs : Passed s (.item bracket)) : Passed s (.items bracket)
  | more {s t : Bytes} {bracket : Bracket} (hs : Passed s (.item bracket)) (ht : Passed t (.items bracket)) :
      Passed (s ++ comma :: t) (.items bracket)

end Grammar

open Grammar

@[simp] theorem start_list : start .list = openBracket := rfl

@[simp] theorem start_record : start .record = openBrace := rfl

@[simp] theorem close_list : Bracket.close .list = closeBracket := rfl

@[simp] theorem close_record : Bracket.close .record = closeBrace := rfl

/-! ## Strings -/

section
variable {s t u w r : Bytes}

theorem skipEscape_sound (h : skipEscape s = .ok r) :
    (∃ b c, (b, c) ∈ letters ∧ s = b :: r) ∨ ∃ x n, Hex x n ∧ s = lowerU :: (x ++ r) := by
  unfold skipEscape at h
  split at h
  · cases h
  · next b t =>
    split at h
    · next hb =>
      obtain ⟨⟨n, t'⟩, hx, he⟩ := map_eq_ok h
      cases he
      obtain ⟨x, rfl, hhex⟩ := readHex_eq_ok.1 hx
      exact .inr ⟨x, n, hhex, by rw [hb]⟩
    · split at h
      · next y hy =>
        cases h
        obtain ⟨c, hc, -⟩ := escaped?_eq_some.1 hy
        exact .inl ⟨b, c, hc, rfl⟩
      · cases h

theorem skipEscape_letter {b : UInt8} {c : Char} (h : (b, c) ∈ letters) (r : Bytes) :
    skipEscape (b :: r) = .ok r := by
  have hall : ∀ x ∈ letters, (escaped? x.1).isSome = true := by decide
  obtain ⟨y, hy⟩ := Option.isSome_iff_exists.1 (hall _ h)
  simp only [skipEscape, letters_ne h, if_false, hy]

theorem skipEscape_codeUnit {x : Bytes} {n : Nat} (h : Hex x n) (r : Bytes) :
    skipEscape (lowerU :: (x ++ r)) = .ok r := by
  simp only [skipEscape, if_true, readHex_eq_ok.2 ⟨x, rfl, h⟩, Except.map]

theorem skipString_escape (h : skipEscape s = .ok r) : skipString (backslash :: s) = skipString r := by
  have hq : backslash ≠ quote := by decide
  rw [skipString, if_neg hq, if_pos rfl]
  split
  · next he => rw [h] at he; cases he
  · next he => rw [h] at he; cases he; rfl

theorem skipString_eq_ok : skipString s = .ok r ↔ ∃ body, s = body ++ quote :: r ∧ Loose body := by
  constructor
  · intro h
    fun_induction skipString s with
    | case1 => cases h
    | case2 r' => cases h; exact ⟨[], rfl, .nil⟩
    | case3 => cases h
    | case4 r' t ht _ ih =>
      obtain ⟨body, rfl, hbody⟩ := ih h
      rcases skipEscape_sound ht with ⟨b, c, hc, rfl⟩ | ⟨x, n, hx, rfl⟩
      · exact ⟨_, rfl, .letter hc hbody⟩
      · exact ⟨backslash :: lowerU :: (x ++ body), by simp, .codeUnit hx hbody⟩
    | case5 => cases h
    | case6 b r' hq hb hc ih =>
      obtain ⟨body, rfl, hbody⟩ := ih h
      exact ⟨b :: body, rfl, .raw ⟨hq, hb, hc⟩ hbody⟩
  · rintro ⟨body, rfl, hbody⟩
    induction hbody with
    | nil => rw [List.nil_append, skipString, if_pos rfl]
    | @raw b s h _ ih => rw [List.cons_append, skipString, if_neg h.1, if_neg h.2.1, if_neg h.2.2, ih]
    | @letter b c s h _ ih => exact (skipString_escape (skipEscape_letter h _)).trans ih
    | @codeUnit x s n h _ ih =>
      have hskip := skipEscape_codeUnit h (s ++ quote :: r)
      rw [← List.append_assoc] at hskip
      exact (skipString_escape hskip).trans ih

/-! ## Scalars -/

theorem skipScalar_sound (h : skipScalar s = .ok r) : ∃ t, Passed t .value ∧ s = t ++ r := by
  unfold skipScalar at h
  split at h
  · cases h
  · next b u =>
    split at h
    · next hb => exact ⟨_, .null, by rw [hb, readWord_eq_ok.1 h]; rfl⟩
    · split at h
      · next hb => exact ⟨_, .true, by rw [hb, readWord_eq_ok.1 h]; rfl⟩
      · split at h
        · next hb => exact ⟨_, .false, by rw [hb, readWord_eq_ok.1 h]; rfl⟩
        · split at h
          · next hb =>
            obtain ⟨body, rfl, hbody⟩ := skipString_eq_ok.1 h
            exact ⟨_, .text hbody, by rw [hb]; simp⟩
          · split at h
            · obtain ⟨⟨n, u'⟩, hn, he⟩ := map_eq_ok h
              cases he
              obtain ⟨x, hx, hs⟩ := readNumeral_sound hn
              exact ⟨x, .number hx, hs⟩
            · cases h

/-! ## The machine -/

variable {bracket : Bracket} {brackets outer : List Bracket} {st : SkipState}

/-- Goes on in front of an item of a bracket. -/
def enter (bracket : Bracket) (outer : List Bracket) (s : Bytes) : Except Fault Bytes :=
  (skipToItem bracket outer s).bind skipRun

theorem skipRun_wanting (brackets : List Bracket) (s : Bytes) :
    skipRun (.wanting brackets s) = (skipOpening brackets s).bind skipRun := by
  rw [skipRun]
  split <;> simp only [*] <;> rfl

theorem skipRun_opened (bracket : Bracket) (outer : List Bracket) (s : Bytes) :
    skipRun (.opened bracket outer s) = (skipInside bracket outer s).bind skipRun := by
  rw [skipRun]
  split <;> simp only [*] <;> rfl

theorem skipRun_passed (bracket : Bracket) (outer : List Bracket) (s : Bytes) :
    skipRun (.passed (bracket :: outer) s) = (skipAfter bracket outer s).bind skipRun := by
  rw [skipRun]
  split <;> simp only [*] <;> rfl

theorem isSpace_close (bracket : Bracket) : isSpace bracket.close = false := by cases bracket <;> decide

theorem close_ne_comma (bracket : Bracket) : comma ≠ bracket.close := by cases bracket <;> decide

/-! ### Blanks make no difference -/

theorem skipRun_wanting_blank (hw : Blank w) (s : Bytes) :
    skipRun (.wanting brackets (w ++ s)) = skipRun (.wanting brackets s) := by
  rw [skipRun_wanting, skipRun_wanting, skipOpening, skipOpening, skipSpace_append hw]

theorem skipRun_passed_blank (hw : Blank w) (s : Bytes) :
    skipRun (.passed (bracket :: outer) (w ++ s)) = skipRun (.passed (bracket :: outer) s) := by
  rw [skipRun_passed, skipRun_passed, skipAfter, skipAfter, skipSpace_append hw]

theorem enter_blank (hw : Blank w) (s : Bytes) : enter bracket outer (w ++ s) = enter bracket outer s := by
  cases bracket with
  | list => exact skipRun_wanting_blank hw s
  | record =>
    unfold enter skipToItem
    simp only [skipSpace_append hw]

/-! ### Steps -/

/-- The first byte of an item: it is no blank, and does not close the bracket. -/
def StartsItem (bracket : Bracket) (s : Bytes) : Prop :=
  ∃ w b t, Blank w ∧ isSpace b = false ∧ b ≠ bracket.close ∧ s = w ++ b :: t

theorem StartsItem.append (h : StartsItem bracket s) (t : Bytes) : StartsItem bracket (s ++ t) := by
  obtain ⟨w, b, u, hw, hb, hc, rfl⟩ := h
  exact ⟨w, b, u ++ t, hw, hb, hc, by simp⟩

theorem skipRun_opened_item (h : StartsItem bracket s) :
    skipRun (.opened bracket outer s) = enter bracket outer s := by
  obtain ⟨w, b, t, hw, hb, hc, rfl⟩ := h
  have hskip : skipSpace (w ++ b :: t) = b :: t := skipSpace_eq_cons.2 ⟨hb, w, hw, rfl⟩
  rw [skipRun_opened, skipInside, hskip, enter_blank hw]
  simp only [hc, if_false]
  rfl

theorem skipRun_opened_close (bracket : Bracket) (outer : List Bracket) (hw : Blank w) (r : Bytes) :
    skipRun (.opened bracket outer (w ++ bracket.close :: r)) = skipRun (.passed outer r) := by
  have hskip : skipSpace (w ++ bracket.close :: r) = bracket.close :: r :=
    (skipSpace_eq_token (isSpace_close bracket)).2 ⟨w, hw, rfl⟩
  rw [skipRun_opened, skipInside, hskip]
  simp only [if_true]
  rfl

theorem skipRun_passed_close (r : Bytes) :
    skipRun (.passed (bracket :: outer) (bracket.close :: r)) = skipRun (.passed outer r) := by
  have hskip : skipSpace (bracket.close :: r) = bracket.close :: r :=
    (skipSpace_eq_token (isSpace_close bracket)).2 ⟨[], blank_nil, rfl⟩
  rw [skipRun_passed, skipAfter, hskip]
  simp only [if_true]
  rfl

theorem skipRun_passed_comma (r : Bytes) :
    skipRun (.passed (bracket :: outer) (comma :: r)) = enter bracket outer r := by
  have hskip : skipSpace (comma :: r) = comma :: r := rfl
  rw [skipRun_passed, skipAfter, hskip]
  simp only [close_ne_comma bracket, if_false, if_true]
  rfl

/-! ## Texts are passed over -/

/-- The skipper gets over this piece of a text, whatever follows that does not prolong it. -/
def Passes (s : Bytes) : Piece → Prop
  | .value => Starts s ∧ ∀ brackets rest, Stops rest →
      skipRun (.wanting brackets (s ++ rest)) = skipRun (.passed brackets rest)
  | .element => StartsItem .list s ∧ ∀ bracket outer rest, Stops rest →
      skipRun (.wanting (bracket :: outer) (s ++ rest)) = skipRun (.passed (bracket :: outer) rest)
  | .item bracket => StartsItem bracket s ∧ ∀ outer rest, Stops rest →
      enter bracket outer (s ++ rest) = skipRun (.passed (bracket :: outer) rest)
  | .items bracket => StartsItem bracket s ∧ ∀ outer rest,
      enter bracket outer (s ++ bracket.close :: rest) = skipRun (.passed outer rest)

theorem stops_close (bracket : Bracket) (r : Bytes) : Stops (bracket.close :: r) := by
  cases bracket with
  | list => exact stops_bracket r
  | record => exact stops_brace r

theorem passes_scalar {b : UInt8} (hb : IsBare b)
    (h : ∀ rest, Stops rest → skipScalar (b :: (s ++ rest)) = .ok rest) : Passes (b :: s) .value := by
  have hs : Starts (b :: s) := ⟨b, s, rfl, hb.1, hb.2.1⟩
  refine ⟨hs, fun brackets rest hr => ?_⟩
  rw [skipRun_wanting, skipOpening, hs.skip, List.cons_append]
  simp only [hb.2.2.1, hb.2.2.2, if_false, h rest hr]
  rfl

theorem passes_word {b : UInt8} (hb : IsBare b) (h : ∀ r, skipScalar (b :: r) = readWord s r) :
    Passes (b :: s) .value :=
  passes_scalar hb fun rest _ => by rw [h, readWord_eq_ok.2 rfl]

theorem passes_number {n : Numeral} (hs : Literal s n) : Passes s .value := by
  have hread (rest : Bytes) (hr : Stops rest) : readNumeral .invalidNumber (s ++ rest) = .ok (n, rest) :=
    readNumeral_complete hs hr
  obtain ⟨b, t, rfl, hb⟩ := hs.head
  have hb : (b = minus || isDigit b) = true := by simpa using hb
  refine passes_scalar (isBare_number hb) fun rest hr => ?_
  have hn : b ≠ 0x6E := ne_of_starts_number hb (by decide)
  have ht : b ≠ 0x74 := ne_of_starts_number hb (by decide)
  have hf : b ≠ 0x66 := ne_of_starts_number hb (by decide)
  have hq : b ≠ quote := ne_of_starts_number hb (by decide)
  have hread := hread rest hr
  rw [List.cons_append] at hread
  simp only [skipScalar, hn, ht, hf, hq, if_false, hb, if_true, hread, Except.map]

theorem passes_text (hs : Loose s) : Passes (quote :: (s ++ [quote])) .value := by
  refine passes_scalar (by decide) fun rest _ => ?_
  have hskip : skipString (s ++ [quote] ++ rest) = .ok rest := skipString_eq_ok.2 ⟨s, by simp, hs⟩
  exact hskip

theorem starts_start (bracket : Bracket) (s : Bytes) : Starts (start bracket :: s) := by
  cases bracket with
  | list => exact starts_bracket s
  | record => exact starts_brace s

theorem skipRun_start (bracket : Bracket) (brackets : List Bracket) (s : Bytes) :
    skipRun (.wanting brackets (start bracket :: s)) = skipRun (.opened bracket brackets s) := by
  rw [skipRun_wanting]
  cases bracket <;> rfl

theorem passes_empty (hw : Blank w) : Passes (start bracket :: (w ++ [bracket.close])) .value := by
  refine ⟨starts_start bracket _, fun brackets rest _ => ?_⟩
  have hclose := skipRun_opened_close bracket brackets hw rest
  rw [← skipRun_start] at hclose
  simpa using hclose

theorem passes_full (h : Passes s (.items bracket)) :
    Passes (start bracket :: (s ++ [bracket.close])) .value := by
  refine ⟨starts_start bracket _, fun brackets rest _ => ?_⟩
  have hall := h.2 brackets rest
  rw [← skipRun_opened_item (h.1.append _), ← skipRun_start] at hall
  simpa using hall

theorem passes_element {w' : Bytes} (hw : Blank w) (h : Passes s .value) (hw' : Blank w') :
    Passes (w ++ (s ++ w')) .element := by
  obtain ⟨⟨b, t, rfl, hb, hc⟩, hrun⟩ := h
  refine ⟨⟨w, b, t ++ w', hw, hb, hc, rfl⟩, fun bracket outer rest hr => ?_⟩
  rw [List.append_assoc, List.append_assoc, skipRun_wanting_blank hw, hrun _ _ (hr.append hw'),
    skipRun_passed_blank hw']

theorem passes_listed (h : Passes s .element) : Passes s (.item .list) :=
  ⟨h.1, fun outer rest hr => h.2 .list outer rest hr⟩

theorem passes_member {k w' : Bytes} (hw : Blank w) (hk : Loose k) (hw' : Blank w') (h : Passes s .element) :
    Passes (w ++ quote :: (k ++ quote :: (w' ++ colon :: s))) (.item .record) := by
  refine ⟨⟨w, quote, _, hw, by decide, by decide, rfl⟩, fun outer rest hr => ?_⟩
  have hskip : skipSpace (quote :: (k ++ quote :: (w' ++ colon :: (s ++ rest)))) =
      quote :: (k ++ quote :: (w' ++ colon :: (s ++ rest))) := rfl
  have hkey : skipString (k ++ quote :: (w' ++ colon :: (s ++ rest))) = .ok (w' ++ colon :: (s ++ rest)) :=
    skipString_eq_ok.2 ⟨k, rfl, hk⟩
  have hcolon : readColon (w' ++ colon :: (s ++ rest)) = .ok (s ++ rest) :=
    readColon_eq_ok.2 ⟨w', hw', rfl⟩
  have hitem : skipToItem .record outer (quote :: (k ++ quote :: (w' ++ colon :: (s ++ rest)))) =
      .ok (.wanting (.record :: outer) (s ++ rest)) := by
    simp only [skipToItem, hskip, if_true, hkey, hcolon, Except.map]
  rw [← h.2 .record outer rest hr, List.append_assoc, enter_blank hw]
  simp only [List.cons_append, List.append_assoc]
  rw [enter, hitem]
  rfl

theorem passes_last (h : Passes s (.item bracket)) : Passes s (.items bracket) :=
  ⟨h.1, fun outer rest => by rw [h.2 outer _ (stops_close bracket rest), skipRun_passed_close]⟩

theorem passes_more (hs : Passes s (.item bracket)) (ht : Passes t (.items bracket)) :
    Passes (s ++ comma :: t) (.items bracket) := by
  refine ⟨hs.1.append _, fun outer rest => ?_⟩
  have hitem := hs.2 outer (comma :: (t ++ bracket.close :: rest)) (stops_comma _)
  rw [skipRun_passed_comma, ht.2] at hitem
  simpa using hitem

theorem passes_of_passed {p : Piece} (h : Passed s p) : Passes s p := by
  induction h with
  | null => exact passes_word (by decide) fun _ => rfl
  | true => exact passes_word (by decide) fun _ => rfl
  | false => exact passes_word (by decide) fun _ => rfl
  | number hs => exact passes_number hs
  | text hs => exact passes_text hs
  | empty hw => exact passes_empty hw
  | full _ ih => exact passes_full ih
  | element hw _ hw' ih => exact passes_element hw ih hw'
  | listed _ ih => exact passes_listed ih
  | member hw hk hw' _ ih => exact passes_member hw hk hw' ih
  | last _ ih => exact passes_last ih
  | more _ _ ihs iht => exact passes_more ihs iht

/-! ## What is passed over is a text -/

/-- What is behind an item up to the bracket that closes it. -/
inductive Tail (bracket : Bracket) : Bytes → Prop where
  | close {w : Bytes} (hw : Blank w) : Tail bracket w
  | more {w s : Bytes} (hw : Blank w) (hs : Passed s (.items bracket)) : Tail bracket (w ++ comma :: s)

/-- With these brackets open, the text `s` closes them all and leaves `r`. -/
def Shuts : List Bracket → Bytes → Bytes → Prop
  | [], s, r => s = r
  | bracket :: outer, s, r =>
    ∃ u s', Tail bracket u ∧ s = u ++ bracket.close :: s' ∧ Shuts outer s' r

/-- In front of an item of the innermost bracket, the text `s` closes all brackets and leaves `r`. -/
def Finishes (bracket : Bracket) (outer : List Bracket) (s r : Bytes) : Prop :=
  ∃ t s', Passed t (.items bracket) ∧ s = t ++ bracket.close :: s' ∧ Shuts outer s' r

/-- The text that a run has behind it. -/
def Traces : SkipState → Bytes → Prop
  | .passed brackets s, r => Shuts brackets s r
  | .wanting brackets s, r => ∃ w t s', Blank w ∧ Passed t .value ∧ s = w ++ (t ++ s') ∧ Shuts brackets s' r
  | .opened bracket outer s, r =>
    (∃ w s', Blank w ∧ s = w ++ bracket.close :: s' ∧ Shuts outer s' r) ∨ Finishes bracket outer s r

/-- An item with what follows it makes the items of a bracket. -/
theorem Tail.items (h : Tail bracket u) (hs : ∀ w, Blank w → Passed (s ++ w) (.item bracket)) :
    Passed (s ++ u) (.items bracket) := by
  cases h with
  | close hw => exact .last (hs _ hw)
  | more hw ht => rw [← List.append_assoc]; exact .more (hs _ hw) ht

/-- Blanks in front of an item belong to it. -/
theorem passed_blank_item (hw : Blank w) (h : Passed s (.item bracket)) :
    Passed (w ++ s) (.item bracket) := by
  cases h with
  | listed h =>
    cases h with
    | element hx hs hw' => rw [← List.append_assoc]; exact .listed (.element (hw.append hx) hs hw')
  | member hx hk hw' hs => rw [← List.append_assoc]; exact .member (hw.append hx) hk hw' hs

theorem passed_blank_items (hw : Blank w) (h : Passed s (.items bracket)) :
    Passed (w ++ s) (.items bracket) := by
  cases h with
  | last hs => exact .last (passed_blank_item hw hs)
  | more hs ht => rw [← List.append_assoc]; exact .more (passed_blank_item hw hs) ht

theorem finishes_skipToItem (h : skipToItem bracket outer s = .ok st) (ht : Traces st r) :
    Finishes bracket outer s r := by
  unfold skipToItem at h
  split at h
  · cases h
    obtain ⟨w, t, _, hw, ht, rfl, u, s', hu, rfl, hs⟩ := ht
    have hitems := hu.items (s := w ++ t) fun w' hw' => by
      rw [List.append_assoc]; exact .listed (.element hw ht hw')
    exact ⟨_, s', hitems, by simp, hs⟩
  · split at h
    · cases h
    · next b r' hskip =>
      obtain ⟨-, x, hx, rfl⟩ := skipSpace_eq_cons.1 hskip
      split at h
      · next hb =>
        split at h
        · cases h
        · next u' hkey =>
          obtain ⟨u'', hcolon, he⟩ := map_eq_ok h
          cases he
          obtain ⟨k, rfl, hk⟩ := skipString_eq_ok.1 hkey
          obtain ⟨y, hy, rfl⟩ := readColon_eq_ok.1 hcolon
          obtain ⟨w, t, _, hw, ht, rfl, u, s', hu, rfl, hs⟩ := ht
          -- a member is passed as its key, a colon and an item
          have hitems := hu.items (s := x ++ quote :: (k ++ quote :: (y ++ colon :: (w ++ t))))
            fun w' hw' => by
              have hmember := Passed.member hx hk hy (.element hw ht hw')
              simpa using hmember
          exact ⟨_, s', hitems, by rw [hb]; simp, hs⟩
      · cases h

theorem traces_opening (h : skipOpening brackets s = .ok st) (ht : Traces st r) :
    Traces (.wanting brackets s) r := by
  unfold skipOpening at h
  split at h
  · cases h
  · next b s' hskip =>
    obtain ⟨-, w, hw, rfl⟩ := skipSpace_eq_cons.1 hskip
    have hopened (bracket : Bracket) (hb : b = start bracket) (ht : Traces (.opened bracket brackets s') r) :
        Traces (.wanting brackets (w ++ b :: s')) r := by
      rcases ht with ⟨x, s'', hx, rfl, hs⟩ | ⟨t, s'', ht, rfl, hs⟩
      · exact ⟨w, _, s'', hw, @Passed.empty x bracket hx, by rw [hb]; simp, hs⟩
      · exact ⟨w, _, s'', hw, .full ht, by rw [hb]; simp, hs⟩
    split at h
    · next hb => cases h; exact hopened .list hb ht
    · split at h
      · next hb => cases h; exact hopened .record hb ht
      · obtain ⟨u, hu, he⟩ := map_eq_ok h
        cases he
        obtain ⟨t, hpassed, hs⟩ := skipScalar_sound hu
        exact ⟨w, t, u, hw, hpassed, by rw [hs], ht⟩

theorem traces_inside (h : skipInside bracket outer s = .ok st) (ht : Traces st r) :
    Traces (.opened bracket outer s) r := by
  unfold skipInside at h
  split at h
  · cases h
  · next b s' hskip =>
    obtain ⟨-, w, hw, rfl⟩ := skipSpace_eq_cons.1 hskip
    split at h
    · next hb => cases h; exact .inl ⟨w, s', hw, by rw [hb], ht⟩
    · obtain ⟨t, s'', hpassed, hs, hshut⟩ := finishes_skipToItem h ht
      exact .inr ⟨w ++ t, s'', passed_blank_items hw hpassed, by rw [hs, List.append_assoc], hshut⟩

theorem traces_after (h : skipAfter bracket outer s = .ok st) (ht : Traces st r) :
    Traces (.passed (bracket :: outer) s) r := by
  unfold skipAfter at h
  split at h
  · cases h
  · next b s' hskip =>
    obtain ⟨-, w, hw, rfl⟩ := skipSpace_eq_cons.1 hskip
    split at h
    · next hb => cases h; exact ⟨w, s', .close hw, by rw [hb], ht⟩
    · split at h
      · next hb =>
        obtain ⟨t, s'', hpassed, rfl, hshut⟩ := finishes_skipToItem h ht
        exact ⟨_, s'', .more hw hpassed, by rw [hb]; simp, hshut⟩
      · cases h

theorem traces_of_run (h : skipRun st = .ok r) : Traces st r := by
  fun_induction skipRun st with
  | case1 => cases h; rfl
  | case2 => cases h
  | case3 bracket outer s next hn ih => exact traces_after hn (ih h)
  | case4 => cases h
  | case5 bracket outer s next hn ih => exact traces_inside hn (ih h)
  | case6 => cases h
  | case7 brackets s next hn ih => exact traces_opening hn (ih h)

/-! ## Values -/

theorem skipValue_sound (h : skipValue s = .ok r) : ∃ w t, Blank w ∧ Passed t .value ∧ s = w ++ (t ++ r) := by
  obtain ⟨w, t, _, hw, ht, hs, rfl⟩ := traces_of_run h
  exact ⟨w, t, hw, ht, hs⟩

/-- A value is passed over with the blanks in front of it. -/
theorem skipValue_complete (hw : Blank w) (ht : Passed t .value) (hr : Stops r) :
    skipValue (w ++ (t ++ r)) = .ok r := by
  rw [skipValue, skipRun_wanting_blank hw, (passes_of_passed ht).2 [] r hr, skipRun]

theorem skipValue_whole (ht : Passed t .value) : skipValue t = .ok [] := by
  have hskip := skipValue_complete blank_nil ht stops_nil
  simpa using hskip

/-! ## What is read may be passed over -/

theorem loose_of_unescaped (h : Unescaped s t) : Loose s := by
  induction h with
  | nil => exact .nil
  | raw hq hb hc _ ih => exact .raw ⟨hq, hb, hc⟩ ih
  | escape he _ ih =>
    cases he with
    | letter h => exact .letter h ih
    | codePoint h => exact .codeUnit h ih
    | pair hs ht =>
      have hpair := Loose.codeUnit hs (.codeUnit ht ih)
      simpa using hpair

/-- Between the quotes of a string stands what may be passed over. -/
theorem Grammar.Quoted.loose {q : Bytes} {x : String} (h : Quoted q x) :
    ∃ body, q = quote :: (body ++ [quote]) ∧ Loose body := by
  cases h with
  | mk h => exact ⟨_, rfl, loose_of_unescaped (unescaped_iff.2 h)⟩

/-- What a text of this meaning is a piece of. -/
def Grammar.Meaning.piece : Meaning → Piece
  | .value _ | .record _ => .value
  | .element _ => .element
  | .elements _ => .items .list
  | .member _ _ => .item .record
  | .members _ => .items .record

theorem passed_of_denotes {m : Meaning} (h : Denotes s m) : Passed s m.piece := by
  induction h with
  | null => exact .null
  | true => exact .true
  | false => exact .false
  | number hs _ => exact .number hs
  | text hs =>
    obtain ⟨body, rfl, hbody⟩ := hs.loose
    exact .text hbody
  | emptyArray hw => exact @Passed.empty _ .list hw
  | array _ ih => exact @Passed.full _ .list ih
  | object _ ih => exact ih
  | element hw _ hw' ih => exact .element hw ih hw'
  | lastElement _ ih => exact .last (.listed ih)
  | nextElement _ _ ihs iht => exact .more (.listed ihs) iht
  | member hw hk hw' _ ih =>
    obtain ⟨body, rfl, hbody⟩ := hk.loose
    have hmember := Passed.member hw hbody hw' ih
    simpa [Meaning.piece] using hmember
  | lastMember _ ih => exact .last ih
  | nextMember _ _ ihs iht => exact .more ihs iht
  | emptyRecord hw => exact @Passed.empty _ .record hw
  | record _ ih => exact @Passed.full _ .record ih

end

end ShapeLedger.Json
