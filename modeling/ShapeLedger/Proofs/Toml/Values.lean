/-
The reader against the grammar: it takes every document of the grammar within its limits, line by line, as what
its lines set. A value is read whole wherever something may follow it, so no text has two readings; what is left
to decide is whether the lines may stand together.
-/
import ShapeLedger.Proofs.Toml.Numbers

namespace ShapeLedger.Toml

open Grammar

/-! ## Definitions -/

/-- How far the reader goes. -/
def limits : Bounds := ⟨depthLimit, pathLimit, false⟩

/-- An integer takes 64 bits at most. -/
def checked? : Item → Option Item
  | .integer n => integer? n
  | i => some i

/-- What a line does to a document. -/
def Draft.perform? (d : Draft) : Line → Option Draft
  | .nothing => some d
  | .table path => d.startTable? path
  | .element path => d.startElement? path
  | .pair path key item => (checked? item).bind (d.assign? path key)

/-- The top table, once these lines have been added. -/
def Draft.finish? (d : Draft) (ls : List Line) : Option Members := (ls.foldlM perform? d).bind close?

/-- The top table of a document of these lines, if they may stand together. -/
def build? (ls : List Line) : Option Members := Draft.blank.finish? ls

theorem Draft.finish?_cons (d : Draft) (l : Line) (ls : List Line) :
    d.finish? (l :: ls) = (d.perform? l).bind (fun d => d.finish? ls) := by
  unfold finish?
  rw [List.foldlM_cons]
  exact Option.bind_assoc _ _ _

/-! ## Beginnings and ends of values -/

section
variable {s t w r p tail rest : Chars} {c : Char} {n : Int} {x : Binary64}

/-- A character that a value without brackets begins with. -/
def startsScalar (c : Char) : Bool := c.isDigit || c ∈ ['"', '\x27', '+', '-', 'i', 'n', 't', 'f']

def StartsScalar (s : Chars) : Prop := ∃ c u, s = c :: u ∧ startsScalar c = true

/-- A value begins with neither a blank nor what may follow one. -/
def Starts (s : Chars) : Prop := ∃ c u, s = c :: u ∧ isBlank c = false ∧ c ∉ closers

/-- A property tells two characters apart. -/
theorem ne_of_property {p : Char → Bool} {a b : Char} (ha : p a = true) (hb : p b = false) : a ≠ b := by
  rintro rfl
  rw [ha] at hb
  cases hb

theorem ne_of_startsScalar (h : startsScalar c = true) :
    isBlank c = false ∧ c ∉ closers ∧ c ≠ '[' ∧ c ≠ '{' := by
  have hne {b : Char} (hb : startsScalar b = false) : c ≠ b := ne_of_property h hb
  refine ⟨Bool.eq_false_iff.2 (fun hblank => ?_), fun hmem => ?_, hne (by decide), hne (by decide)⟩
  · rcases isBlank_iff.1 hblank with hc | hc <;> exact hne (by decide) hc
  · simp only [closers, List.mem_cons, List.not_mem_nil, or_false] at hmem
    rcases hmem with hc | hc | hc | hc | hc | hc <;> exact hne (by decide) hc

theorem Grammar.StringText.eq_cons (h : StringText s t) : ∃ c u, s = c :: u ∧ (c = '"' ∨ c = '\x27') := by
  cases h with
  | basic _ => exact ⟨_, _, rfl, .inl rfl⟩
  | literal _ => exact ⟨_, _, rfl, .inr rfl⟩
  | longBasic _ _ => exact ⟨_, _, rfl, .inl rfl⟩
  | longLiteral _ _ => exact ⟨_, _, rfl, .inr rfl⟩

theorem startsScalar_of_isDigit (h : c.isDigit = true) : startsScalar c = true := by simp [startsScalar, h]

theorem Grammar.Sign.startsScalar {negative : Bool} (hs : Sign s negative) (ht : StartsScalar t) :
    StartsScalar (s ++ t) := by
  cases hs with
  | none => exact ht
  | plus => exact ⟨_, _, rfl, by decide⟩
  | minus => exact ⟨_, _, rfl, by decide⟩

theorem Grammar.Whole.startsScalar {digits : Chars} (h : Whole t digits) :
    StartsScalar (t ++ rest) := by
  obtain ⟨c, u, rfl, hc⟩ := h.eq_cons
  exact ⟨c, _, rfl, startsScalar_of_isDigit hc⟩

theorem Grammar.IntegerText.startsScalar (h : IntegerText s n) : StartsScalar s := by
  cases h with
  | @decimal s t digits negative hs ht =>
    have hstarts : StartsScalar (t ++ []) := ht.startsScalar
    rw [List.append_nil] at hstarts
    exact hs.startsScalar hstarts
  | based _ _ => exact ⟨_, _, rfl, by decide⟩

theorem Grammar.DecimalText.startsScalar (h : DecimalText s x) : StartsScalar s := by
  cases h with
  | mk hs ht _ _ _ => exact hs.startsScalar ht.startsScalar

theorem Grammar.SpecialText.startsScalar (h : SpecialText s x) : StartsScalar s := by
  cases h with
  | infinity hs => exact hs.startsScalar ⟨_, _, rfl, by decide⟩
  | nan hs => exact hs.startsScalar ⟨_, _, rfl, by decide⟩

theorem Grammar.Fixed.eq_cons {n k : Nat} (h : Fixed 10 (n + 1) s k) :
    ∃ c u, s ++ rest = c :: u ∧ c.isDigit = true := by
  obtain ⟨c, u, rfl⟩ := List.exists_cons_of_length_eq_add_one h.1
  exact ⟨c, _, rfl, isDigitOf_ten c ▸ h.2.1 c (.head _)⟩

theorem Grammar.MomentText.eq_cons (h : MomentText s) : ∃ c u, s = c :: u ∧ c.isDigit = true := by
  cases h with
  | date hd =>
    cases hd with
    | mk hy _ _ _ _ _ _ => exact hy.eq_cons
  | time ht =>
    cases ht with
    | mk hh _ _ _ _ _ _ => exact hh.eq_cons
  | both hd _ _ _ =>
    cases hd with
    | mk hy _ _ _ _ _ _ =>
      rw [List.append_assoc]
      exact hy.eq_cons

theorem Grammar.MomentText.startsScalar (h : MomentText s) : StartsScalar s := by
  obtain ⟨c, u, hs, hc⟩ := h.eq_cons
  exact ⟨c, u, hs, startsScalar_of_isDigit hc⟩

theorem Starts.of_scalar (h : StartsScalar s) : Starts s := by
  obtain ⟨c, u, hs, hc⟩ := h
  exact ⟨c, u, hs, (ne_of_startsScalar hc).1, (ne_of_startsScalar hc).2.1⟩

theorem Grammar.StringText.startsScalar (h : StringText s t) : StartsScalar s := by
  obtain ⟨c, u, hs, hc⟩ := h.eq_cons
  exact ⟨c, u, hs, by rcases hc with rfl | rfl <;> decide⟩

theorem Grammar.Writes.starts {bounds : Bounds} {d : Nat} {i : Item} (h : Writes bounds d s (.item i)) :
    Starts s := by
  cases h with
  | text h => exact .of_scalar h.startsScalar
  | integer h _ _ => exact .of_scalar h.startsScalar
  | decimal h _ => exact .of_scalar h.startsScalar
  | special h => exact .of_scalar h.startsScalar
  | true => exact ⟨_, _, rfl, by decide, by decide⟩
  | false => exact ⟨_, _, rfl, by decide, by decide⟩
  | moment h => exact .of_scalar h.startsScalar
  | array _ => exact ⟨_, _, rfl, by decide, by decide⟩
  | emptyTable _ => exact ⟨_, _, rfl, by decide, by decide⟩
  | table _ _ => exact ⟨_, _, rfl, by decide, by decide⟩

theorem Starts.skipBlanks (h : Starts s) : skipBlanks (s ++ rest) = s ++ rest := by
  obtain ⟨c, u, rfl, hc, -⟩ := h
  exact skipBlanks_cons hc

theorem Starts.skipGap (h : Starts s) : skipGap false (s ++ rest) = s ++ rest := by
  obtain ⟨c, u, rfl, hblank, hc⟩ := h
  simp only [closers, List.mem_cons, List.not_mem_nil, or_false, not_or] at hc
  exact skipGap_cons hblank hc.1 hc.2.1 hc.2.2.1

theorem isBlank_of_mem_closers (h : c ∈ closers) : isBlank c = false := by
  simp only [closers, List.mem_cons, List.not_mem_nil, or_false] at h
  rcases h with rfl | rfl | rfl | rfl | rfl | rfl <;> decide

theorem endsValue_cons (h : c ∈ closers) : EndsValue (c :: rest) := by
  intro b hb
  rw [skipBlanks_cons (isBlank_of_mem_closers h)] at hb
  cases hb
  exact h

theorem endsValue_blanks (hw : Blanks w) (h : EndsValue rest) : EndsValue (w ++ rest) := by
  unfold EndsValue
  rwa [skipBlanks_append hw]

theorem endsValue_line {e : Chars} (he : LineEnd e) : EndsValue (e ++ rest) := by
  obtain ⟨c, u, rfl, -, -, hc⟩ := he.eq_cons
  exact endsValue_cons (by rcases hc with rfl | rfl <;> decide)

theorem endsValue_gap (hw : Gap w) (h : EndsValue rest) : EndsValue (w ++ rest) := by
  induction hw with
  | nil => exact h
  | blank hc _ ih => exact endsValue_blanks (w := [_]) (by simpa [Blanks] using hc) ih
  | line he _ _ =>
    rw [List.append_assoc]
    exact endsValue_line he
  | comment ht _ _ _ =>
    obtain ⟨u, rfl, -⟩ := ht
    exact endsValue_cons (by decide)

theorem endsValue_onward (h : Onward tail t) : EndsValue tail := by
  cases h with
  | stop => exact fun c hc => nomatch hc
  | line he => exact endsValue_line he

theorem endsValue_remark (hr : Remark r) (h : Onward tail t) : EndsValue (r ++ tail) := by
  cases hr with
  | blank hw => exact endsValue_blanks hw (endsValue_onward h)
  | comment hw ht =>
    obtain ⟨u, rfl, -⟩ := ht
    rw [List.append_assoc]
    exact endsValue_blanks hw (endsValue_cons (by decide))

end

/-! ## Values -/

section
variable {s t w p rest : Chars} {n : Int} {x : Binary64} {d : Nat} {path : List String} {key : String}

/-- A value without brackets is read alike at any depth. -/
theorem value?_scalar (h : StartsScalar s) (d : Nat) : value? d (s ++ rest) = scalarValue? (s ++ rest) := by
  obtain ⟨c, u, rfl, hc⟩ := h
  obtain ⟨-, -, hbracket, hbrace⟩ := ne_of_startsScalar hc
  cases d <;> simp [value?, hbracket, hbrace]

theorem scalarValue?_text (h : StringText s t) (hr : EndsValue rest) :
    scalarValue? (s ++ rest) = some (.text (String.ofList t), rest) := by
  have hread := string?_append h (hr.ne (by decide)) (hr.ne (by decide))
  obtain ⟨c, u, rfl, hc⟩ := h.eq_cons
  rcases hc with rfl | rfl
  · rw [List.cons_append] at hread ⊢
    rw [scalarValue?, hread]
    rfl
  · rw [List.cons_append] at hread ⊢
    rw [scalarValue?, hread]
    rfl

theorem scalarValue?_moment (h : MomentText s) (hr : EndsValue rest) :
    scalarValue? (s ++ rest) = some (.moment, rest) := by
  have hread := moment?_append h hr
  obtain ⟨c, u, rfl, hc⟩ := h.eq_cons
  have hne {b : Char} (hb : b.isDigit = false) : c ≠ b := ne_of_property (p := Char.isDigit) hc hb
  rw [List.cons_append] at hread ⊢
  unfold scalarValue?
  split
  · next he => exact absurd (List.cons.inj he).1 (hne (by decide))
  · next he => exact absurd (List.cons.inj he).1 (hne (by decide))
  · next he => exact absurd (List.cons.inj he).1 (hne (by decide))
  · next he => exact absurd (List.cons.inj he).1 (hne (by decide))
  · rw [hread]
    rfl

theorem value?_integer (h : IntegerText s n) (hr : EndsValue rest) (d : Nat) :
    value? d (s ++ rest) = (integer? n).map (·, rest) := by
  rw [value?_scalar h.startsScalar, scalarValue?_integer h hr]

theorem Grammar.PathText.head {n : Nat} {keys : List String} (h : PathText n p keys) {c : Char}
    (hc : startsKey c = false) (hblank : isBlank c = false) : (skipBlanks (p ++ rest)).head? ≠ some c ∧
      (p ++ rest).head? ≠ some c := by
  obtain ⟨w, b, u, rfl, hw, hb⟩ := h.eq_append
  have hne : b ≠ c := ne_of_property hb hc
  rw [List.append_assoc, skipBlanks_append hw, List.cons_append, skipBlanks_cons (isBlank_of_startsKey hb)]
  refine ⟨by simpa using hne, ?_⟩
  cases w with
  | nil => simpa using hne
  | cons a w =>
    intro he
    cases he
    rw [isBlank_iff.2 (hw _ (.head _))] at hblank
    cases hblank

/-- A pair is read up to its value. -/
theorem pair?_append (value : ValueReader) (hp : PathText pathLimit p (path ++ [key])) (hw : Blanks w)
    (hs : Starts s) :
    pair? value (p ++ '=' :: (w ++ (s ++ rest))) =
      (value (s ++ rest)).map (fun (i, r) => ((path, key, i), r)) := by
  have hends : EndsPath ('=' :: (w ++ (s ++ rest))) := by
    intro c hc
    cases hc
    decide
  have hreverse : (path ++ [key]).reverse = key :: path.reverse := by simp
  simp only [pair?, keyPath?_append hp hends, Option.bind_eq_bind, Option.bind_some, hreverse,
    skipBlanks_append hw, hs.skipBlanks, List.reverse_reverse]
  exact Option.map_eq_bind.symm

/-- What is read where a text of the grammar comes next. -/
def Taken (d : Nat) (s : Chars) : Meaning → Prop
  | .item i => ∀ rest, EndsValue rest → value? d (s ++ rest) = some (i, rest)
  | .elements is => ∀ rest steps done, s.length < steps →
      elements? (value? d) steps done (s ++ ']' :: rest) = some (.array (done.reverse ++ is), rest)
  | .pairs ps => ∀ rest steps members members', s.length < steps → assignAll members ps = some members' →
      pairs? (value? d) steps members (s ++ '}' :: rest) = some (.table .braces members', rest)

theorem Starts.ne_bracket (h : Starts s) : (s ++ rest).head? ≠ some ']' := by
  obtain ⟨c, u, rfl, -, hc⟩ := h
  intro he
  cases he
  exact hc (by decide)

/-- A text of the grammar is read as what it denotes. -/
theorem taken_of_writes {m : Meaning} (h : Writes limits d s m) : Taken d s m := by
  -- every element and every pair takes a character, so the steps that are left exceed the text that is left
  induction h with
  | text h =>
    intro rest hr
    rw [value?_scalar h.startsScalar, scalarValue?_text h hr]
  | integer h low high =>
    intro rest hr
    rw [value?_integer h hr, integer?, if_pos (by simp [low, high])]
    rfl
  | decimal h taken =>
    intro rest hr
    rw [value?_scalar h.startsScalar,
      scalarValue?_decimalText h (taken.resolve_left (by decide)) hr]
  | special h =>
    intro rest hr
    rw [value?_scalar h.startsScalar, scalarValue?_special h]
  | true =>
    intro rest hr
    rw [value?_scalar ⟨'t', _, rfl, by decide⟩]
    rfl
  | false =>
    intro rest hr
    rw [value?_scalar ⟨'f', _, rfl, by decide⟩]
    rfl
  | moment h =>
    intro rest hr
    rw [value?_scalar h.startsScalar, scalarValue?_moment h hr]
  | @array d s is _ ih =>
    intro rest hr
    rw [List.cons_append, List.append_assoc, List.singleton_append, value?]
    exact ih rest _ [] (by rw [List.length_append]; omega)
  | noElements hw =>
    intro rest steps done hsteps
    obtain ⟨steps, rfl⟩ := Nat.exists_eq_add_of_lt (Nat.zero_lt_of_lt hsteps)
    rw [Nat.zero_add, elements?, skipGap_append hw, skipGap_cons (by decide) (by decide) (by decide) (by decide),
      List.append_nil]
    rfl
  | @lastElement d w s w' i hw hs hw' ih =>
    intro rest steps done hsteps
    obtain ⟨steps, rfl⟩ := Nat.exists_eq_add_of_lt (Nat.zero_lt_of_lt hsteps)
    have hread := ih (w' ++ ']' :: rest) (endsValue_gap hw' (endsValue_cons (by decide)))
    have hclose : skipGap false (w' ++ ']' :: rest) = ']' :: rest := by
      rw [skipGap_append hw', skipGap_cons (by decide) (by decide) (by decide) (by decide)]
    simp only [Nat.zero_add, elements?, List.append_assoc, skipGap_append hw, hs.starts.skipGap]
    split
    · next he => exact absurd (congrArg List.head? he) hs.starts.ne_bracket
    · simp [hread, hclose]
  | @nextElement d w s w' t i is hw hs hw' _ ih ih' =>
    intro rest steps done hsteps
    obtain ⟨steps, rfl⟩ := Nat.exists_eq_add_of_lt (Nat.zero_lt_of_lt hsteps)
    have hread := ih (w' ++ ',' :: (t ++ ']' :: rest)) (endsValue_gap hw' (endsValue_cons (by decide)))
    have hcomma : skipGap false (w' ++ ',' :: (t ++ ']' :: rest)) = ',' :: (t ++ ']' :: rest) := by
      rw [skipGap_append hw', skipGap_cons (by decide) (by decide) (by decide) (by decide)]
    have hlength : t.length < steps := by simp at hsteps; omega
    have hrest := ih' rest steps (i :: done) hlength
    simp only [Nat.zero_add, elements?, List.append_assoc, List.cons_append, skipGap_append hw, hs.starts.skipGap]
    split
    · next he => exact absurd (congrArg List.head? he) hs.starts.ne_bracket
    · simp [hread, hcomma, hrest]
  | emptyTable hw =>
    intro rest hr
    rw [List.cons_append, List.append_assoc, List.singleton_append, value?, braced?, skipBlanks_append hw,
      skipBlanks_cons (by decide)]
    rfl
  | @table d s ps members h hm ih =>
    intro rest hr
    have hhead : (skipBlanks (s ++ '}' :: rest)).head? ≠ some '}' := by
      cases h with
      | lastPair hp _ _ _ =>
        rw [List.append_assoc]
        exact (hp.head (by decide) (by decide)).1
      | nextPair hp _ _ _ _ =>
        rw [List.append_assoc]
        exact (hp.head (by decide) (by decide)).1
    rw [List.cons_append, List.append_assoc, List.singleton_append, value?, braced?]
    split
    · next he => exact absurd (congrArg List.head? he) hhead
    · exact ih rest _ [] members (by rw [List.length_append]; omega) hm
  | @lastPair d p w s w' path key i hp hw hs hw' ih =>
    intro rest steps members members' hsteps hm
    obtain ⟨steps, rfl⟩ := Nat.exists_eq_add_of_lt (Nat.zero_lt_of_lt hsteps)
    have hread := ih (w' ++ '}' :: rest) (endsValue_blanks hw' (endsValue_cons (by decide)))
    have hassign : members.assign .header path key i = some members' := by simpa [assignAll] using hm
    simp only [Nat.zero_add, pairs?, List.append_assoc, List.cons_append, pair?_append _ hp hw hs.starts, hread,
      Option.map_some, Option.bind_eq_bind, Option.bind_some, hassign, skipBlanks_append hw',
      skipBlanks_cons (c := '}') (by decide)]
  | @nextPair d p w s w' t path key i ps hp hw hs hw' _ ih ih' =>
    intro rest steps members members' hsteps hm
    obtain ⟨steps, rfl⟩ := Nat.exists_eq_add_of_lt (Nat.zero_lt_of_lt hsteps)
    have hread := ih (w' ++ ',' :: (t ++ '}' :: rest)) (endsValue_blanks hw' (endsValue_cons (by decide)))
    obtain ⟨between, hassign, hrest⟩ := Option.bind_eq_some_iff.1 hm
    have hlength : t.length < steps := by simp at hsteps; omega
    simp only [Nat.zero_add, pairs?, List.append_assoc, List.cons_append, pair?_append _ hp hw hs.starts, hread,
      Option.map_some, Option.bind_eq_bind, Option.bind_some, hassign, skipBlanks_append hw',
      skipBlanks_cons (c := ',') (by decide)]
    exact ih' rest steps between members' hlength hrest

end

/-! ## Lines -/

section
variable {s t w p r tail : Chars} {d : Draft} {l : Line} {ls : List Line} {path : List String} {key : String}
  {i : Item} {n : Int}

/-- A pair with its line, from a value that is read or refused. -/
theorem line?_pair {o : Option Item} (hp : PathText pathLimit p (path ++ [key])) (hw : Blanks w) (hs : Starts s)
    (hr : Remark r) (ht : Onward tail t)
    (hread : value? depthLimit (s ++ (r ++ tail)) = o.map (·, r ++ tail)) :
    ∃ c u, skipBlanks (p ++ '=' :: (w ++ (s ++ (r ++ tail)))) = c :: u ∧
      line? d (c :: u) = (o.bind (d.assign? path key)).map (·, t) := by
  obtain ⟨v, c, u, rfl, hv, hc⟩ := hp.eq_append
  have hne {b : Char} (hb : startsKey b = false) : c ≠ b := ne_of_property hc hb
  have hskip : skipBlanks (v ++ c :: u ++ '=' :: (w ++ (s ++ (r ++ tail)))) =
      c :: (u ++ '=' :: (w ++ (s ++ (r ++ tail)))) := by
    rw [List.append_assoc, skipBlanks_append hv, List.cons_append, skipBlanks_cons (isBlank_of_startsKey hc)]
  refine ⟨c, _, hskip, ?_⟩
  have hpair : pair? (value? depthLimit) (c :: (u ++ '=' :: (w ++ (s ++ (r ++ tail))))) =
      o.map (fun i => ((path, key, i), r ++ tail)) := by
    have hread' : pair? (value? depthLimit) (v ++ c :: u ++ '=' :: (w ++ (s ++ (r ++ tail)))) =
        (value? depthLimit (s ++ (r ++ tail))).map (fun (i, r) => ((path, key, i), r)) :=
      pair?_append _ hp hw hs
    rw [hread, Option.map_map] at hread'
    rw [pair?, ← hskip, keyPath?_skipBlanks]
    exact hread'
  -- what begins a key begins none of the other lines
  unfold line?
  split
  · next he => exact absurd (List.cons.inj he).1 (hne (by decide))
  · next he => exact absurd (List.cons.inj he).1 (hne (by decide))
  · next he => exact absurd (List.cons.inj he).1 (hne (by decide))
  · next he => exact absurd (List.cons.inj he).1 (hne (by decide))
  · rw [hpair]
    cases o with
    | none => rfl
    | some i =>
      simp only [Option.map_some, Option.bind_eq_bind, Option.bind_some, endLine?_append hr ht]
      cases d.assign? path key i <;> rfl

/-- A header with its line. -/
theorem line?_header {o : Option Draft} (hr : Remark r) (ht : Onward tail t)
    (hread : header? d ('[' :: s) = o.map (·, r ++ tail)) : line? d ('[' :: s) = o.map (·, t) := by
  rw [line?, hread]
  cases o with
  | none => rfl
  | some d' =>
    simp only [Option.map_some, Option.bind_eq_bind, Option.bind_some, endLine?_append hr ht]
    rfl

/-- A value of the grammar has no integer that takes more than 64 bits. -/
theorem Grammar.Writes.checked? {bounds : Bounds} {n : Nat} (h : Writes bounds n s (.item i)) :
    checked? i = some i := by
  cases h with
  | integer _ low high => exact if_pos (by simp [low, high])
  | _ => rfl

/-- A line of the grammar does what it says, unless it is blank and the last one. -/
theorem line?_append (h : LineText limits s l) (ht : Onward tail t) (hblank : Blanks s → tail ≠ []) :
    ∃ c u, skipBlanks (s ++ tail) = c :: u ∧ line? d (c :: u) = (d.perform? l).map (·, t) := by
  cases h with
  | nothing hr =>
    cases hr with
    | blank hw =>
      rw [skipBlanks_append hw, ht.skipBlanks]
      cases ht with
      | stop => exact absurd rfl (hblank hw)
      | @line e t he =>
        -- the blanks are skipped up to the end of the line, which is all that is read of it
        have hnewline : newline? (e ++ t) = some t := newline?_append he
        obtain ⟨c, u, rfl, -, -, hc⟩ := he.eq_cons
        refine ⟨c, u ++ t, rfl, ?_⟩
        rw [List.cons_append] at hnewline
        rcases hc with rfl | rfl <;> rw [line?, hnewline] <;> rfl
    | comment hw hu =>
      have hend := endLine?_comment hu ht
      obtain ⟨v, rfl, -⟩ := hu
      rw [List.append_assoc, skipBlanks_append hw, List.cons_append, skipBlanks_cons (by decide)]
      refine ⟨'#', v ++ tail, rfl, ?_⟩
      rw [List.cons_append] at hend
      rw [line?, hend]
      rfl
  | @table w p r path hw hp hr =>
    have hpath : keyPath? pathLimit (p ++ ']' :: (r ++ tail)) = some (path, ']' :: (r ++ tail)) :=
      keyPath?_append hp (fun c hc => by cases hc; decide)
    have hne : (p ++ ']' :: (r ++ tail)).head? ≠ some '[' := (hp.head (by decide) (by decide)).2
    simp only [List.append_assoc, List.cons_append, skipBlanks_append hw]
    refine ⟨'[', _, skipBlanks_cons (by decide), ?_⟩
    have hheader : header? d ('[' :: (p ++ ']' :: (r ++ tail))) = (d.startTable? path).map (·, r ++ tail) := by
      unfold header?
      split
      · next he => exact absurd (congrArg List.head? (List.cons.inj he).2) hne
      · next he =>
        obtain rfl := (List.cons.inj he).2
        rw [hpath]
        exact Option.map_eq_bind.symm
      · next he => exact absurd rfl (he _)
    exact line?_header hr ht hheader
  | @element w p r path hw hp hr =>
    have hpath : keyPath? pathLimit (p ++ ']' :: ']' :: (r ++ tail)) = some (path, ']' :: ']' :: (r ++ tail)) :=
      keyPath?_append hp (fun c hc => by cases hc; decide)
    simp only [List.append_assoc, List.cons_append, skipBlanks_append hw]
    refine ⟨'[', _, skipBlanks_cons (by decide), ?_⟩
    have hheader : header? d ('[' :: '[' :: (p ++ ']' :: ']' :: (r ++ tail))) =
        (d.startElement? path).map (·, r ++ tail) := by
      rw [header?, hpath]
      exact Option.map_eq_bind.symm
    exact line?_header hr ht hheader
  | @pair p w s r path key i hp hw hs hr =>
    have hread : value? depthLimit (s ++ (r ++ tail)) = (checked? i).map (·, r ++ tail) := by
      rw [hs.checked?]
      exact taken_of_writes hs _ (endsValue_remark hr ht)
    simp only [List.append_assoc, List.cons_append]
    exact line?_pair hp hw hs.starts hr ht hread
  | integer hp hw hs hr =>
    have hread := value?_integer hs (endsValue_remark hr ht) depthLimit
    simp only [List.append_assoc, List.cons_append]
    exact line?_pair hp hw (.of_scalar hs.startsScalar) hr ht hread

/-- A line has nothing but blanks on it, or something that is no blank behind them. -/
theorem Grammar.LineText.first {bounds : Bounds} (h : LineText bounds s l) : l = .nothing ∧ Blanks s ∨
    ∃ w c u, s = w ++ c :: u ∧ Blanks w ∧ (c = '#' ∨ c = '[' ∨ startsKey c = true) := by
  have hpath {n : Nat} {p u : Chars} {keys : List String} (hp : PathText n p keys) :
      ∃ w c v, p ++ u = w ++ c :: v ∧ Blanks w ∧ (c = '#' ∨ c = '[' ∨ startsKey c = true) := by
    obtain ⟨w, c, v, rfl, hw, hc⟩ := hp.eq_append
    exact ⟨w, c, v ++ u, by rw [List.append_assoc]; rfl, hw, .inr (.inr hc)⟩
  cases h with
  | nothing hr =>
    cases hr with
    | blank hw => exact .inl ⟨rfl, hw⟩
    | comment hw ht =>
      obtain ⟨u, rfl, -⟩ := ht
      exact .inr ⟨_, '#', u, rfl, hw, .inl rfl⟩
  | table hw _ _ => exact .inr ⟨_, '[', _, rfl, hw, .inr (.inl rfl)⟩
  | element hw _ _ => exact .inr ⟨_, '[', _, rfl, hw, .inr (.inl rfl)⟩
  | pair hp _ _ _ => exact .inr (hpath hp)
  | integer hp _ _ _ => exact .inr (hpath hp)

theorem Grammar.LineText.eq_nothing {bounds : Bounds} (h : LineText bounds s l) (hs : Blanks s) : l = .nothing := by
  rcases h.first with ⟨rfl, -⟩ | ⟨w, c, u, rfl, -, hc⟩
  · rfl
  · have hblank : isBlank c = true := isBlank_iff.2 (hs c (by simp))
    rcases hc with rfl | rfl | hc
    · cases hblank
    · cases hblank
    · rw [isBlank_of_startsKey hc] at hblank
      cases hblank

theorem lines?_nil {steps : Nat} (h : 0 < steps) : lines? steps d [] = d.close? := by
  cases steps with
  | zero => cases h
  | succ steps => rfl

theorem lines?_cons {c : Char} {u : Chars} {steps : Nat} (h : skipBlanks s = c :: u) :
    lines? (steps + 1) d s = (line? d (c :: u)).bind (fun (d, t) => lines? steps d t) := by
  rw [lines?, h]
  rfl

/-- The lines of a text are read one after the other. -/
theorem lines?_append (h : LinesText limits s ls) {steps : Nat} (hsteps : s.length < steps) (d : Draft) :
    lines? steps d s = d.finish? ls := by
  induction h generalizing steps d with
  | @last s l hl =>
    -- there are more steps than characters, so one is left for this line
    obtain ⟨steps, rfl⟩ := Nat.exists_eq_add_of_lt (Nat.zero_lt_of_lt hsteps)
    rw [Nat.zero_add]
    by_cases hblank : Blanks s
    · obtain rfl := hl.eq_nothing hblank
      have hskip : skipBlanks s = [] := by
        rw [← List.append_nil s, skipBlanks_append hblank]
        rfl
      rw [lines?, hskip]
      rfl
    · obtain ⟨c, u, hskip, hline⟩ := line?_append (d := d) hl .stop (fun h => absurd h hblank)
      rw [List.append_nil] at hskip
      have hne : s ≠ [] := by
        rintro rfl
        cases hskip
      have hlength := List.length_pos_iff.2 hne
      rw [lines?_cons hskip, hline, Draft.finish?_cons]
      cases d.perform? l with
      | none => rfl
      | some d' => exact lines?_nil (by omega)
  | @next s e t l ls hl he _ ih =>
    obtain ⟨steps, rfl⟩ := Nat.exists_eq_add_of_lt (Nat.zero_lt_of_lt hsteps)
    rw [Nat.zero_add]
    obtain ⟨c, u, hskip, hline⟩ := line?_append (d := d) hl (.line (t := t) he) (fun _ => by simp [he.ne_nil])
    rw [lines?_cons hskip, hline, Draft.finish?_cons]
    cases d.perform? l with
    | none => rfl
    | some d' =>
      have hlength := List.length_pos_iff.2 he.ne_nil
      exact ih (by simp at hsteps; omega) d'

/-- No line begins with a byte order mark. -/
theorem Grammar.LinesText.head {bounds : Bounds} (h : LinesText bounds s ls) : s.head? ≠ some '\ufeff' := by
  have hline {s t : Chars} {l : Line} (hl : LineText bounds s l) (ht : t.head? ≠ some '\ufeff') :
      (s ++ t).head? ≠ some '\ufeff' := by
    intro he
    cases s with
    | nil => exact ht he
    | cons c s =>
      cases he
      -- a line begins with a blank, or with a character that can begin one
      rcases hl.first with ⟨-, hs⟩ | ⟨w, b, u, hs, hw, hb⟩
      · exact absurd (hs _ (.head _)) (by decide)
      · cases w with
        | nil =>
          obtain rfl := (List.cons.inj hs).1
          exact absurd hb (by decide)
        | cons a w =>
          obtain rfl := (List.cons.inj hs).1
          exact absurd (hw _ (.head _)) (by decide)
  cases h with
  | last hl =>
    have := hline hl (t := []) (by simp)
    rwa [List.append_nil] at this
  | next hl he _ =>
    obtain ⟨c, u, rfl, -, -, hc⟩ := he.eq_cons
    exact hline hl (by rcases hc with rfl | rfl <;> simp)

/-- A document of the grammar is read as its lines, one after the other. -/
theorem document?_eq {text : String} (h : DocumentText limits text ls) : document? text = build? ls := by
  obtain ⟨s, htext, hs⟩ := h
  have hread := lines?_append hs (Nat.lt_succ_self _) .blank
  rcases htext with htext | htext
  · have hhead := hs.head
    unfold document?
    rw [htext]
    split
    · exact absurd rfl hhead
    · exact hread
  · unfold document?
    rw [htext]
    exact hread

end

end ShapeLedger.Toml
