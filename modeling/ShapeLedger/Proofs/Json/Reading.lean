/-
The document reader against the grammar: it accepts exactly the texts of the grammar, at any depth, and
gives each the value that it denotes.

The reader keeps its open brackets on a stack, and the grammar nests. So each piece of a text is shown to
take the reader from wanting a value to holding the one that the piece denotes, whatever is open around
it; and a run is shown to have behind it a text for every bracket that was open. Between tokens the reader
skips blanks before it looks, and the grammar has them around elements and before keys and colons.
-/
import ShapeLedger.Analysis.Document
import ShapeLedger.Proofs.Json.Members
import ShapeLedger.Proofs.Json.Numeral
import ShapeLedger.Proofs.Json.Scan
import ShapeLedger.Proofs.Json.StringLiteral

namespace ShapeLedger.Json

open Ascii Grammar

/-! ## Scalars and keys -/

section
variable {s t r : Bytes} {v : Value}

theorem readScalar_sound (h : readScalar s = .ok (v, r)) : ∃ t, Denotes t (.value v) ∧ s = t ++ r := by
  unfold readScalar at h
  split at h
  · cases h
  · next b u =>
    split at h
    · next hb =>
      obtain ⟨u', hw, he⟩ := map_eq_ok h
      cases he
      exact ⟨_, .null, by rw [hb, readWord_eq_ok.1 hw]; rfl⟩
    · split at h
      · next hb =>
        obtain ⟨u', hw, he⟩ := map_eq_ok h
        cases he
        exact ⟨_, .true, by rw [hb, readWord_eq_ok.1 hw]; rfl⟩
      · split at h
        · next hb =>
          obtain ⟨u', hw, he⟩ := map_eq_ok h
          cases he
          exact ⟨_, .false, by rw [hb, readWord_eq_ok.1 hw]; rfl⟩
        · split at h
          · next hb =>
            obtain ⟨⟨t, u'⟩, ht, he⟩ := map_eq_ok h
            cases he
            obtain ⟨q, hq, hquoted⟩ := readString_eq_ok.1 ht
            exact ⟨q, .text hquoted, by rw [hb, hq]⟩
          · split at h
            · obtain ⟨⟨x, u'⟩, hx, he⟩ := map_eq_ok h
              cases he
              obtain ⟨y, n, hy, hn, hs⟩ := readNumber_sound hx
              exact ⟨y, .number hy hn, hs⟩
            · cases h

theorem readKey_eq_ok {key : String} : readKey s = .ok (key, r) ↔
    ∃ k w, quote :: s = k ++ (w ++ colon :: r) ∧ Quoted k key ∧ Blank w := by
  constructor
  · intro h
    unfold readKey at h
    split at h
    · cases h
    · next key' u hs =>
      obtain ⟨u', hc, he⟩ := map_eq_ok h
      cases he
      obtain ⟨k, hk, hquoted⟩ := readString_eq_ok.1 hs
      obtain ⟨w, hw, rfl⟩ := readColon_eq_ok.1 hc
      exact ⟨k, w, hk, hquoted, hw⟩
  · rintro ⟨k, w, hs, hk, hw⟩
    simp only [readKey, readString_eq_ok.2 ⟨k, hs, hk⟩, readColon_eq_ok.2 ⟨w, hw, rfl⟩, Except.map]

/-- A number starts with a minus sign or a digit. -/
theorem Grammar.Literal.head {n : Numeral} (h : Literal s n) :
    ∃ b t, s = b :: t ∧ (b = minus ∨ isDigit b = true) := by
  cases h with
  | @mk negative whole _ _ _ _ hw =>
    cases negative with
    | true => exact ⟨minus, _, rfl, .inl rfl⟩
    | false =>
      cases hw with
      | zero => exact ⟨zero, _, rfl, .inr (by decide)⟩
      | digits hd =>
        obtain ⟨b, t, rfl⟩ := List.exists_cons_of_ne_nil hd.1
        exact ⟨b, _, rfl, .inr (hd.2 b List.mem_cons_self)⟩

end

/-! ## What follows a value -/

theorem Stops.append {r w : Bytes} (hr : Stops r) (hw : Blank w) : Stops (w ++ r) := by
  cases w with
  | nil => exact hr
  | cons b w =>
    rcases hw b List.mem_cons_self with rfl | rfl | rfl | rfl <;>
      exact stops_cons (by decide) (by decide) (by decide)

theorem stops_bracket (r : Bytes) : Stops (closeBracket :: r) :=
  stops_cons (by decide) (by decide) (by decide)

theorem stops_brace (r : Bytes) : Stops (closeBrace :: r) :=
  stops_cons (by decide) (by decide) (by decide)

theorem stops_comma (r : Bytes) : Stops (comma :: r) :=
  stops_cons (by decide) (by decide) (by decide)

/-! ## Texts are read -/

/-- A byte that starts a value: no blank, and no closing bracket. -/
def Starts (s : Bytes) : Prop := ∃ b t, s = b :: t ∧ isSpace b = false ∧ b ≠ closeBracket

/-- The reader gets from wanting a value to holding `v` over the text `s`, whatever follows that does
not prolong it. -/
def Reaches (s : Bytes) (v : Value) : Prop :=
  ∀ stack rest, Stops rest → run none (.wanting stack (s ++ rest)) = run none (.holding stack v rest)

/-- What the reader makes of a piece of a text. A text with blanks behind it leaves those, and members
are read from behind the quote of their first key. -/
def Reads (s : Bytes) : Meaning → Prop
  | .value v => Starts s ∧ Reaches s v
  | .element v => ∃ w t w', Blank w ∧ Starts t ∧ Blank w' ∧ s = w ++ (t ++ w') ∧ Reaches t v
  | .elements vs => (∃ w t, Blank w ∧ Starts t ∧ s = w ++ t) ∧
      ∀ done stack rest, run none (.wanting (.array done :: stack) (s ++ closeBracket :: rest)) =
        run none (.holding stack (.array (done.reverse ++ vs)) rest)
  | .member key v => ∃ w t, Blank w ∧ s = w ++ quote :: t ∧ ∀ rest, Stops rest →
      ∃ u w', readKey (t ++ rest) = .ok (key, u) ∧ Blank w' ∧
        ∀ stack, run none (.wanting stack u) = run none (.holding stack v (w' ++ rest))
  | .members ms => ∃ w t, Blank w ∧ s = w ++ quote :: t ∧ ∀ rest,
      ∃ key u, readKey (t ++ closeBrace :: rest) = .ok (key, u) ∧ ∀ done stack,
        run none (.wanting (.object done key :: stack) u) =
          run none (.holding stack (.object (putAll done ms)) rest)
  | .record ms => Starts s ∧ Reaches s (.object (merged ms))

section
variable {s t w w' rest : Bytes} {v : Value} {stack : List Frame}

/-- With no bracket open, the value that is held is that of the document. -/
theorem run_closed (v : Value) (s : Bytes) : run none (.holding [] v s) = .ok (v, s) := by rw [run]

theorem run_holding {frame : Frame} {next : State} (h : readClosing frame stack v s = .ok next) :
    run none (.holding (frame :: stack) v s) = run none next := by
  rw [run]
  split
  · next hc => rw [h] at hc; cases hc
  · next hc => rw [h] at hc; cases hc; rfl

theorem run_wanting {next : State} (h : readOpening none stack s = .ok next) :
    run none (.wanting stack s) = run none next := by
  rw [run]
  split
  · next hc => rw [h] at hc; cases hc
  · next hc => rw [h] at hc; cases hc; rfl

/-- Blanks in front of a value make no difference. -/
theorem run_blank (hw : Blank w) (s : Bytes) :
    run none (.wanting stack (w ++ s)) = run none (.wanting stack s) := by
  have hopen : readOpening none stack (w ++ s) = readOpening none stack s := by
    rw [readOpening, readOpening, skipSpace_append hw]
  rw [run, run, hopen]

theorem Starts.skip {s : Bytes} (h : Starts s) (rest : Bytes) : skipSpace (s ++ rest) = s ++ rest := by
  obtain ⟨b, t, rfl, hb, -⟩ := h
  exact skipSpace_eq_cons.2 ⟨hb, [], blank_nil, rfl⟩

/-- A byte that starts neither a container nor a blank, and ends no array. -/
def IsBare (b : UInt8) : Prop := isSpace b = false ∧ b ≠ closeBracket ∧ b ≠ openBracket ∧ b ≠ openBrace

instance (b : UInt8) : Decidable (IsBare b) := inferInstanceAs (Decidable (_ ∧ _))

/-! ### Scalars -/

/-- A scalar is held as soon as it is read. -/
theorem reads_scalar {b : UInt8} (hb : IsBare b)
    (h : ∀ rest, Stops rest → readScalar (b :: (s ++ rest)) = .ok (v, rest)) :
    Reads (b :: s) (.value v) := by
  have hs : Starts (b :: s) := ⟨b, s, rfl, hb.1, hb.2.1⟩
  refine ⟨hs, fun stack rest hr => run_wanting ?_⟩
  rw [readOpening, hs.skip, List.cons_append]
  simp only [hb.2.2.1, hb.2.2.2, if_false, h rest hr, Except.map]

theorem reads_word {b : UInt8} (hb : IsBare b)
    (h : ∀ r, readScalar (b :: r) = (readWord s r).map (v, ·)) : Reads (b :: s) (.value v) := by
  refine reads_scalar hb fun rest _ => ?_
  rw [h, readWord_eq_ok.2 rfl]
  rfl

/-- The first byte of a number is none of those that start something else. -/
theorem ne_of_starts_number {b c : UInt8} (hb : (b = minus || isDigit b) = true)
    (hc : (c = minus || isDigit c) = false) : b ≠ c := by
  rintro rfl
  rw [hb] at hc
  cases hc

theorem isBare_number {b : UInt8} (hb : (b = minus || isDigit b) = true) : IsBare b := by
  refine ⟨?_, ne_of_starts_number hb (by decide), ne_of_starts_number hb (by decide),
    ne_of_starts_number hb (by decide)⟩
  rw [← Bool.not_eq_true, isSpace_iff]
  rintro (rfl | rfl | rfl | rfl) <;> exact absurd hb (by decide)

theorem reads_number {n : Numeral} {x : Number} (hs : Literal s n) (hx : NumberDenotes n x) :
    Reads s (.value (.number x)) := by
  have hread (rest : Bytes) (hr : Stops rest) := readNumber_complete hs hx hr
  obtain ⟨b, t, rfl, hb⟩ := hs.head
  have hb : (b = minus || isDigit b) = true := by simpa using hb
  refine reads_scalar (isBare_number hb) fun rest hr => ?_
  have hn : b ≠ 0x6E := ne_of_starts_number hb (by decide)
  have ht : b ≠ 0x74 := ne_of_starts_number hb (by decide)
  have hf : b ≠ 0x66 := ne_of_starts_number hb (by decide)
  have hq : b ≠ quote := ne_of_starts_number hb (by decide)
  have hread := hread rest hr
  rw [List.cons_append] at hread
  simp only [readScalar, hn, ht, hf, hq, if_false, hb, if_true, hread, Except.map]

theorem reads_text {x : String} (hs : Quoted s x) : Reads s (.value (.text x)) := by
  cases hs with
  | @mk body _ h =>
    refine reads_scalar (by decide) fun rest _ => ?_
    have hread : readString (body ++ [quote] ++ rest) = .ok (x, rest) := readString_eq_ok.2 ⟨_, rfl, .mk h⟩
    exact congrArg (Except.map fun p => (Value.text p.1, p.2)) hread

/-! ### Containers -/

theorem readOpening_bracket (stack : List Frame) (s : Bytes) :
    readOpening none stack (openBracket :: s) = openArray stack s := rfl

theorem readOpening_brace (stack : List Frame) (s : Bytes) :
    readOpening none stack (openBrace :: s) = openObject stack s := rfl

theorem starts_bracket (s : Bytes) : Starts (openBracket :: s) := ⟨_, _, rfl, by decide, by decide⟩

theorem starts_brace (s : Bytes) : Starts (openBrace :: s) := ⟨_, _, rfl, by decide, by decide⟩

theorem Starts.firstElement (ht : Starts t) (hw : Blank w) (rest : Bytes) :
    Json.firstElement (w ++ (t ++ rest)) = .ok (.item (t ++ rest)) := by
  obtain ⟨b, u, rfl, hspace, hb⟩ := ht
  exact firstElement_item.2 ⟨b, u ++ rest, rfl, hb, hspace, w, hw, rfl⟩

theorem reads_emptyArray (hw : Blank w) :
    Reads (openBracket :: (w ++ [closeBracket])) (.value (.array [])) := by
  refine ⟨starts_bracket _, fun stack rest _ => run_wanting ?_⟩
  rw [List.cons_append, readOpening_bracket, openArray, firstElement_done.2 ⟨w, hw, List.append_assoc ..⟩]
  rfl

theorem reads_array {vs : List Value} (h : Reads s (.elements vs)) :
    Reads (openBracket :: (s ++ [closeBracket])) (.value (.array vs)) := by
  obtain ⟨⟨w, t, hw, ht, rfl⟩, hrun⟩ := h
  refine ⟨starts_bracket _, fun stack rest _ => ?_⟩
  have hopen : readOpening none stack (openBracket :: (w ++ (t ++ closeBracket :: rest))) =
      .ok (.wanting (.array [] :: stack) (t ++ closeBracket :: rest)) := by
    rw [readOpening_bracket, openArray, ht.firstElement hw]
  have hall := hrun [] stack rest
  rw [List.append_assoc, run_blank hw, ← run_wanting hopen] at hall
  simpa using hall

theorem reads_element (hw : Blank w) (hs : Reads s (.value v)) (hw' : Blank w') :
    Reads (w ++ (s ++ w')) (.element v) := ⟨w, s, w', hw, hs.1, hw', rfl, hs.2⟩

/-- An element is read with the blanks in front of it, and those behind it are left. -/
theorem Reads.run_element (h : Reads s (.element v)) : ∃ w', Blank w' ∧ ∀ stack rest, Stops rest →
    run none (.wanting stack (s ++ rest)) = run none (.holding stack v (w' ++ rest)) := by
  obtain ⟨w, t, w', hw, ht, hw', rfl, hrun⟩ := h
  refine ⟨w', hw', fun stack rest hr => ?_⟩
  rw [List.append_assoc, List.append_assoc, run_blank hw]
  exact hrun stack (w' ++ rest) (hr.append hw')

theorem Reads.starts_element (h : Reads s (.element v)) : ∃ w t, Blank w ∧ Starts t ∧ s = w ++ t := by
  obtain ⟨w, t, w', hw, ⟨b, u, rfl, hb⟩, hw', rfl, -⟩ := h
  exact ⟨w, _, hw, ⟨b, u ++ w', rfl, hb⟩, rfl⟩

theorem reads_lastElement (h : Reads s (.element v)) : Reads s (.elements [v]) := by
  refine ⟨h.starts_element, fun done stack rest => ?_⟩
  obtain ⟨w', hw', hrun⟩ := h.run_element
  have hclose : readClosing (.array done) stack v (w' ++ closeBracket :: rest) =
      .ok (.holding stack (.array (v :: done).reverse) rest) := by
    rw [readClosing, nextElement_done.2 ⟨w', hw', rfl⟩]
  rw [hrun _ _ (stops_bracket rest), run_holding hclose, List.reverse_cons]

theorem reads_nextElement {vs : List Value} (hs : Reads s (.element v)) (ht : Reads t (.elements vs)) :
    Reads (s ++ comma :: t) (.elements (v :: vs)) := by
  obtain ⟨⟨w, t, hw, hstart, rfl⟩, hall⟩ := ht
  obtain ⟨w', hw', hrun⟩ := hs.run_element
  constructor
  · obtain ⟨w, t, hw, ⟨b, u, rfl, hb⟩, rfl⟩ := hs.starts_element
    exact ⟨w, _, hw, ⟨b, _, rfl, hb⟩, List.append_assoc ..⟩
  · intro done stack rest
    have hclose : readClosing (.array done) stack v (w' ++ comma :: (w ++ (t ++ closeBracket :: rest))) =
        .ok (.wanting (.array (v :: done) :: stack) (t ++ closeBracket :: rest)) := by
      rw [readClosing, nextElement_item.2 ⟨_, ⟨w', hw', rfl⟩, hstart.firstElement hw _⟩]
    have hall := hall (v :: done) stack rest
    rw [List.append_assoc, run_blank hw, ← run_holding hclose, ← hrun _ _ (stops_comma _)] at hall
    simpa using hall

theorem reads_member {k : Bytes} {key : String} (hw : Blank w) (hk : Quoted k key) (hw' : Blank w')
    (h : Reads s (.element v)) : Reads (w ++ (k ++ (w' ++ colon :: s))) (.member key v) := by
  obtain ⟨u, hu, hrun⟩ := h.run_element
  obtain ⟨body, rfl⟩ : ∃ body, k = quote :: body := by cases hk; exact ⟨_, rfl⟩
  refine ⟨w, _, hw, rfl, fun rest hr => ⟨s ++ rest, u, ?_, hu, fun stack => hrun stack rest hr⟩⟩
  exact readKey_eq_ok.2 ⟨_, w', by simp, hk, hw'⟩

theorem reads_lastMember {key : String} (h : Reads s (.member key v)) : Reads s (.members [(key, v)]) := by
  obtain ⟨w, t, hw, rfl, hread⟩ := h
  refine ⟨w, t, hw, rfl, fun rest => ?_⟩
  obtain ⟨u, w', hkey, hw', hrun⟩ := hread (closeBrace :: rest) (stops_brace rest)
  refine ⟨key, u, hkey, fun done stack => ?_⟩
  have hclose : readClosing (.object done key) stack v (w' ++ closeBrace :: rest) =
      .ok (.holding stack (.object (done.put key v)) rest) := by
    rw [readClosing, nextMember_done.2 ⟨w', hw', rfl⟩]
  rw [hrun, run_holding hclose]
  rfl

theorem reads_nextMember {key : String} {ms : Members} (hs : Reads s (.member key v))
    (ht : Reads t (.members ms)) : Reads (s ++ comma :: t) (.members ((key, v) :: ms)) := by
  obtain ⟨w, s, hw, rfl, hread⟩ := hs
  obtain ⟨x, t, hx, rfl, hmembers⟩ := ht
  refine ⟨w, _, hw, List.append_assoc .., fun rest => ?_⟩
  -- what comes behind the comma
  generalize hlater : x ++ quote :: (t ++ closeBrace :: rest) = later
  obtain ⟨u, w', hkey, hw', hrun⟩ := hread (comma :: later) (stops_comma _)
  obtain ⟨next, u', hnext, hall⟩ := hmembers rest
  refine ⟨key, u, by simpa [← hlater] using hkey, fun done stack => ?_⟩
  have hclose : readClosing (.object done key) stack v (w' ++ comma :: later) =
      .ok (.wanting (.object (done.put key v) next :: stack) u') := by
    rw [readClosing, nextMember_item.2 ⟨_, ⟨w', hw', rfl⟩, firstMember_item.2 ⟨x, hx, hlater.symm⟩⟩]
    simp only [hnext, Except.map]
  rw [hrun, run_holding hclose, hall]
  rfl

theorem reads_emptyRecord (hw : Blank w) : Reads (openBrace :: (w ++ [closeBrace])) (.record []) := by
  refine ⟨starts_brace _, fun stack rest _ => run_wanting ?_⟩
  rw [List.cons_append, readOpening_brace, openObject, firstMember_done.2 ⟨w, hw, List.append_assoc ..⟩]
  rfl

theorem reads_record {ms : Members} (h : Reads s (.members ms)) :
    Reads (openBrace :: (s ++ [closeBrace])) (.record ms) := by
  obtain ⟨w, t, hw, rfl, hread⟩ := h
  refine ⟨starts_brace _, fun stack rest _ => ?_⟩
  obtain ⟨key, u, hkey, hrun⟩ := hread rest
  have hopen : readOpening none stack (openBrace :: (w ++ quote :: (t ++ closeBrace :: rest))) =
      .ok (.wanting (.object [] key :: stack) u) := by
    rw [readOpening_brace, openObject, firstMember_item.2 ⟨w, hw, rfl⟩]
    simp only [hkey, Except.map]
  have hall := hrun [] stack
  rw [putAll_eq_merged, ← run_wanting hopen] at hall
  simpa using hall

theorem reads_of_denotes {m : Meaning} (h : Denotes s m) : Reads s m := by
  induction h with
  | null => exact reads_word (by decide) fun _ => rfl
  | true => exact reads_word (by decide) fun _ => rfl
  | false => exact reads_word (by decide) fun _ => rfl
  | number hs hx => exact reads_number hs hx
  | text hs => exact reads_text hs
  | emptyArray hw => exact reads_emptyArray hw
  | array _ ih => exact reads_array ih
  | object _ ih => exact ih
  | element hw _ hw' ih => exact reads_element hw ih hw'
  | lastElement _ ih => exact reads_lastElement ih
  | nextElement _ _ ihs iht => exact reads_nextElement ihs iht
  | member hw hk hw' _ ih => exact reads_member hw hk hw' ih
  | lastMember _ ih => exact reads_lastMember ih
  | nextMember _ _ ihs iht => exact reads_nextMember ihs iht
  | emptyRecord hw => exact reads_emptyRecord hw
  | record _ ih => exact reads_record ih

end

/-! ## What is read is a text -/

/-- The elements behind one that has been read, up to the bracket that closes their array. -/
inductive ElementsRest : Bytes → List Value → Prop where
  | close {w : Bytes} (hw : Blank w) : ElementsRest w []
  | more {w s : Bytes} {vs : List Value} (hw : Blank w) (hs : Denotes s (.elements vs)) :
      ElementsRest (w ++ comma :: s) vs

/-- The members behind a value that has been read, up to the brace that closes their object. -/
inductive MembersRest : Bytes → Members → Prop where
  | close {w : Bytes} (hw : Blank w) : MembersRest w []
  | more {w s : Bytes} {ms : Members} (hw : Blank w) (hs : Denotes s (.members ms)) :
      MembersRest (w ++ comma :: s) ms

/-- With these brackets open and `x` read inside them, the text `s` closes them all and leaves `r`; the
outermost then has the value `v`. -/
def Closes : List Frame → Value → Bytes → Value → Bytes → Prop
  | [], x, s, v, r => x = v ∧ s = r
  | .array done :: stack, x, s, v, r => ∃ u vs s', ElementsRest u vs ∧ s = u ++ closeBracket :: s' ∧
      Closes stack (.array (done.reverse ++ x :: vs)) s' v r
  | .object done key :: stack, x, s, v, r => ∃ u ms s', MembersRest u ms ∧ s = u ++ closeBrace :: s' ∧
      Closes stack (.object (putAll done ((key, x) :: ms))) s' v r

/-- The text that a run has behind it: when a value is wanted, that value comes first. -/
def Derives : State → Value → Bytes → Prop
  | .holding stack x s, v, r => Closes stack x s v r
  | .wanting stack s, v, r => ∃ w t x s', Blank w ∧ Denotes t (.value x) ∧ s = w ++ (t ++ s') ∧
      Closes stack x s' v r

section
variable {s t u w r : Bytes} {v x : Value} {stack : List Frame} {next : State}

/-- A value with what follows it up to the closing bracket makes the elements of an array. -/
theorem ElementsRest.elements {vs : List Value} (h : ElementsRest u vs) (hw : Blank w)
    (ht : Denotes t (.value x)) : Denotes (w ++ (t ++ u)) (.elements (x :: vs)) := by
  cases h with
  | close hu => exact .lastElement (.element hw ht hu)
  | more hu hs => simpa using Denotes.nextElement (.element hw ht hu) hs

/-- A key and a value with what follows them up to the closing brace make the members of an object. -/
theorem MembersRest.members {k w' w'' : Bytes} {key : String} {ms : Members} (h : MembersRest u ms)
    (hw : Blank w) (hk : Quoted k key) (hw' : Blank w') (hw'' : Blank w'') (ht : Denotes t (.value x)) :
    Denotes (w ++ (k ++ (w' ++ colon :: (w'' ++ (t ++ u))))) (.members ((key, x) :: ms)) := by
  cases h with
  | close hu => exact .lastMember (.member hw hk hw' (.element hw'' ht hu))
  | more hu hs => simpa using Denotes.nextMember (.member hw hk hw' (.element hw'' ht hu)) hs

theorem derives_openArray (h : openArray stack s = .ok next) (hn : Derives next v r) :
    Derives (.wanting stack (openBracket :: s)) v r := by
  unfold openArray at h
  split at h
  · cases h
  · next hf =>
    cases h
    obtain ⟨w, hw, rfl⟩ := firstElement_done.1 hf
    exact ⟨[], _, _, _, blank_nil, .emptyArray hw, by simp, hn⟩
  · next hf =>
    cases h
    obtain ⟨-, -, -, -, -, w, hw, rfl⟩ := firstElement_item.1 hf
    obtain ⟨w', t, x, s', hw', ht, rfl, u, vs, s'', hu, rfl, hc⟩ := hn
    exact ⟨[], _, _, s'', blank_nil, .array (hu.elements (hw.append hw') ht), by simp, hc⟩

theorem derives_openObject (h : openObject stack s = .ok next) (hn : Derives next v r) :
    Derives (.wanting stack (openBrace :: s)) v r := by
  unfold openObject at h
  split at h
  · cases h
  · next hf =>
    cases h
    obtain ⟨w, hw, rfl⟩ := firstMember_done.1 hf
    exact ⟨[], _, _, _, blank_nil, .object (.emptyRecord hw), by simp, hn⟩
  · next hf =>
    obtain ⟨⟨key, t⟩, hkey, he⟩ := map_eq_ok h
    cases he
    obtain ⟨w, hw, rfl⟩ := firstMember_item.1 hf
    obtain ⟨k, w', hk, hquoted, hw'⟩ := readKey_eq_ok.1 hkey
    obtain ⟨w'', t, x, s', hw'', ht, rfl, u, ms, s'', hu, rfl, hc⟩ := hn
    rw [putAll_eq_merged] at hc
    refine ⟨[], _, _, s'', blank_nil, .object (.record (hu.members hw hquoted hw' hw'' ht)), ?_, hc⟩
    rw [hk]
    simp

theorem derives_opening (h : readOpening none stack s = .ok next) (hn : Derives next v r) :
    Derives (.wanting stack s) v r := by
  unfold readOpening at h
  split at h
  · cases h
  · next b s' hs =>
    obtain ⟨-, w, hw, rfl⟩ := skipSpace_eq_cons.1 hs
    -- blanks in front of a value belong to it
    have skip (hd : Derives (.wanting stack (b :: s')) v r) :
        Derives (.wanting stack (w ++ b :: s')) v r := by
      obtain ⟨w', t, x, s'', hw', ht, hs, hc⟩ := hd
      exact ⟨w ++ w', t, x, s'', hw.append hw', ht, by rw [hs, List.append_assoc], hc⟩
    apply skip
    -- without a limit a bracket may always be opened
    have hmay : mayOpen none stack = true := rfl
    split at h
    · next hb =>
      rw [hb]
      exact derives_openArray h hn
    · split at h
      · next hb =>
        rw [hb]
        exact derives_openObject h hn
      · obtain ⟨⟨x, u⟩, hx, he⟩ := map_eq_ok h
        cases he
        obtain ⟨t, ht, hs⟩ := readScalar_sound hx
        exact ⟨[], t, x, u, blank_nil, ht, hs, hn⟩

theorem derives_closing {frame : Frame} (h : readClosing frame stack x s = .ok next)
    (hn : Derives next v r) : Closes (frame :: stack) x s v r := by
  unfold readClosing at h
  split at h
  · next done =>
    split at h
    · cases h
    · next hf =>
      cases h
      obtain ⟨w, hw, rfl⟩ := nextElement_done.1 hf
      exact ⟨w, [], _, .close hw, rfl, by rw [List.reverse_cons] at hn; exact hn⟩
    · next hf =>
      cases h
      obtain ⟨_, ⟨w, hw, rfl⟩, hitem⟩ := nextElement_item.1 hf
      obtain ⟨-, -, -, -, -, w', hw', rfl⟩ := firstElement_item.1 hitem
      obtain ⟨w'', t, y, s', hw'', ht, rfl, u, vs, s'', hu, rfl, hc⟩ := hn
      -- what follows the comma begins with the next element, so both lists grow by it
      refine ⟨_, y :: vs, s'', .more hw (hu.elements (hw'.append hw'') ht), by simp, ?_⟩
      simpa using hc
  · next done key =>
    split at h
    · cases h
    · next hf =>
      cases h
      obtain ⟨w, hw, rfl⟩ := nextMember_done.1 hf
      exact ⟨w, [], _, .close hw, rfl, hn⟩
    · next hf =>
      obtain ⟨⟨next, t⟩, hkey, he⟩ := map_eq_ok h
      cases he
      obtain ⟨_, ⟨w, hw, rfl⟩, hitem⟩ := nextMember_item.1 hf
      obtain ⟨w', hw', rfl⟩ := firstMember_item.1 hitem
      obtain ⟨k, w'', hk, hquoted, hw''⟩ := readKey_eq_ok.1 hkey
      obtain ⟨w3, t, y, s', hw3, ht, rfl, u, ms, s'', hu, rfl, hc⟩ := hn
      -- the same for members, whose key is read in the same step
      refine ⟨_, (next, y) :: ms, s'', .more hw (hu.members hw' hquoted hw'' hw3 ht), ?_, hc⟩
      rw [hk]
      simp

theorem derives_of_run {st : State} (h : run none st = .ok (v, r)) : Derives st v r := by
  fun_induction run none st with
  | case1 => cases h
  | case2 stack s next hopen ih => exact derives_opening hopen (ih h)
  | case3 => cases h; exact ⟨rfl, rfl⟩
  | case4 => cases h
  | case5 frame stack v s next hclose ih => exact derives_closing hclose (ih h)

end

/-! ## Documents -/

theorem readDocument_eq_ok {b : Bytes} {v : Value} : readDocument none b = .ok v ↔ Text b v := by
  unfold readDocument
  constructor
  · intro h
    split at h
    · cases h
    · next x r hrun =>
      obtain ⟨⟨⟩, hend, hv⟩ := map_eq_ok h
      obtain ⟨w, t, y, s', hw, ht, rfl, rfl, rfl⟩ := derives_of_run hrun
      exact hv ▸ .element hw ht (readEnd_eq_ok.1 hend)
  · intro h
    obtain ⟨w, hw, hrun⟩ := (reads_of_denotes h).run_element
    have hread := hrun [] [] stops_nil
    rw [List.append_nil, List.append_nil, run_closed] at hread
    simp only [hread, readEnd_eq_ok.2 hw, Except.map]

end ShapeLedger.Json

namespace ShapeLedger.Document

open Json

/-- The value of a document is the one that is read, and a refusal is located in its text. -/
theorem decode_eq_ok {b : Bytes} {v : Value} : decode b = .ok v ↔ readDocument none b = .ok v := by
  rw [decode, parse]
  cases readDocument none b <;> simp [Except.mapError]

theorem decode_eq_error {b : Bytes} {e : Json.Error} :
    decode b = .error e ↔ ∃ f, readDocument none b = .error f ∧ Error.locate b f = e := by
  rw [decode, parse]
  cases readDocument none b <;> simp [Except.mapError]

/-- The decoder accepts a text exactly when it is one of the grammar, and gives it the value that the
grammar says it denotes. -/
theorem decode_eq_ok_iff_text (b : Bytes) (v : Value) : decode b = .ok v ↔ Grammar.Text b v :=
  decode_eq_ok.trans readDocument_eq_ok

end ShapeLedger.Document
