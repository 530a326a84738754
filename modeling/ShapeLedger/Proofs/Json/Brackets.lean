/-
The reader with a limit on depth beside the one without. Where the limited reader complains of anything but
depth, or of nothing, the other one says the same; and it complains of depth exactly at the first bracket that
the other one opens inside as many as the limit allows.

How many brackets are open can be told from the text alone: they are those that it opens and does not close,
the ones inside strings left out (`comes_scan`). That holds at every step of the reader, since all that it
passes over in one step, a whole scalar or a key among it, leaves the count where it was.
-/
import ShapeLedger.Proofs.Json.Depth
import ShapeLedger.Proofs.Json.Reading
import Mathlib.Logic.Relation

namespace ShapeLedger.Json

open Ascii Grammar

/-! ## Definitions -/

/-- One step of the reader without a limit. -/
inductive Next : State → State → Prop where
  | opening {stack : List Frame} {s : Bytes} {st : State} (h : readOpening none stack s = .ok st) :
      Next (.wanting stack s) st
  | closing {frame : Frame} {stack : List Frame} {v : Value} {s : Bytes} {st : State}
      (h : readClosing frame stack v s = .ok st) : Next (.holding (frame :: stack) v s) st

/-- The reader without a limit comes to a state in a text, with nothing wrong so far. -/
def Comes (input : Bytes) : State → Prop := Relation.ReflTransGen Next (.wanting [] input)

/-- The reader without a limit opens the bracket `b` behind the bytes `before`, while `n` others are open. -/
def OpensInside (n : Nat) (input before : Bytes) (b : UInt8) : Prop :=
  ∃ stack s rest, Comes input (.wanting stack s) ∧ stack.length = n ∧ skipSpace s = b :: rest ∧
    (b = openBracket ∨ b = openBrace) ∧ input = before ++ b :: rest

/-- No earlier bracket is opened while `n` others are open. -/
structure OpensFirst (n : Nat) (input before : Bytes) (b : UInt8) : Prop where
  opens : OpensInside n input before b
  first : ∀ before' b', OpensInside n input before' b' → before.length ≤ before'.length

/-! Counting brackets in a text -/

/-- Where a byte stands. -/
inductive Place where
  | outside
  | inString
  | escaped
deriving DecidableEq

/-- The brackets that are open at some place of a text. -/
structure Scan where
  opened : Nat
  place : Place
deriving DecidableEq

def Scan.feed (c : Scan) (b : UInt8) : Scan :=
  match c.place with
  | .outside =>
    if b = quote then { c with place := .inString }
    else if b = openBracket || b = openBrace then { c with opened := c.opened + 1 }
    else if b = closeBracket || b = closeBrace then { c with opened := c.opened - 1 }
    else c
  | .inString =>
    if b = quote then { c with place := .outside }
    else if b = backslash then { c with place := .escaped }
    else c
  | .escaped => { c with place := .inString }

def Scan.over (c : Scan) (s : Bytes) : Scan := s.foldl feed c

/-- The scan at the end of a text. -/
def scan (s : Bytes) : Scan := (Scan.mk 0 .outside).over s

/-- What a limit of `n` brackets does to the reading of a text. -/
structure Refines (n : Nat) (input : Bytes) : Prop where
  same : ∀ answer, parse (some n) input = answer → (∀ p, answer ≠ .error ⟨.nestingTooDeep, p⟩) →
    parse none input = answer
  deep : ∀ p, parse (some n) input = .error ⟨.nestingTooDeep, p⟩ ↔
    ∃ before b, OpensFirst n input before b ∧ p = Position.after (before ++ [b])
  unlimited : ∀ p, parse none input ≠ .error ⟨.nestingTooDeep, p⟩
  /-- The brackets that the reader holds open are those of the text. -/
  counted : ∀ k before b, OpensInside k input before b → scan before = ⟨k, .outside⟩

/-! ## Scanning -/

section
variable {s t : Bytes} {c d : Scan}

theorem Scan.over_append (c : Scan) (s t : Bytes) : c.over (s ++ t) = (c.over s).over t := List.foldl_append

theorem Scan.over_cons (c : Scan) (b : UInt8) (s : Bytes) : c.over (b :: s) = (c.feed b).over s := rfl

/-- A text that leaves the brackets around it as they were. -/
def Neutral (s : Bytes) : Prop := ∀ n, (Scan.mk n .outside).over s = ⟨n, .outside⟩

theorem Neutral.append (hs : Neutral s) (ht : Neutral t) : Neutral (s ++ t) := by
  intro n
  rw [Scan.over_append, hs, ht]

/-- Bytes that are no quotes and no brackets. -/
theorem neutral_of_plain
    (h : ∀ b ∈ s, b ∉ [quote, openBracket, openBrace, closeBracket, closeBrace]) : Neutral s := by
  intro n
  induction s with
  | nil => rfl
  | cons b s ih =>
    rw [List.forall_mem_cons] at h
    obtain ⟨hb, hs⟩ := h
    simp only [List.mem_cons, List.not_mem_nil, or_false, not_or] at hb
    have hfeed : (Scan.mk n .outside).feed b = ⟨n, .outside⟩ := by simp [Scan.feed, hb]
    rw [Scan.over_cons, hfeed]
    exact ih hs

theorem neutral_word (h : s.all (· ∉ [quote, openBracket, openBrace, closeBracket, closeBrace]) = true) :
    Neutral s :=
  neutral_of_plain (fun b hb => of_decide_eq_true (List.all_eq_true.1 h b hb))

theorem neutral_byte {b : UInt8} (h : b ∉ [quote, openBracket, openBrace, closeBracket, closeBrace]) :
    Neutral [b] := neutral_of_plain (List.forall_mem_singleton.2 h)

theorem neutral_blank {w : Bytes} (h : Blank w) : Neutral w := by
  refine neutral_of_plain fun b hb => ?_
  rcases h b hb with rfl | rfl | rfl | rfl <;> decide

/-! Numbers -/

/-- The bytes that number literals are made of. -/
def IsNumeric (b : UInt8) : Prop := isDigit b = true ∨ b ∈ [minus, plus, point, lowerE, upperE]

theorem IsNumeric.plain {b : UInt8} (h : IsNumeric b) :
    b ∉ [quote, openBracket, openBrace, closeBracket, closeBrace] := by
  intro hb
  simp only [List.mem_cons, List.not_mem_nil, or_false] at hb
  unfold IsNumeric at h
  rcases hb with rfl | rfl | rfl | rfl | rfl <;> exact absurd h (by decide)

theorem isNumeric_literal {m : Numeral} (h : Literal s m) : ∀ b ∈ s, IsNumeric b := by
  have hdigits {t : Bytes} (h : Digits t) : ∀ b ∈ t, IsNumeric b := fun b hb => .inl (h.2 b hb)
  obtain @⟨negative, whole, fractionText, fraction, exponentText, exponent, hw, hf, he⟩ := h
  simp only [List.forall_mem_append]
  refine ⟨?sign, ?whole, ?fraction, ?exponent⟩
  case sign =>
    cases negative
    · simp
    · exact List.forall_mem_singleton.2 (.inr (by decide))
  case whole =>
    cases hw with
    | zero => exact List.forall_mem_singleton.2 (.inl (by decide))
    | digits h _ => exact hdigits h
  case fraction =>
    cases hf with
    | absent => simp
    | present h => exact List.forall_mem_cons.2 ⟨.inr (by decide), hdigits h⟩
  case exponent =>
    cases he with
    | absent => simp
    | present letter hs hd =>
      refine List.forall_mem_cons.2 ⟨?_, List.forall_mem_append.2 ⟨?_, hdigits hd⟩⟩
      · rcases letter with rfl | rfl <;> exact .inr (by decide)
      · cases hs with
        | none => simp
        | plus => exact List.forall_mem_singleton.2 (.inr (by decide))
        | minus => exact List.forall_mem_singleton.2 (.inr (by decide))

/-! Strings -/

/-- Bytes that end no string and escape nothing. -/
theorem over_inString (n : Nat) (h : ∀ b ∈ s, b ≠ quote ∧ b ≠ backslash) :
    (Scan.mk n .inString).over s = ⟨n, .inString⟩ := by
  induction s with
  | nil => rfl
  | cons b s ih =>
    rw [List.forall_mem_cons] at h
    have hfeed : (Scan.mk n .inString).feed b = ⟨n, .inString⟩ := by simp [Scan.feed, h.1]
    rw [Scan.over_cons, hfeed]
    exact ih h.2

theorem hex_plain {k : Nat} (h : Hex s k) : ∀ b ∈ s, b ≠ quote ∧ b ≠ backslash := by
  obtain ⟨ha, hb, hc, hd⟩ := h
  have hdigit {b : UInt8} {i : Nat} (h : hexValue? b = some i) : b ≠ quote ∧ b ≠ backslash := by
    have hquote : hexValue? quote = none := by decide
    have hbackslash : hexValue? backslash = none := by decide
    constructor
    · rintro rfl
      rw [hquote] at h
      cases h
    · rintro rfl
      rw [hbackslash] at h
      cases h
  simp only [List.forall_mem_cons]
  exact ⟨hdigit ha, hdigit hb, hdigit hc, hdigit hd, by simp⟩

/-- The first byte behind a backslash escapes nothing, and does not end the string. -/
theorem over_escape {ch : Char} (n : Nat) (h : Escape s ch) :
    (Scan.mk n .escaped).over s = ⟨n, .inString⟩ := by
  cases h with
  | letter => rfl
  | codePoint h =>
    rw [Scan.over_cons]
    exact over_inString n (hex_plain h)
  | pair hs ht =>
    rw [Scan.over_cons, Scan.over_append]
    show (Scan.over ⟨n, .inString⟩ _).over _ = _
    rw [over_inString n (hex_plain hs), Scan.over_cons, Scan.over_cons]
    exact over_inString n (hex_plain ht)

theorem over_characters {cs : List Char} (n : Nat) (h : Characters s cs) :
    (Scan.mk n .inString).over s = ⟨n, .inString⟩ := by
  induction h with
  | nil => rfl
  | cons head _ ih =>
    rw [Scan.over_append]
    cases head with
    | plain hq hb hc =>
      have hraw := plain_iff.1 ⟨hq, hb, hc⟩
      rw [over_inString n fun b hb => ⟨(hraw b hb).1, (hraw b hb).2.1⟩]
      exact ih
    | escape h =>
      rw [Scan.over_cons]
      show (Scan.over ⟨n, .escaped⟩ _).over _ = _
      rw [over_escape n h]
      exact ih

theorem neutral_quoted {u : String} (h : Quoted s u) : Neutral s := by
  obtain ⟨h⟩ := h
  intro n
  rw [Scan.over_cons, Scan.over_append]
  show (Scan.over ⟨n, .inString⟩ _).over _ = _
  rw [over_characters n h]
  rfl

/-! Values -/

theorem neutral_enclosed {a b : UInt8} (ha : a = openBracket ∨ a = openBrace)
    (hb : b = closeBracket ∨ b = closeBrace) (h : Neutral s) : Neutral (a :: (s ++ [b])) := by
  intro n
  have hopen : (Scan.mk n .outside).feed a = ⟨n + 1, .outside⟩ := by rcases ha with rfl | rfl <;> rfl
  have hclose : (Scan.mk (n + 1) .outside).over [b] = ⟨n, .outside⟩ := by rcases hb with rfl | rfl <;> rfl
  rw [Scan.over_cons, hopen, Scan.over_append, h, hclose]

/-- Whatever is written by the grammar closes the brackets that it opens. -/
theorem neutral_of_denotes {m : Meaning} (h : Denotes s m) : Neutral s := by
  have hcomma : Neutral [comma] := neutral_byte (by decide)
  have hcolon : Neutral [colon] := neutral_byte (by decide)
  induction h with
  | null => exact neutral_word (by decide)
  | true => exact neutral_word (by decide)
  | false => exact neutral_word (by decide)
  | number hs => exact neutral_of_plain fun b hb => (isNumeric_literal hs b hb).plain
  | text hs => exact neutral_quoted hs
  | emptyArray hw => exact neutral_enclosed (.inl rfl) (.inl rfl) (neutral_blank hw)
  | array _ ih => exact neutral_enclosed (.inl rfl) (.inl rfl) ih
  | object _ ih => exact ih
  | element hw _ hw' ih => exact (neutral_blank hw).append (ih.append (neutral_blank hw'))
  | lastElement _ ih => exact ih
  | nextElement _ _ ih ih' => exact ih.append (hcomma.append ih')
  | member hw hk hw' _ ih =>
    exact (neutral_blank hw).append ((neutral_quoted hk).append ((neutral_blank hw').append (hcolon.append ih)))
  | lastMember _ ih => exact ih
  | nextMember _ _ ih ih' => exact ih.append (hcomma.append ih')
  | emptyRecord hw => exact neutral_enclosed (.inr rfl) (.inr rfl) (neutral_blank hw)
  | record _ ih => exact neutral_enclosed (.inr rfl) (.inr rfl) ih

end

/-! ## Steps of the reader -/

/-- How many brackets are open. -/
def State.opened : State → Nat
  | .wanting stack _ | .holding stack _ _ => stack.length

/-- From one state to another the reader passes over bytes that open and close brackets as its stack does. -/
def Passing (st next : State) : Prop :=
  ∃ u, st.rest = u ++ next.rest ∧ (Scan.mk st.opened .outside).over u = ⟨next.opened, .outside⟩

section
variable {stack : List Frame} {s : Bytes} {st next : State} {n : Nat}

/-- A step that passes over what is neutral, then a bracket or a token, then what is neutral again. -/
theorem Passing.mk {w u : Bytes} {b : UInt8} (hw : Neutral w) (hu : Neutral u)
    (hs : st.rest = w ++ b :: (u ++ next.rest))
    (hb : (Scan.mk st.opened .outside).feed b = ⟨next.opened, .outside⟩) : Passing st next := by
  refine ⟨w ++ b :: u, by rw [hs]; simp, ?_⟩
  rw [Scan.over_append, hw, Scan.over_cons, hb, hu]

theorem passing_openArray {w : Bytes} (hw : Blank w) (h : openArray stack s = .ok next) :
    Passing (.wanting stack (w ++ openBracket :: s)) next := by
  unfold openArray at h
  split at h
  · cases h
  · next hf =>
    cases h
    obtain ⟨w', hw', rfl⟩ := firstElement_done.1 hf
    refine ⟨w ++ (openBracket :: (w' ++ [closeBracket])), by simp [State.rest], ?_⟩
    exact (neutral_blank hw).append (neutral_enclosed (.inl rfl) (.inl rfl) (neutral_blank hw')) _
  · next hf =>
    cases h
    obtain ⟨-, -, -, -, -, w', hw', rfl⟩ := firstElement_item.1 hf
    exact .mk (neutral_blank hw) (neutral_blank hw') rfl rfl

/-- Behind a brace or a comma, a key and its colon. -/
theorem passing_key {w w' r : Bytes} {frame : Frame} {key : String} {b : UInt8} (hw : Blank w)
    (hw' : Blank w') (h : readKey s = .ok (key, r)) (hrest : st.rest = w ++ b :: (w' ++ quote :: s))
    (hb : (Scan.mk st.opened .outside).feed b = ⟨stack.length + 1, .outside⟩) :
    Passing st (.wanting (frame :: stack) r) := by
  obtain ⟨k, w'', hk, hquoted, hw''⟩ := readKey_eq_ok.1 h
  have hcolon : Neutral [colon] := neutral_byte (by decide)
  have hpassed : Neutral (w' ++ (k ++ (w'' ++ [colon]))) :=
    (neutral_blank hw').append ((neutral_quoted hquoted).append ((neutral_blank hw'').append hcolon))
  refine .mk (neutral_blank hw) hpassed ?_ hb
  rw [hrest, hk]
  simp [State.rest]

theorem passing_openObject {w : Bytes} (hw : Blank w) (h : openObject stack s = .ok next) :
    Passing (.wanting stack (w ++ openBrace :: s)) next := by
  unfold openObject at h
  split at h
  · cases h
  · next hf =>
    cases h
    obtain ⟨w', hw', rfl⟩ := firstMember_done.1 hf
    refine ⟨w ++ (openBrace :: (w' ++ [closeBrace])), by simp [State.rest], ?_⟩
    exact (neutral_blank hw).append (neutral_enclosed (.inr rfl) (.inr rfl) (neutral_blank hw')) _
  · next hf =>
    obtain ⟨⟨key, t⟩, hkey, he⟩ := map_eq_ok h
    cases he
    obtain ⟨w', hw', rfl⟩ := firstMember_item.1 hf
    exact passing_key hw hw' hkey rfl rfl

theorem passing_opening (h : readOpening none stack s = .ok next) : Passing (.wanting stack s) next := by
  unfold readOpening at h
  split at h
  · cases h
  · next b s' hs =>
    obtain ⟨-, w, hw, rfl⟩ := skipSpace_eq_cons.1 hs
    split at h
    · next hb =>
      rw [hb]
      exact passing_openArray hw h
    · split at h
      · next hb =>
        rw [hb]
        exact passing_openObject hw h
      · obtain ⟨⟨v, r⟩, hv, he⟩ := map_eq_ok h
        cases he
        obtain ⟨t, ht, hs⟩ := readScalar_sound hv
        exact ⟨w ++ t, by simp [State.rest, hs], (neutral_blank hw).append (neutral_of_denotes ht) _⟩

theorem passing_closing {frame : Frame} {v : Value} (h : readClosing frame stack v s = .ok next) :
    Passing (.holding (frame :: stack) v s) next := by
  have hnil : Neutral [] := neutral_of_plain (by simp)
  unfold readClosing at h
  split at h
  · split at h
    · cases h
    · next hf =>
      cases h
      obtain ⟨w, hw, rfl⟩ := nextElement_done.1 hf
      exact .mk (neutral_blank hw) hnil rfl rfl
    · next hf =>
      cases h
      obtain ⟨_, ⟨w, hw, rfl⟩, hitem⟩ := nextElement_item.1 hf
      obtain ⟨-, -, -, -, -, w', hw', rfl⟩ := firstElement_item.1 hitem
      exact .mk (neutral_blank hw) (neutral_blank hw') rfl rfl
  · split at h
    · cases h
    · next hf =>
      cases h
      obtain ⟨w, hw, rfl⟩ := nextMember_done.1 hf
      exact .mk (neutral_blank hw) hnil rfl rfl
    · next hf =>
      obtain ⟨⟨key, t⟩, hkey, he⟩ := map_eq_ok h
      cases he
      obtain ⟨_, ⟨w, hw, rfl⟩, hitem⟩ := nextMember_item.1 hf
      obtain ⟨w', hw', rfl⟩ := firstMember_item.1 hitem
      exact passing_key hw hw' hkey rfl rfl

theorem Next.passing (h : Next st next) : Passing st next := by
  cases h with
  | opening h => exact passing_opening h
  | closing h => exact passing_closing h

/-- At every step the brackets on the stack are those that the text has open there. -/
theorem comes_scan {input : Bytes} (h : Comes input st) :
    ∃ before, input = before ++ st.rest ∧ scan before = ⟨st.opened, .outside⟩ := by
  induction h with
  | refl => exact ⟨[], rfl, rfl⟩
  | tail _ hnext ih =>
    obtain ⟨before, hinput, hscan⟩ := ih
    obtain ⟨u, hrest, hu⟩ := hnext.passing
    refine ⟨before ++ u, by rw [hinput, hrest, List.append_assoc], ?_⟩
    rw [scan, Scan.over_append, ← scan, hscan, hu]

/-! ## The first bracket beyond a limit -/

theorem Next.unique {a b : State} (ha : Next st a) (hb : Next st b) : a = b := by
  cases ha with
  | opening ha =>
    cases hb with
    | opening hb => exact Except.ok.inj (ha.symm.trans hb)
  | closing ha =>
    cases hb with
    | closing hb => exact Except.ok.inj (ha.symm.trans hb)

theorem opens_iff {rest : Bytes} :
    Opens s rest ↔ ∃ b, skipSpace s = b :: rest ∧ (b = openBracket ∨ b = openBrace) := by
  constructor
  · rintro (h | h)
    · exact ⟨_, h, .inl rfl⟩
    · exact ⟨_, h, .inr rfl⟩
  · rintro ⟨_, h, rfl | rfl⟩
    · exact .inl h
    · exact .inr h

theorem Opens.length_lt {rest : Bytes} (h : Opens s rest) : rest.length < s.length := by
  obtain ⟨b, hs, -⟩ := opens_iff.1 h
  exact skipSpace_cons_length hs

/-- One more bracket is open after a step at most, and none more when no bracket comes next. -/
theorem opened_opening (h : readOpening none stack s = .ok next) :
    next.opened ≤ stack.length + 1 ∧ ((∀ rest, ¬ Opens s rest) → next.opened = stack.length) := by
  unfold readOpening at h
  split at h
  · cases h
  · next b r hs =>
    split at h
    · next hb =>
      refine ⟨?_, fun hno => absurd (.inl (hb ▸ hs)) (hno r)⟩
      replace h : openArray stack r = .ok next := h
      unfold openArray at h
      split at h <;> cases h <;> simp [State.opened]
    · split at h
      · next hb =>
        refine ⟨?_, fun hno => absurd (.inr (hb ▸ hs)) (hno r)⟩
        replace h : openObject stack r = .ok next := h
        unfold openObject at h
        split at h
        · cases h
        · cases h; simp [State.opened]
        · obtain ⟨⟨key, t⟩, -, he⟩ := map_eq_ok h
          cases he; simp [State.opened]
      · obtain ⟨⟨v, t⟩, -, he⟩ := map_eq_ok h
        cases he; simp [State.opened]

theorem opened_closing {frame : Frame} {v : Value} (h : readClosing frame stack v s = .ok next) :
    next.opened ≤ stack.length + 1 := by
  unfold readClosing at h
  split at h
  · split at h <;> cases h <;> simp [State.opened]
  · split at h
    · cases h
    · cases h; simp [State.opened]
    · obtain ⟨⟨key, t⟩, -, he⟩ := map_eq_ok h
      cases he; simp [State.opened]

/-- Behind a bracket nothing before it is read again. -/
theorem rest_opening {rest : Bytes} (ho : Opens s rest) (h : readOpening none stack s = .ok next) :
    next.rest.length ≤ rest.length := by
  have hmay : mayOpen none stack = true := rfl
  unfold readOpening at h
  rcases ho with hs | hs <;> simp only [hs, hmay, if_true] at h
  · exact openArray_length h
  · exact (openObject_length h).le

theorem Next.length_lt (h : Next st next) : next.rest.length < st.rest.length := by
  cases h with
  | opening h => exact readOpening_length h
  | closing h => exact readClosing_length h

theorem rest_of_path (h : Relation.ReflTransGen Next st next) : next.rest.length ≤ st.rest.length := by
  induction h with
  | refl => exact le_rfl
  | tail _ hnext ih => exact hnext.length_lt.le.trans ih

/-- A document that goes too deep does so at the first bracket that is opened inside `n` others. The induction
is on the steps up to there, and none of the states that they come from has such a bracket next. -/
theorem GoesDeep.first {unread : Nat} (h : GoesDeep n st unread) (hst : st.opened ≤ n) :
    (∃ stack s rest, Relation.ReflTransGen Next st (.wanting stack s) ∧ stack.length = n ∧ Opens s rest ∧
      rest.length = unread) ∧
    ∀ stack s rest, Relation.ReflTransGen Next st (.wanting stack s) → stack.length = n → Opens s rest →
      rest.length ≤ unread := by
  induction h with
  | @here stack s rest full opens =>
    refine ⟨⟨stack, s, rest, .refl, le_antisymm hst full, opens, rfl⟩, fun stack' s' rest' hpath _ ho => ?_⟩
    -- the other bracket is the same one, or is opened behind it
    rcases hpath.cases_head with he | ⟨next, ⟨hread⟩, hpath⟩
    · cases he
      obtain ⟨_, hs, -⟩ := opens_iff.1 opens
      obtain ⟨_, hs', -⟩ := opens_iff.1 ho
      cases hs.symm.trans hs'
      exact le_rfl
    · have hlater : s'.length ≤ next.rest.length := rest_of_path hpath
      have hpassed := rest_opening opens hread
      have hinside := ho.length_lt
      omega
  | @opening stack s next unread fits read later ih =>
    obtain ⟨hmore, hsame⟩ := opened_opening read
    -- a bracket that this step opens is inside fewer than n others
    have hnext : next.opened ≤ n := by
      by_cases hfull : n ≤ stack.length
      · rw [hsame (fits hfull)]
        exact hst
      · omega
    obtain ⟨⟨stack', s', rest', hpath, hfound⟩, hfirst⟩ := ih hnext
    refine ⟨⟨stack', s', rest', .head (.opening read) hpath, hfound⟩, fun stack' s' rest' hpath hn ho => ?_⟩
    rcases hpath.cases_head with he | ⟨other, hother, hpath⟩
    · cases he
      exact absurd ho (fits hn.ge rest')
    · cases hother.unique (.opening read)
      exact hfirst _ _ _ hpath hn ho
  | @closing frame stack v s next unread read later ih =>
    obtain ⟨⟨stack', s', rest', hpath, hfound⟩, hfirst⟩ := ih ((opened_closing read).trans hst)
    refine ⟨⟨stack', s', rest', .head (.closing read) hpath, hfound⟩, fun stack' s' rest' hpath hn ho => ?_⟩
    rcases hpath.cases_head with he | ⟨other, hother, hpath⟩
    · cases he
    · cases hother.unique (.closing read)
      exact hfirst _ _ _ hpath hn ho

/-- A document with such a bracket goes too deep, there or before it. -/
theorem goesDeep_of_path {rest : Bytes} (h : Relation.ReflTransGen Next st (.wanting stack s))
    (hn : n ≤ stack.length) (ho : Opens s rest) : ∃ unread, GoesDeep n st unread := by
  induction h using Relation.ReflTransGen.head_induction_on with
  | refl => exact ⟨_, .here hn ho⟩
  | head hnext _ ih =>
    obtain ⟨unread, hlater⟩ := ih
    cases hnext with
    | @opening stack s _ hread =>
      by_cases hfits : Fits n stack s
      · exact ⟨unread, .opening hfits hread hlater⟩
      · simp only [Fits, not_forall, not_not] at hfits
        obtain ⟨hfull, r, hr⟩ := hfits
        exact ⟨_, .here hfull hr⟩
    | closing hread => exact ⟨unread, .closing hread hlater⟩

/-! ## Texts -/

variable {input before : Bytes} {b : UInt8} {p : Position}

theorem opensInside_of_comes {rest : Bytes} (h : Comes input (.wanting stack s)) (ho : Opens s rest) :
    ∃ before b, OpensInside stack.length input before b ∧ input = before ++ b :: rest ∧
      scan before = ⟨stack.length, .outside⟩ := by
  obtain ⟨b, hs, hb⟩ := opens_iff.1 ho
  obtain ⟨earlier, hinput, hscan⟩ := comes_scan h
  obtain ⟨-, w, hw, hrest⟩ := skipSpace_eq_cons.1 hs
  have hsplit : input = (earlier ++ w) ++ b :: rest := by
    rw [hinput, List.append_assoc, ← hrest]
    rfl
  refine ⟨earlier ++ w, b, ⟨stack, s, rest, h, rfl, hs, hb, hsplit⟩, hsplit, ?_⟩
  rw [scan, Scan.over_append, ← scan, hscan, neutral_blank hw]
  rfl

theorem scan_of_opensInside (h : OpensInside n input before b) : scan before = ⟨n, .outside⟩ := by
  obtain ⟨stack, s, rest, hcomes, rfl, hs, hb, hinput⟩ := h
  obtain ⟨before', b', -, hinput', hscan⟩ := opensInside_of_comes hcomes (opens_iff.2 ⟨b, hs, hb⟩)
  rw [← hscan]
  congr 1
  exact (List.append_inj' (hinput.symm.trans hinput') rfl).1

theorem ofUnread_append (before : Bytes) (b : UInt8) (rest : Bytes) :
    Position.ofUnread (before ++ b :: rest) rest.length = Position.after (before ++ [b]) := by
  have hlength : (before ++ b :: rest).length - rest.length = (before ++ [b]).length := by
    simp only [List.length_append, List.length_cons, List.length_nil]
    omega
  rw [Position.ofUnread, hlength, show before ++ b :: rest = (before ++ [b]) ++ rest by simp, List.take_left]

/-- The complaint about depth is made where the reader without a limit goes too deep. -/
theorem parse_tooDeep_iff : parse (some n) input = .error ⟨.nestingTooDeep, p⟩ ↔
    ∃ unread, GoesDeep n (.wanting [] input) unread ∧ p = Position.ofUnread input unread := by
  constructor
  · intro h
    by_cases hdeep : OpensBeyond n input
    · obtain ⟨unread, hu⟩ := hdeep
      rw [parse_deep hu] at h
      cases h
      exact ⟨unread, hu, rfl⟩
    · rw [parse_limited hdeep] at h
      exact absurd rfl (parse_reason_ne h)
  · rintro ⟨unread, hu, rfl⟩
    exact parse_deep hu

/-- Where a document goes too deep, as a place in its text. -/
theorem opensFirst_of_goesDeep {unread : Nat} (h : GoesDeep n (.wanting [] input) unread) :
    ∃ before b, OpensFirst n input before b ∧
      Position.ofUnread input unread = Position.after (before ++ [b]) := by
  obtain ⟨⟨stack, s, rest, hcomes, rfl, ho, rfl⟩, hfirst⟩ := h.first (Nat.zero_le _)
  obtain ⟨before, b, hopens, hinput, -⟩ := opensInside_of_comes hcomes ho
  refine ⟨before, b, ⟨hopens, fun before' b' hother => ?_⟩, by rw [hinput, ofUnread_append]⟩
  obtain ⟨stack', s', rest', hcomes', hn, hs', hb', hinput'⟩ := hother
  have hle := hfirst stack' s' rest' hcomes' hn (opens_iff.2 ⟨b', hs', hb'⟩)
  have hlength := congrArg List.length (hinput.symm.trans hinput')
  simp only [List.length_append, List.length_cons] at hlength
  omega

/-- There is one first bracket. -/
theorem OpensFirst.unique {before' : Bytes} {b' : UInt8} (h : OpensFirst n input before b)
    (h' : OpensFirst n input before' b') : before ++ [b] = before' ++ [b'] := by
  obtain ⟨_, _, rest, _, _, _, _, hinput⟩ := h.opens
  obtain ⟨_, _, rest', _, _, _, _, hinput'⟩ := h'.opens
  have hlength : (before ++ [b]).length = (before' ++ [b']).length := by
    have hle := h.first _ _ h'.opens
    have hge := h'.first _ _ h.opens
    simp only [List.length_append, List.length_cons, List.length_nil]
    omega
  have hsame : (before ++ [b]) ++ rest = (before' ++ [b']) ++ rest' := by
    simpa using hinput.symm.trans hinput'
  exact (List.append_inj hsame hlength).1

/-- The reader with a limit of `n` brackets, on any text, well-formed or not: up to the first bracket inside
`n` others it is the reader without a limit, whatever that one comes to behind it. -/
theorem parse_refines (n : Nat) (input : Bytes) : Refines n input where
  same := by
    rintro answer rfl hno
    by_cases hdeep : OpensBeyond n input
    · obtain ⟨unread, hu⟩ := hdeep
      exact absurd (parse_deep hu) (hno _)
    · exact (parse_limited hdeep).symm
  deep p := by
    rw [parse_tooDeep_iff]
    constructor
    · rintro ⟨unread, hu, rfl⟩
      exact opensFirst_of_goesDeep hu
    · rintro ⟨before, b, hfirst, rfl⟩
      obtain ⟨stack, s, rest, hcomes, rfl, hs, hb, -⟩ := hfirst.opens
      obtain ⟨unread, hu⟩ := goesDeep_of_path hcomes le_rfl (opens_iff.2 ⟨b, hs, hb⟩)
      obtain ⟨before', b', hfirst', hplace⟩ := opensFirst_of_goesDeep hu
      exact ⟨unread, hu, by rw [hplace, hfirst.unique hfirst']⟩
  unlimited _ h := parse_reason_ne h rfl
  counted _ _ _ := scan_of_opensInside

end

end ShapeLedger.Json
