/-
What a limit on depth does to the document reader: nothing, until a bracket would be opened inside
as many others as the limit allows, and then it is the whole answer. `GoesDeep` says which documents
come to that, in terms of the reader without a limit; that one never complains of depth itself, so
the two answers differ on exactly these documents.
-/
import ShapeLedger.Json.Reader

namespace ShapeLedger.Json

open Ascii

/-! ## Faults that are not about depth -/

/-- A result that is no complaint about depth. -/
inductive Shallow {α : Type} : Except Fault α → Prop where
  | ok (a : α) : Shallow (.ok a)
  | error {reason : Reason} {unread : Nat} (h : reason ≠ .nestingTooDeep) : Shallow (.error ⟨reason, unread⟩)

namespace Shallow

theorem reason_ne {α : Type} {f : Fault} (h : Shallow (.error f : Except Fault α)) :
    f.reason ≠ .nestingTooDeep := by
  cases h with
  | error h => exact h

theorem cast {α β : Type} {x : Except Fault α} {f : Fault} (h : Shallow x) (hx : x = .error f) :
    Shallow (.error f : Except Fault β) := by
  subst hx
  exact .error h.reason_ne

theorem map {α β : Type} {x : Except Fault α} (h : Shallow x) (f : α → β) : Shallow (x.map f) := by
  cases h with
  | ok a => exact .ok _
  | error h => exact .error h

theorem bind {α β : Type} {x : Except Fault α} {f : α → Except Fault β} (h : Shallow x)
    (hf : ∀ a, Shallow (f a)) : Shallow (x >>= f) := by
  cases h with
  | ok a => exact hf a
  | error h => exact .error h

end Shallow

section

variable (s : Bytes)

theorem readWord_shallow (w : Bytes) : Shallow (readWord w s) := by
  fun_induction readWord w s with
  | case1 => exact .ok _
  | case2 => exact .error (by decide)
  | case3 _ _ _ ih => exact ih
  | case4 => exact .error (by decide)

theorem firstElement_shallow : Shallow (firstElement s) := by
  unfold firstElement
  split
  · exact .error (by decide)
  · split <;> exact .ok _

theorem nextElement_shallow : Shallow (nextElement s) := by
  unfold nextElement
  split
  · exact .error (by decide)
  · split
    · exact .ok _
    · split
      · split
        · exact .error (by decide)
        · split
          · exact .error (by decide)
          · exact .ok _
      · exact .error (by decide)

theorem firstMember_shallow : Shallow (firstMember s) := by
  unfold firstMember
  split
  · exact .error (by decide)
  · split
    · exact .ok _
    · split
      · exact .ok _
      · exact .error (by decide)

theorem nextMember_shallow : Shallow (nextMember s) := by
  unfold nextMember
  split
  · exact .error (by decide)
  · split
    · exact .ok _
    · split
      · split
        · exact .error (by decide)
        · split
          · exact .ok _
          · split <;> exact .error (by decide)
      · exact .error (by decide)

theorem readColon_shallow : Shallow (readColon s) := by
  unfold readColon
  split
  · exact .error (by decide)
  · split
    · exact .ok _
    · exact .error (by decide)

theorem readEnd_shallow : Shallow (readEnd s) := by
  unfold readEnd
  split
  · exact .ok _
  · exact .error (by decide)

/-! Numbers -/

theorem readDigits_shallow {atEnd : Reason} (h : atEnd ≠ .nestingTooDeep) :
    Shallow (readDigits atEnd s) := by
  unfold readDigits
  split
  · exact .error h
  · split
    · exact .ok _
    · exact .error (by decide)

theorem readWhole_shallow {atEnd : Reason} (h : atEnd ≠ .nestingTooDeep) :
    Shallow (readWhole atEnd s) := by
  unfold readWhole
  split
  · exact .error h
  · split
    · split
      · exact .ok _
      · split
        · exact .error (by decide)
        · exact .ok _
    · exact readDigits_shallow _ h

theorem readFraction_shallow {atEnd : Reason} (h : atEnd ≠ .nestingTooDeep) :
    Shallow (readFraction atEnd s) := by
  unfold readFraction
  split
  · exact .ok _
  · split
    · exact readDigits_shallow _ h
    · exact .ok _

theorem readExponent_shallow {atEnd : Reason} (h : atEnd ≠ .nestingTooDeep) :
    Shallow (readExponent atEnd s) := by
  unfold readExponent
  split
  · exact .ok _
  · split
    · split
      · next hd => exact (readDigits_shallow _ h).cast hd
      · exact .ok _
    · exact .ok _

theorem readNumeral_shallow {atEnd : Reason} (h : atEnd ≠ .nestingTooDeep) :
    Shallow (readNumeral atEnd s) := by
  unfold readNumeral
  refine (readWhole_shallow _ h).bind (fun w => ?_)
  refine (readFraction_shallow _ h).bind (fun f => ?_)
  exact (readExponent_shallow _ h).bind (fun e => .ok _)

theorem readNumber_shallow : Shallow (readNumber s) := by
  unfold readNumber
  split
  · next hn => exact (readNumeral_shallow s (by decide)).cast hn
  · split
    · exact .ok _
    · exact .error (by decide)

/-! Strings -/

theorem readHex_shallow : Shallow (readHex s) := by
  unfold readHex
  split
  · split
    · exact .ok _
    · exact .error (by decide)
  · exact .error (by decide)

theorem readTrailing_shallow (high : Nat) : Shallow (readTrailing high s) := by
  unfold readTrailing
  split
  · exact .error (by decide)
  · split
    · exact .error (by decide)
    · split
      · exact .error (by decide)
      · split
        · exact .error (by decide)
        · split
          · next hx => exact (readHex_shallow _).cast hx
          · split
            · exact .ok _
            · exact .error (by decide)

theorem readCodePoint_shallow : Shallow (readCodePoint s) := by
  unfold readCodePoint
  split
  · next hx => exact (readHex_shallow _).cast hx
  · split
    · exact .error (by decide)
    · split
      · exact readTrailing_shallow _ _
      · exact .ok _

theorem readEscape_shallow : Shallow (readEscape s) := by
  unfold readEscape
  split
  · exact .error (by decide)
  · split
    · split
      · next hc => exact (readCodePoint_shallow _).cast hc
      · exact .ok _
    · split
      · exact .ok _
      · exact .error (by decide)

theorem readLiteral_shallow (done : Bytes) : Shallow (readLiteral done s) := by
  fun_induction readLiteral done s with
  | case1 => exact .error (by decide)
  | case2 => exact .ok _
  | case3 _ r f he => exact (readEscape_shallow r).cast he
  | case4 _ _ _ _ _ _ ih => exact ih
  | case5 => exact .error (by decide)
  | case6 _ _ _ _ _ _ ih => exact ih

theorem readString_shallow : Shallow (readString s) := by
  unfold readString
  split
  · next hl => exact (readLiteral_shallow s []).cast hl
  · split
    · exact .ok _
    · exact .error (by decide)

/-! Documents -/

theorem readScalar_shallow : Shallow (readScalar s) := by
  unfold readScalar
  split
  · exact .error (by decide)
  · split
    · exact (readWord_shallow _ _).map _
    · split
      · exact (readWord_shallow _ _).map _
      · split
        · exact (readWord_shallow _ _).map _
        · split
          · exact (readString_shallow _).map _
          · split
            · exact (readNumber_shallow _).map _
            · exact .error (by decide)

theorem readKey_shallow : Shallow (readKey s) := by
  unfold readKey
  split
  · next hs => exact (readString_shallow s).cast hs
  · exact (readColon_shallow _).map _

theorem openArray_shallow (stack : List Frame) : Shallow (openArray stack s) := by
  unfold openArray
  split
  · next hf => exact (firstElement_shallow s).cast hf
  · exact .ok _
  · exact .ok _

theorem openObject_shallow (stack : List Frame) : Shallow (openObject stack s) := by
  unfold openObject
  split
  · next hf => exact (firstMember_shallow s).cast hf
  · exact .ok _
  · exact (readKey_shallow _).map _

theorem readOpening_shallow (stack : List Frame) : Shallow (readOpening none stack s) := by
  unfold readOpening
  split
  · exact .error (by decide)
  · split
    · exact openArray_shallow _ _
    · split
      · exact openObject_shallow _ _
      · exact (readScalar_shallow _).map _

theorem readClosing_shallow (frame : Frame) (stack : List Frame) (v : Value) :
    Shallow (readClosing frame stack v s) := by
  unfold readClosing
  split
  · split
    · next hf => exact (nextElement_shallow s).cast hf
    · exact .ok _
    · exact .ok _
  · split
    · next hf => exact (nextMember_shallow s).cast hf
    · exact .ok _
    · exact (readKey_shallow _).map _

end

/-- Without a limit there is no complaint about depth. -/
theorem run_shallow (st : State) : Shallow (run none st) := by
  fun_induction run none st with
  | case1 stack s f h => exact (readOpening_shallow s stack).cast h
  | case2 _ _ _ _ ih => exact ih
  | case3 => exact .ok _
  | case4 frame stack v s f h => exact (readClosing_shallow s frame stack v).cast h
  | case5 _ _ _ _ _ _ ih => exact ih

theorem parse_reason_ne {input : Bytes} {e : Error} (h : parse none input = .error e) :
    e.reason ≠ .nestingTooDeep := by
  have hs : Shallow (readDocument none input) := by
    unfold readDocument
    split
    · next hr => exact (run_shallow _).cast hr
    · exact (readEnd_shallow _).map _
  unfold parse at h
  cases hd : readDocument none input with
  | ok v => rw [hd] at h; cases h
  | error f =>
    rw [hd] at h hs
    cases h
    exact hs.reason_ne

/-! ## Documents that go too deep -/

/-- Whether the next token opens a bracket. -/
def Opens (s : Bytes) (rest : Bytes) : Prop :=
  skipSpace s = openBracket :: rest ∨ skipSpace s = openBrace :: rest

/-- Whether the next token is no bracket inside `n` others. -/
def Fits (n : Nat) (stack : List Frame) (s : Bytes) : Prop := n ≤ stack.length → ∀ rest, ¬ Opens s rest

/-- Without a limit the reader comes to a bracket inside `n` others. The first such bracket is meant,
and `unread` bytes follow it. -/
inductive GoesDeep (n : Nat) : State → Nat → Prop where
  | here {stack : List Frame} {s rest : Bytes} (full : n ≤ stack.length) (opens : Opens s rest) :
      GoesDeep n (.wanting stack s) rest.length
  | opening {stack : List Frame} {s : Bytes} {next : State} {unread : Nat} (fits : Fits n stack s)
      (read : readOpening none stack s = .ok next) (later : GoesDeep n next unread) :
      GoesDeep n (.wanting stack s) unread
  | closing {frame : Frame} {stack : List Frame} {v : Value} {s : Bytes} {next : State} {unread : Nat}
      (read : readClosing frame stack v s = .ok next) (later : GoesDeep n next unread) :
      GoesDeep n (.holding (frame :: stack) v s) unread

/-- A document that opens a bracket inside `n` others, before anything else is wrong with it. -/
def OpensBeyond (n : Nat) (input : Bytes) : Prop := ∃ unread, GoesDeep n (.wanting [] input) unread

theorem readOpening_full {n : Nat} {stack : List Frame} {s rest : Bytes} (hn : n ≤ stack.length)
    (h : Opens s rest) : readOpening (some n) stack s = .error ⟨.nestingTooDeep, rest.length⟩ := by
  have hm : mayOpen (some n) stack = false := decide_eq_false (by omega)
  unfold readOpening
  rcases h with h | h <;> rw [h] <;> simp only [hm] <;> rfl

theorem readOpening_fits {n : Nat} {stack : List Frame} {s : Bytes} (h : Fits n stack s) :
    readOpening (some n) stack s = readOpening none stack s := by
  unfold readOpening
  by_cases hn : n ≤ stack.length
  · cases hs : skipSpace s with
    | nil => rfl
    | cons b r =>
      have hb : b ≠ openBracket := by rintro rfl; exact h hn r (Or.inl hs)
      have hc : b ≠ openBrace := by rintro rfl; exact h hn r (Or.inr hs)
      simp only [hb, hc, if_false]
  · have hm : mayOpen (some n) stack = true := decide_eq_true (by omega)
    simp only [hm, show mayOpen none stack = true from rfl]

/-- A limit that is not passed makes no difference. -/
theorem run_limited {n : Nat} {st : State} (h : ¬ ∃ unread, GoesDeep n st unread) :
    run (some n) st = run none st := by
  have fits {stack : List Frame} {s : Bytes} (h : ¬ ∃ unread, GoesDeep n (.wanting stack s) unread) :
      Fits n stack s := fun hn _ ho => h ⟨_, .here hn ho⟩
  -- on the run without a limit, which the limited one follows step by step
  fun_induction run none st with
  | case1 stack s f hr => rw [run, readOpening_fits (fits h), hr]
  | case2 stack s next hr ih =>
    rw [run, readOpening_fits (fits h), hr]
    exact ih (fun ⟨u, hu⟩ => h ⟨u, .opening (fits h) hr hu⟩)
  | case3 => rw [run]
  | case4 frame stack v s f hr => rw [run, hr]
  | case5 frame stack v s next hr ih =>
    rw [run, hr]
    exact ih (fun ⟨u, hu⟩ => h ⟨u, .closing hr hu⟩)

/-- A limit that is passed is what is reported, at the first bracket that passes it. -/
theorem run_deep {n unread : Nat} {st : State} (h : GoesDeep n st unread) :
    run (some n) st = .error ⟨.nestingTooDeep, unread⟩ := by
  induction h with
  | here hn ho => rw [run, readOpening_full hn ho]
  | opening hf hr _ ih => rw [run, readOpening_fits hf, hr]; exact ih
  | closing hr _ ih => rw [run, hr]; exact ih

theorem parse_limited {n : Nat} {input : Bytes} (h : ¬ OpensBeyond n input) :
    parse (some n) input = parse none input := by
  unfold parse readDocument
  rw [run_limited h]

theorem parse_deep {n unread : Nat} {input : Bytes} (h : GoesDeep n (.wanting [] input) unread) :
    parse (some n) input = .error ⟨.nestingTooDeep, Position.ofUnread input unread⟩ := by
  unfold parse readDocument
  rw [run_deep h]
  rfl

/-! ## Messages -/

/-- Only a complaint about depth starts like this. -/
theorem message_head {e : Error} :
    e.message.toList.head? = some 'r' ↔ e.reason = .nestingTooDeep := by
  -- the reason comes first in a message, and none is empty
  have hsome : e.reason.text.toList.head?.isSome := by cases e.reason <;> decide
  obtain ⟨c, hc⟩ := Option.isSome_iff_exists.1 hsome
  unfold Error.message
  rw [String.toList_append, List.head?_append, hc, Option.some_or, ← hc]
  cases e.reason <;> decide

/-- With a limit that is passed, what is said of the document is not what is said of it without. -/
theorem message_deep_ne {input : Bytes} {e : Error} (h : parse none input = .error e) (p : Position) :
    (⟨.nestingTooDeep, p⟩ : Error).message ≠ e.message := by
  intro hm
  have hd : (⟨.nestingTooDeep, p⟩ : Error).message.toList.head? = some 'r' := message_head.2 rfl
  rw [hm] at hd
  exact parse_reason_ne h (message_head.1 hd)

/-! ## Brackets inside one another -/

/-- The last of `n + 1` brackets in a row is opened inside `n` others. -/
theorem goesDeep_nested (n : Nat) (rest : Bytes) :
    GoesDeep n (.wanting [] (List.replicate (n + 1) openBracket ++ rest)) rest.length := by
  have h : ∀ (k : Nat) (stack : List Frame), stack.length + k = n →
      GoesDeep n (.wanting stack (List.replicate (k + 1) openBracket ++ rest)) rest.length := by
    intro k
    induction k with
    | zero => intro stack hs; exact .here (by omega) (Or.inl rfl)
    | succ k ih =>
      intro stack hs
      -- one bracket of the row is read, and one more array is open
      have hread : readOpening none stack (List.replicate (k + 2) openBracket ++ rest) =
          .ok (.wanting (.array [] :: stack) (List.replicate (k + 1) openBracket ++ rest)) := rfl
      refine .opening (fun hn => absurd hn (by omega)) hread (ih _ ?_)
      rw [List.length_cons]; omega
  exact h n [] (by simp)

end ShapeLedger.Json
