/-
The smallest readers against the grammar. What each accepts is what it looks for with blanks in front of
it, and what it gives back is the rest; so the statements are equivalences, and serve both directions of
the readers that are built from these.
-/
import ShapeLedger.Proofs.Json.Grammar
import Mathlib.Data.List.TakeWhile

namespace ShapeLedger.Json

open Ascii Grammar

/-! ## Blanks -/

theorem isSpace_iff {b : UInt8} :
    isSpace b = true ↔ b = space ∨ b = tab ∨ b = lineFeed ∨ b = carriageReturn := by
  simp [isSpace, or_assoc]

theorem blank_iff {w : Bytes} : Blank w ↔ ∀ b ∈ w, isSpace b = true := by simp only [Blank, isSpace_iff]

theorem Grammar.Blank.append {w w' : Bytes} (h : Blank w) (h' : Blank w') : Blank (w ++ w') :=
  List.forall_mem_append.2 ⟨h, h'⟩

theorem blank_nil : Blank [] := fun _ hb => absurd hb List.not_mem_nil

section
variable {s t r w : Bytes} {b : UInt8}

theorem skipSpace_append (h : Blank w) (s : Bytes) : skipSpace (w ++ s) = skipSpace s :=
  List.dropWhile_append_of_pos (blank_iff.1 h)

theorem skipSpace_eq_nil : skipSpace s = [] ↔ Blank s := by
  rw [skipSpace, List.dropWhile_eq_nil_iff, blank_iff]

theorem skipSpace_eq_cons :
    skipSpace s = b :: r ↔ isSpace b = false ∧ ∃ w, Blank w ∧ s = w ++ b :: r := by
  constructor
  · intro h
    refine ⟨?_, s.takeWhile isSpace, ?_, ?_⟩
    · have hhead := List.head?_dropWhile_not isSpace s
      rw [← skipSpace, h] at hhead
      exact hhead
    · exact blank_iff.2 fun c hc => List.mem_takeWhile_imp hc
    · rw [← h, skipSpace, List.takeWhile_append_dropWhile]
  · rintro ⟨hb, w, hw, rfl⟩
    rw [skipSpace_append hw, skipSpace, List.dropWhile_cons_of_neg (by simp [hb])]

/-- A byte that is no blank comes next, behind blanks. -/
theorem skipSpace_eq_token (hb : isSpace b = false) :
    skipSpace s = b :: r ↔ ∃ w, Blank w ∧ s = w ++ b :: r := by
  rw [skipSpace_eq_cons, and_iff_right hb]

/-! ## Punctuation -/

theorem readWord_eq_ok : readWord w s = .ok r ↔ s = w ++ r := by
  fun_induction readWord w s with
  | case1 s => rw [List.nil_append, Except.ok.injEq]
  | case2 => simp
  | case3 w ws s ih => rw [ih, List.cons_append, List.cons.injEq, and_iff_right rfl]
  | case4 w ws b s hb => exact iff_of_false (by simp) fun h => hb (List.cons.inj h).1

theorem firstElement_done : firstElement s = .ok (.done r) ↔ ∃ w, Blank w ∧ s = w ++ closeBracket :: r := by
  rw [← skipSpace_eq_token (by decide), firstElement]
  cases skipSpace s <;> grind

/-- An element is there when something other than the closing bracket is. -/
theorem firstElement_item : firstElement s = .ok (.item t) ↔
    ∃ b r, t = b :: r ∧ b ≠ closeBracket ∧ isSpace b = false ∧ ∃ w, Blank w ∧ s = w ++ t := by
  have hskip : firstElement s = .ok (.item t) ↔
      ∃ b r, t = b :: r ∧ b ≠ closeBracket ∧ skipSpace s = b :: r := by
    rw [firstElement]
    cases skipSpace s <;> grind
  rw [hskip]
  constructor
  · rintro ⟨b, r, rfl, hb, h⟩
    exact ⟨b, r, rfl, hb, skipSpace_eq_cons.1 h⟩
  · rintro ⟨b, r, rfl, hb, h⟩
    exact ⟨b, r, rfl, hb, skipSpace_eq_cons.2 h⟩

theorem nextElement_done : nextElement s = .ok (.done r) ↔ ∃ w, Blank w ∧ s = w ++ closeBracket :: r := by
  rw [← skipSpace_eq_token (by decide), nextElement]
  cases skipSpace s <;> grind

/-- Behind a comma an element is looked for as it is behind the opening bracket. -/
theorem nextElement_item : nextElement s = .ok (.item t) ↔
    ∃ u, (∃ w, Blank w ∧ s = w ++ comma :: u) ∧ firstElement u = .ok (.item t) := by
  simp only [← skipSpace_eq_token (show isSpace comma = false by decide), nextElement, firstElement]
  cases skipSpace s <;> grind

theorem firstMember_done : firstMember s = .ok (.done r) ↔ ∃ w, Blank w ∧ s = w ++ closeBrace :: r := by
  rw [← skipSpace_eq_token (by decide), firstMember]
  cases skipSpace s <;> grind

theorem firstMember_item : firstMember s = .ok (.item r) ↔ ∃ w, Blank w ∧ s = w ++ quote :: r := by
  rw [← skipSpace_eq_token (by decide), firstMember]
  cases skipSpace s <;> grind

theorem nextMember_done : nextMember s = .ok (.done r) ↔ ∃ w, Blank w ∧ s = w ++ closeBrace :: r := by
  rw [← skipSpace_eq_token (by decide), nextMember]
  cases skipSpace s <;> grind

theorem nextMember_item : nextMember s = .ok (.item r) ↔
    ∃ u, (∃ w, Blank w ∧ s = w ++ comma :: u) ∧ firstMember u = .ok (.item r) := by
  simp only [← skipSpace_eq_token (show isSpace comma = false by decide), nextMember, firstMember]
  cases skipSpace s <;> grind

theorem readColon_eq_ok : readColon s = .ok r ↔ ∃ w, Blank w ∧ s = w ++ colon :: r := by
  rw [← skipSpace_eq_token (by decide), readColon]
  cases skipSpace s <;> grind

theorem readEnd_eq_ok : readEnd s = .ok () ↔ Blank s := by
  rw [← skipSpace_eq_nil, readEnd]
  cases skipSpace s <;> grind

end

end ShapeLedger.Json
