/-
Strings that hold documents, which may be strings again. What is read out of a text is shorter than the text by
two bytes at least: the quotes are not part of it, and no escape is shorter than its character. So looking into a
value over and over comes to an end, with an error or with a value that is no string, and a look more changes
nothing after that.
-/
import ShapeLedger.Analysis.Document
import ShapeLedger.Proofs.Json.RoundTrip

namespace ShapeLedger.Document

open Json Json.Grammar

/-! ## Definitions -/

/-- A string has at most `n` bytes; all other values fit. -/
def Fits (n : Nat) (v : Value) : Prop := ∀ s, v = .text s → (Utf8.encode s).length ≤ n

/-- After `n` looks into a value there is nothing left to look into. -/
structure SettlesAt (n : Nat) (v : Value) : Prop where
  outcome : (∃ e, embeddedTimes n v = .error e) ∨ ∃ w, embeddedTimes n v = .ok w ∧ ∀ s, w ≠ .text s
  /-- What has been found stays what it is, however often it is looked into. -/
  fixed : ∀ w, embeddedTimes n v = .ok w → ∀ k, embeddedTimes k w = .ok w
  constant : ∀ k, n ≤ k → embeddedTimes k v = embeddedTimes n v
  report : ∀ k, n ≤ k → (embeddedTimes k v).map Report.of = (embeddedTimes n v).map Report.of

/-! ## One look -/

section
variable {n k : Nat} {v w : Value} {s : String}

/-- A text that is a string is longer than what it holds, by its quotes at least. -/
theorem length_of_decode_text {t : Bytes} (h : decode t = .ok (.text s)) :
    (Utf8.encode s).length + 2 ≤ t.length := by
  have ht : Text t (.text s) := readDocument_eq_ok.1 (decode_eq_ok.1 h)
  cases ht with
  | @element w q w' _ _ hq _ =>
    cases hq with
    | text hq =>
      have hle := hq.length_le
      simp only [List.length_append]
      omega

theorem embedded_of_ne_text (h : ∀ s, v ≠ .text s) : embedded v = .ok v := by
  cases v with
  | text s => exact absurd rfl (h s)
  | null | boolean | number | array | object => rfl

/-- A string is found in a longer one only. -/
theorem embedded_eq_text (h : embedded v = .ok (.text s)) :
    ∃ u, v = .text u ∧ (Utf8.encode s).length + 2 ≤ (Utf8.encode u).length := by
  cases v with
  | text u => exact ⟨u, rfl, length_of_decode_text h⟩
  | null | boolean | number | array | object => cases h

/-! ## Many looks -/

theorem embeddedTimes_add (m n : Nat) (v : Value) :
    embeddedTimes (m + n) v = embeddedTimes m v >>= embeddedTimes n := by
  induction m generalizing v with
  | zero =>
    rw [Nat.zero_add]
    rfl
  | succ m ih =>
    rw [Nat.add_right_comm, embeddedTimes, embeddedTimes]
    cases embedded v with
    | error e => rfl
    | ok w => exact ih w

theorem embeddedTimes_of_ne_text (h : ∀ s, v ≠ .text s) (k : Nat) : embeddedTimes k v = .ok v := by
  induction k with
  | zero => rfl
  | succ k ih =>
    rw [embeddedTimes, embedded_of_ne_text h]
    exact ih

/-- As long as there is a string, each look has cost it two bytes. -/
theorem embeddedTimes_eq_text (hv : Fits n v) (h : embeddedTimes k v = .ok (.text s)) :
    (Utf8.encode s).length + 2 * k ≤ n := by
  induction k generalizing s with
  | zero =>
    cases h
    exact hv s rfl
  | succ k ih =>
    rw [embeddedTimes_add] at h
    obtain ⟨w, hw, hlast⟩ := bind_eq_ok h
    have hembedded : embedded w = .ok (.text s) := by
      rw [embeddedTimes] at hlast
      split at hlast
      · cases hlast
      · next x hx =>
        rw [hx]
        exact hlast
    obtain ⟨u, rfl, hshorter⟩ := embedded_eq_text hembedded
    have hu := ih hw
    omega

theorem settlesAt_of_ne_text (h : ∀ s, embeddedTimes n v ≠ .ok (.text s)) : SettlesAt n v := by
  -- what is no string is its own document, however often it is looked into
  have hconstant (k : Nat) (hk : n ≤ k) : embeddedTimes k v = embeddedTimes n v := by
    obtain ⟨d, rfl⟩ := Nat.exists_eq_add_of_le hk
    rw [embeddedTimes_add]
    cases hw : embeddedTimes n v with
    | error e => rfl
    | ok w =>
      have hnot : ∀ s, w ≠ .text s := by
        rintro s rfl
        exact h s hw
      exact embeddedTimes_of_ne_text hnot d
  constructor
  case outcome =>
    cases hw : embeddedTimes n v with
    | error e => exact .inl ⟨e, rfl⟩
    | ok w =>
      refine .inr ⟨w, rfl, ?_⟩
      rintro s rfl
      exact h s hw
  case fixed =>
    intro w hw k
    refine embeddedTimes_of_ne_text ?_ k
    rintro s rfl
    exact h s hw
  case constant => exact hconstant
  case report =>
    intro k hk
    rw [hconstant k hk]

end

/-- A string in a text is shorter than the text by two bytes at least, so half as many looks as a string has
bytes, and one more, are enough for whatever is in it. -/
theorem looking_settles :
    (∀ t s, decode t = .ok (.text s) → (Utf8.encode s).length + 2 ≤ t.length) ∧
      ∀ n v, Fits n v → SettlesAt (n / 2 + 1) v := by
  refine ⟨fun t s h => length_of_decode_text h, fun n v hv => settlesAt_of_ne_text fun s h => ?_⟩
  have hcost := embeddedTimes_eq_text hv h
  omega

/-- A string in a string, the inner one with an escaped digit: five looks are enough for its eight bytes. -/
theorem looking_settles_nested :
    decode (Utf8.encode "\"\\\"\\\\u0031\\\"\"") = .ok (.text "\"\\u0031\"") ∧
      (Utf8.encode "\"\\u0031\"").length + 2 ≤ (Utf8.encode "\"\\\"\\\\u0031\\\"\"").length ∧
      Fits 8 (.text "\"\\u0031\"") ∧ SettlesAt 5 (.text "\"\\u0031\"") := by
  have hquoted : Quoted (Utf8.encode "\"\\\"\\\\u0031\\\"\"") "\"\\u0031\"" := quoted_denotes "\"\\u0031\""
  have htext : Text (Utf8.encode "\"\\\"\\\\u0031\\\"\"") (.text "\"\\u0031\"") := by
    have helement := Denotes.element blank_nil (.text hquoted) blank_nil
    rwa [List.append_nil, List.nil_append] at helement
  have hdecode := decode_eq_ok.2 (readDocument_eq_ok.2 htext)
  have hfits : Fits 8 (.text "\"\\u0031\"") := by
    rintro s ⟨⟩
    decide
  exact ⟨hdecode, looking_settles.1 _ _ hdecode, hfits, looking_settles.2 8 _ hfits⟩

end ShapeLedger.Document
