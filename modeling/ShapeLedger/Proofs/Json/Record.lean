/-
The reader of records against the grammar. A form accepts an object whose members set its fields one after
the other, each at most once, or an array of their values in the order of the fields; what it does with
a value is what the reader of the field does with it (`Form.parse_eq_ok`).

The grammar here gives the members and the elements with the texts of their values, not with what these
denote: members that a form does not name are passed over, and need denote nothing. A reader is asked no
more than that it reads one value with blanks in front and stops behind it (`Delimits`). Those of the fields
are shown to convert the value that a text denotes (`Converts`), so what becomes of a field depends on the
values under its key alone (`Slot`).
-/
import ShapeLedger.Json.Record
import ShapeLedger.Proofs.Json.Passing

namespace ShapeLedger.Json

open Ascii Grammar

/-! ## Texts of arrays and objects -/

namespace Grammar

/-- A value with blanks around it, and the text of that value. -/
inductive ElementText : Bytes → Bytes → Prop where
  | mk {w t w' : Bytes} (hw : Blank w) (ht : Passed t .value) (hw' : Blank w') :
      ElementText (w ++ (t ++ w')) t

/-- A member, with its key and the text of its value. -/
inductive MemberText : Bytes → String × Bytes → Prop where
  | mk {w k w' s t : Bytes} {key : String} (hw : Blank w) (hk : Quoted k key) (hw' : Blank w')
      (hs : ElementText s t) : MemberText (w ++ (k ++ (w' ++ colon :: s))) (key, t)

/-- Items between commas, at least one. -/
inductive Commas {α : Type} (item : Bytes → α → Prop) : Bytes → List α → Prop where
  | last {s : Bytes} {a : α} (hs : item s a) : Commas item s [a]
  | more {s t : Bytes} {a : α} {as : List α} (hs : item s a) (ht : Commas item t as) :
      Commas item (s ++ comma :: t) (a :: as)

/-- Items in a bracket, or none. -/
inductive Enclosed {α : Type} (bracket : Bracket) (item : Bytes → α → Prop) : Bytes → List α → Prop where
  | empty {w : Bytes} (hw : Blank w) : Enclosed bracket item (start bracket :: (w ++ [bracket.close])) []
  | full {s : Bytes} {as : List α} (hs : Commas item s as) :
      Enclosed bracket item (start bracket :: (s ++ [bracket.close])) as

/-- A whole text that is a bracket with these items. -/
def Written {α : Type} (bracket : Bracket) (item : Bytes → α → Prop) (s : Bytes) (as : List α) : Prop :=
  ∃ w t w', s = w ++ (t ++ w') ∧ Blank w ∧ Enclosed bracket item t as ∧ Blank w'

/-- A whole text that is an array, with the texts of its elements. -/
def ArrayText (s : Bytes) (ts : List Bytes) : Prop := Written .list ElementText s ts

/-- A whole text that is an object, with its members as they are written. -/
def ObjectText (s : Bytes) (ms : List (String × Bytes)) : Prop := Written .record MemberText s ms

/-- What stands behind an item of a bracket whose further items are `as`; `r` follows the bracket. -/
inductive Onward {α : Type} (bracket : Bracket) (item : Bytes → α → Prop) (r : Bytes) :
    Bytes → List α → Prop where
  | close : Onward bracket item r (bracket.close :: r) []
  | more {s : Bytes} {as : List α} (hs : Commas item s as) :
      Onward bracket item r (comma :: (s ++ bracket.close :: r)) as

end Grammar

section
variable {α : Type} {bracket : Bracket} {item : Bytes → α → Prop} {s r u : Bytes} {a : α} {as : List α}

/-- The first item, and what stands behind it. -/
theorem commas_cons (bracket : Bracket) (r : Bytes) :
    (∃ t, Commas item t (a :: as) ∧ s = t ++ bracket.close :: r) ↔
      ∃ t u, item t a ∧ Onward bracket item r u as ∧ s = t ++ u := by
  constructor
  · rintro ⟨_, ht, rfl⟩
    cases ht with
    | last ha => exact ⟨_, _, ha, .close, rfl⟩
    | more ha hs => exact ⟨_, _, ha, .more hs, by simp⟩
  · rintro ⟨t, _, ha, hu, rfl⟩
    cases hu with
    | close => exact ⟨t, .last ha, rfl⟩
    | more hs => exact ⟨_, .more ha hs, by simp⟩

/-- What holds of the items in a bracket holds of each of them. -/
theorem Grammar.Enclosed.forall {P : α → Prop} (h : Enclosed bracket item s as)
    (hP : ∀ {t a}, item t a → P a) : ∀ a ∈ as, P a := by
  cases h with
  | empty => simp
  | full hs =>
    induction hs with
    | last hs => simpa using hP hs
    | more hs _ ih => exact List.forall_mem_cons.2 ⟨hP hs, ih⟩

theorem Grammar.Onward.stops (h : Onward bracket item r u as) : Stops u := by
  cases h with
  | close => exact stops_close bracket r
  | more => exact stops_comma _

end

theorem Grammar.ElementText.passed {s t : Bytes} (h : ElementText s t) : Passed t .value := by
  cases h with
  | mk _ ht _ => exact ht

theorem Grammar.MemberText.passed {s : Bytes} {m : String × Bytes} (h : MemberText s m) :
    Passed m.2 .value := by
  cases h with
  | mk _ _ _ hs => exact hs.passed

/-! ### Arrays of values -/

theorem denotes_elements {s : Bytes} {vs : List Value} : Denotes s (.elements vs) ↔
    ∃ ts, Commas ElementText s ts ∧ List.Forall₂ (fun t v => Denotes t (.value v)) ts vs := by
  constructor
  · intro h
    induction vs generalizing s with
    | nil => cases h
    | cons v vs ih =>
      -- an element is an item with blanks around it
      have element {t : Bytes} (ht : Denotes t (.element v)) :
          ∃ x, ElementText t x ∧ Denotes x (.value v) := by
        cases ht with
        | element hw hx hw' => exact ⟨_, .mk hw (passed_of_denotes hx) hw', hx⟩
      cases h with
      | lastElement hs =>
        obtain ⟨x, ht, hx⟩ := element hs
        exact ⟨[x], .last ht, .cons hx .nil⟩
      | nextElement hs ht =>
        obtain ⟨x, hs, hx⟩ := element hs
        obtain ⟨xs, ht, hxs⟩ := ih ht
        exact ⟨x :: xs, .more hs ht, .cons hx hxs⟩
  · rintro ⟨ts, hs, h⟩
    have element {t x : Bytes} {v : Value} (ht : ElementText t x) (hx : Denotes x (.value v)) :
        Denotes t (.element v) := by
      cases ht with
      | mk hw _ hw' => exact .element hw hx hw'
    induction hs generalizing vs with
    | last hs =>
      cases h with
      | cons hx hnil => cases hnil; exact .lastElement (element hs hx)
    | more hs _ ih =>
      cases h with
      | cons hx hxs => exact .nextElement (element hs hx) (ih hxs)

theorem denotes_array {s : Bytes} {vs : List Value} : Denotes s (.value (.array vs)) ↔
    ∃ ts, Enclosed .list ElementText s ts ∧ List.Forall₂ (fun t v => Denotes t (.value v)) ts vs := by
  constructor
  · intro h
    cases h with
    | emptyArray hw => exact ⟨[], .empty hw, .nil⟩
    | array hs =>
      obtain ⟨ts, hs, hts⟩ := denotes_elements.1 hs
      exact ⟨ts, .full hs, hts⟩
  · rintro ⟨ts, hs, h⟩
    cases hs with
    | empty hw => cases h; exact .emptyArray hw
    | full hs => exact .array (denotes_elements.2 ⟨ts, hs, h⟩)

theorem text_array {b : Bytes} {vs : List Value} : Text b (.array vs) ↔
    ∃ ts, ArrayText b ts ∧ List.Forall₂ (fun t v => Denotes t (.value v)) ts vs := by
  constructor
  · intro h
    cases h with
    | element hw hs hw' =>
      obtain ⟨ts, ht, hts⟩ := denotes_array.1 hs
      exact ⟨ts, ⟨_, _, _, rfl, hw, ht, hw'⟩, hts⟩
  · rintro ⟨ts, ⟨w, t, w', rfl, hw, ht, hw'⟩, hts⟩
    exact .element hw (denotes_array.2 ⟨ts, ht, hts⟩) hw'

theorem Grammar.ArrayText.passed {b : Bytes} {ts : List Bytes} (h : ArrayText b ts) :
    ∀ t ∈ ts, Passed t .value := by
  obtain ⟨_, _, _, -, -, ht, -⟩ := h
  exact ht.forall ElementText.passed

theorem Grammar.ObjectText.passed {b : Bytes} {ms : List (String × Bytes)} (h : ObjectText b ms) :
    ∀ m ∈ ms, Passed m.2 .value := by
  obtain ⟨_, _, _, -, -, ht, -⟩ := h
  exact ht.forall MemberText.passed

/-- A text that is written as an object, and denotes anything at all, denotes an object. -/
theorem Grammar.ObjectText.eq_object {b : Bytes} {ms : List (String × Bytes)} (h : ObjectText b ms)
    {v : Value} (hv : Text b v) : ∃ members, v = .object members := by
  obtain ⟨w, t, w', rfl, hw, ht, -⟩ := h
  obtain ⟨s, rfl⟩ : ∃ s, t = openBrace :: s := by cases ht <;> exact ⟨_, rfl⟩
  have hb : skipSpace (w ++ (openBrace :: s ++ w')) = openBrace :: (s ++ w') :=
    (skipSpace_eq_token (by decide)).2 ⟨w, hw, rfl⟩
  generalize w ++ (openBrace :: s ++ w') = b at hv hb
  cases hv with
  | @element x t x' _ hx ht hx' =>
    rw [skipSpace_append hx, (passes_of_passed (passed_of_denotes ht)).1.skip] at hb
    cases ht with
    | object => exact ⟨_, rfl⟩
    | number hs =>
      obtain ⟨c, u, rfl, hc⟩ := hs.head
      rw [List.cons_append, List.cons.injEq] at hb
      rcases hb.1 ▸ hc with hc | hc <;> exact absurd hc (by decide)
    | text hs =>
      obtain ⟨body, rfl, -⟩ := hs.loose
      cases (List.cons.inj hb).1
    | _ => cases (List.cons.inj hb).1

/-! ## Readers of one value -/

section
variable {β : Type} {reader : Bytes → Reading β} {convert : Value → Option β} {s t r w : Bytes} {b : β}

/-- The reader takes one value with the blanks in front of it, and makes of it what it makes of the text of
that value alone. -/
structure Delimits (reader : Bytes → Reading β) : Prop where
  sound : ∀ {s r b}, reader s = .ok (b, r) →
    ∃ w t, Blank w ∧ Passed t .value ∧ reader t = .ok (b, []) ∧ s = w ++ (t ++ r)
  complete : ∀ {w t r b}, Blank w → reader t = .ok (b, []) → Passed t .value → Stops r →
    reader (w ++ (t ++ r)) = .ok (b, r)

theorem Delimits.map {γ : Type} (h : Delimits reader) (f : β → γ) :
    Delimits fun s => (reader s).map fun (b, r) => (f b, r) where
  sound := by
    intro s r c hc
    obtain ⟨⟨b, r'⟩, hb, he⟩ := map_eq_ok hc
    cases he
    obtain ⟨w, t, hw, ht, hread, rfl⟩ := h.sound hb
    exact ⟨w, t, hw, ht, by rw [hread]; rfl, rfl⟩
  complete := by
    intro w t r c hw hc ht hr
    obtain ⟨⟨b, r'⟩, hb, he⟩ := map_eq_ok hc
    cases he
    rw [h.complete hw hb ht hr]
    rfl

/-- The text denotes a value that is converted to `b`. -/
def Stands (convert : Value → Option β) (t : Bytes) (b : β) : Prop :=
  ∃ v, Denotes t (.value v) ∧ convert v = some b

/-- The reader takes the texts whose values can be converted, with blanks in front, and converts them. -/
structure Converts (reader : Bytes → Reading β) (convert : Value → Option β) : Prop where
  sound : ∀ {s r b}, reader s = .ok (b, r) → ∃ w t, Blank w ∧ Stands convert t b ∧ s = w ++ (t ++ r)
  complete : ∀ {w t r b}, Blank w → Stands convert t b → Stops r → reader (w ++ (t ++ r)) = .ok (b, r)

theorem Converts.whole (h : Converts reader convert) (ht : Stands convert t b) : reader t = .ok (b, []) := by
  have hread := h.complete blank_nil ht stops_nil
  simpa using hread

/-- A value starts with no blank. -/
theorem Grammar.Passed.blank_nil {x : Bytes} (h : Passed t .value) (hw : Blank w) (ht : t = w ++ x) :
    w = [] := by
  obtain ⟨⟨b, u, rfl, hb, -⟩, -⟩ := passes_of_passed h
  cases w with
  | nil => rfl
  | cons c w =>
    rw [List.cons_append, List.cons.injEq] at ht
    rw [ht.1, isSpace_iff.2 (hw c List.mem_cons_self)] at hb
    cases hb

theorem Converts.whole_iff (h : Converts reader convert) (ht : Passed t .value) :
    reader t = .ok (b, []) ↔ Stands convert t b := by
  refine ⟨fun hread => ?_, h.whole⟩
  obtain ⟨w, x, hw, hx, he⟩ := h.sound hread
  rw [List.append_nil] at he
  obtain rfl := ht.blank_nil hw he
  rwa [he]

theorem Stands.passed (h : Stands convert t b) : Passed t .value := by
  obtain ⟨v, ht, -⟩ := h
  exact passed_of_denotes ht

theorem Converts.delimits (h : Converts reader convert) : Delimits reader where
  sound := by
    intro s r b hb
    obtain ⟨w, t, hw, ht, rfl⟩ := h.sound hb
    exact ⟨w, t, hw, ht.passed, h.whole ht, rfl⟩
  complete := by
    intro w t r b hw hb ht hr
    exact h.complete hw ((h.whole_iff ht).1 hb) hr

/-! ### The readers of the fields -/

def asText? : Value → Option String
  | .text x => some x
  | _ => none

/-- A null stands for no text. -/
def asOptionalText? : Value → Option (Option String)
  | .null => some none
  | .text x => some (some x)
  | _ => none

/-- A number of any kind: an integer is rounded. -/
def asReal? : Value → Option Binary64
  | .number (.integer n) => some (Binary64.ofInt n)
  | .number (.real x) => some x
  | _ => none

/-- An integer of 64 bits with a sign. -/
def asInteger? : Value → Option Int
  | .number (.integer n) => if n < twoPow 63 then some n else none
  | _ => none

theorem asText?_eq_some {v : Value} {x : String} : asText? v = some x ↔ v = .text x := by
  cases v <;> simp [asText?]

theorem asReal?_eq_some {v : Value} {x : Binary64} (h : asReal? v = some x) : ∃ n, v = .number n := by
  unfold asReal? at h
  split at h
  · exact ⟨_, rfl⟩
  · exact ⟨_, rfl⟩
  · cases h

theorem asInteger?_eq_some {v : Value} {n : Int} :
    asInteger? v = some n ↔ v = .number (.integer n) ∧ n < twoPow 63 := by
  unfold asInteger?
  split
  · next m => split <;> grind
  · next hv => exact iff_of_false nofun fun h => hv _ h.1

theorem readText_converts : Converts readText asText? where
  sound := by
    intro s r x h
    unfold readText at h
    split at h
    · cases h
    · next b u hs =>
      obtain ⟨-, w, hw, rfl⟩ := skipSpace_eq_cons.1 hs
      split at h
      · next hb =>
        obtain ⟨q, hq, hquoted⟩ := readString_eq_ok.1 (mapError_eq_ok h)
        exact ⟨w, q, hw, ⟨.text x, .text hquoted, rfl⟩, by rw [hb, hq]⟩
      · cases h
  complete := by
    rintro w t r x hw ⟨v, ht, hv⟩ hr
    obtain rfl := asText?_eq_some.1 hv
    cases ht with
    | text hquoted =>
      obtain ⟨body, rfl, -⟩ := hquoted.loose
      have hread : readString (body ++ [quote] ++ r) = .ok (x, r) := readString_eq_ok.2 ⟨_, rfl, hquoted⟩
      have hskip : skipSpace (w ++ (quote :: (body ++ [quote]) ++ r)) = quote :: (body ++ [quote] ++ r) :=
        (skipSpace_eq_token (by decide)).2 ⟨w, hw, rfl⟩
      rw [readText, hskip]
      simp only [if_true, hread, Except.mapError]

theorem readOptionalText_converts : Converts readOptionalText asOptionalText? where
  sound := by
    intro s r x h
    unfold readOptionalText at h
    split at h
    · cases h
    · next b u hs =>
      obtain ⟨-, w, hw, rfl⟩ := skipSpace_eq_cons.1 hs
      split at h
      · next hb =>
        obtain ⟨u', hword, he⟩ := map_eq_ok h
        cases he
        have hnull : u = [0x75, 0x6C, 0x6C] ++ r := readWord_eq_ok.1 (mapError_eq_ok hword)
        exact ⟨w, _, hw, ⟨.null, .null, rfl⟩, by rw [hb, hnull]; rfl⟩
      · obtain ⟨⟨y, u'⟩, hy, he⟩ := map_eq_ok h
        cases he
        obtain ⟨w', t, hw', ⟨v, ht, hv⟩, hs⟩ := readText_converts.sound hy
        obtain rfl := asText?_eq_some.1 hv
        exact ⟨w ++ w', t, hw.append hw', ⟨.text y, ht, rfl⟩, by rw [hs, List.append_assoc]⟩
  complete := by
    rintro w t r x hw ⟨v, ht, hv⟩ hr
    cases v <;> cases hv
    -- the word null is no text, so it is told by its first letter
    · cases ht
      have hskip : skipSpace (w ++ ([0x6E, 0x75, 0x6C, 0x6C] ++ r)) = 0x6E :: ([0x75, 0x6C, 0x6C] ++ r) :=
        (skipSpace_eq_token (by decide)).2 ⟨w, hw, rfl⟩
      have hword : readWord [0x75, 0x6C, 0x6C] ([0x75, 0x6C, 0x6C] ++ r) = .ok r := readWord_eq_ok.2 rfl
      rw [readOptionalText, hskip]
      simp only [if_true, hword, Except.mapError, Except.map]
    · next y =>
      cases ht with
      | text hquoted =>
        obtain ⟨body, rfl, -⟩ := hquoted.loose
        have hskip : skipSpace (w ++ (quote :: (body ++ [quote]) ++ r)) = quote :: (body ++ [quote] ++ r) :=
          (skipSpace_eq_token (by decide)).2 ⟨w, hw, rfl⟩
        -- any other item is left to the reader of texts
        have hquote : ¬ quote = 0x6E := by decide
        have hread : readText (quote :: (body ++ [quote] ++ r)) = .ok (y, r) :=
          readText_converts.complete blank_nil ⟨.text y, .text hquoted, rfl⟩ hr
        rw [readOptionalText, hskip]
        simp only [hquote, if_false, hread, Except.map]

/-- A number comes next, behind blanks. -/
theorem readNumber_next {n : Number} (hw : Blank w) (ht : Denotes t (.value (.number n))) (hr : Stops r) :
    ∃ b u, skipSpace (w ++ (t ++ r)) = b :: u ∧ (b = minus || isDigit b) = true ∧
      readNumber (b :: u) = .ok (n, r) := by
  cases ht with
  | number hs hx =>
    have hread := readNumber_complete hs hx hr
    obtain ⟨b, u, rfl, hb⟩ := hs.head
    have hb : (b = minus || isDigit b) = true := by simpa using hb
    exact ⟨b, u ++ r, (skipSpace_eq_token (isBare_number hb).1).2 ⟨w, hw, rfl⟩, hb, hread⟩

theorem readReal_converts : Converts readReal asReal? where
  sound := by
    intro s r x h
    unfold readReal at h
    split at h
    · cases h
    · next b u hs =>
      obtain ⟨-, w, hw, rfl⟩ := skipSpace_eq_cons.1 hs
      split at h
      · split at h
        · cases h
        all_goals
          next hn =>
          cases h
          obtain ⟨t, n, ht, hnum, hs⟩ := readNumber_sound hn
          exact ⟨w, t, hw, ⟨_, .number ht hnum, rfl⟩, by rw [hs]⟩
      · cases h
  complete := by
    rintro w t r x hw ⟨v, ht, hv⟩ hr
    obtain ⟨n, rfl⟩ := asReal?_eq_some hv
    obtain ⟨b, u, hskip, hb, hread⟩ := readNumber_next hw ht hr
    rw [readReal, hskip]
    cases n <;> cases hv <;> simp only [hb, if_true, hread]

theorem readInteger_converts : Converts readInteger asInteger? where
  sound := by
    intro s r x h
    unfold readInteger at h
    split at h
    · cases h
    · next b u hs =>
      obtain ⟨-, w, hw, rfl⟩ := skipSpace_eq_cons.1 hs
      split at h
      · split at h
        · cases h
        · next hn =>
          split at h
          · next hlt =>
            cases h
            obtain ⟨t, n, ht, hnum, hs⟩ := readNumber_sound hn
            exact ⟨w, t, hw, ⟨_, .number ht hnum, asInteger?_eq_some.2 ⟨rfl, hlt⟩⟩, by rw [hs]⟩
          · cases h
        · cases h
      · cases h
  complete := by
    rintro w t r x hw ⟨v, ht, hv⟩ hr
    obtain ⟨rfl, hlt⟩ := asInteger?_eq_some.1 hv
    obtain ⟨b, u, hskip, hb, hread⟩ := readNumber_next hw ht hr
    rw [readInteger, hskip]
    simp only [hb, if_true, hread, hlt]

end

/-! ## Records -/

section
variable {σ α : Type} {form : Form σ α} {draft draft' : σ} {key : String} {s t u r w : Bytes} {a : α}
  {turn : Turn}

/-- The readers of all fields take one value each. -/
def Form.Regular (form : Form σ α) : Prop := ∀ field ∈ form.fields, ∀ draft, Delimits (field.read draft)

/-- A member takes a draft to another one: its field has not been set before, and is then, if the form
names one for its key. -/
def Form.Sets (form : Form σ α) (draft : σ) (m : String × Bytes) (draft' : σ) : Prop :=
  form.repeats draft m.1 = false ∧ form.readMember draft m.1 m.2 = .ok (draft', [])

/-- The members of an object take a draft to another one. -/
def Form.Fills (form : Form σ α) : σ → List (String × Bytes) → σ → Prop
  | draft, [], draft' => draft' = draft
  | draft, m :: ms, draft' => ∃ next, form.Sets draft m next ∧ form.Fills next ms draft'

/-- The elements of an array are the values of these fields, and take a draft to another one. -/
def FillsInOrder : List (Field σ) → σ → List Bytes → σ → Prop
  | [], draft, [], draft' => draft' = draft
  | field :: fields, draft, t :: ts, draft' =>
    ∃ next, field.read draft t = .ok (next, []) ∧ FillsInOrder fields next ts draft'
  | _, _, _, _ => False

/-! ### Members -/

theorem skipValue_delimits (draft : σ) :
    Delimits fun s => ((skipValue s).mapError Flaw.ofFault).map (draft, ·) where
  sound := by
    intro s r d h
    obtain ⟨r', hr, he⟩ := map_eq_ok h
    cases he
    obtain ⟨w, t, hw, ht, rfl⟩ := skipValue_sound (mapError_eq_ok hr)
    exact ⟨w, t, hw, ht, by rw [skipValue_whole ht]; rfl, rfl⟩
  complete := by
    intro w t r d hw hd ht hr
    obtain ⟨r', -, he⟩ := map_eq_ok hd
    cases he
    rw [skipValue_complete hw ht hr]
    rfl

theorem Form.readMember_delimits (h : form.Regular) (draft : σ) (key : String) :
    Delimits (form.readMember draft key) := by
  cases hf : form.fields.find? (fun f => f.name = key) with
  | none =>
    have hread : form.readMember draft key = fun s => ((skipValue s).mapError .ofFault).map (draft, ·) := by
      funext s
      simp only [readMember, hf]
    exact hread ▸ skipValue_delimits draft
  | some field =>
    have hread : form.readMember draft key = field.read draft := by
      funext s
      simp only [readMember, hf]
    exact hread ▸ h field (List.mem_of_find?_eq_some hf) draft

/-- A member from behind the quote of its key up to the end of its value, and what follows that. -/
def Keyed (s : Bytes) (m : String × Bytes) (u : Bytes) : Prop :=
  ∃ k w x, quote :: s = k ++ (w ++ colon :: (x ++ (m.2 ++ u))) ∧ Quoted k m.1 ∧ Blank w ∧ Blank x ∧
    Passed m.2 .value

theorem Form.readItem_sound (h : form.Regular) (hi : form.readItem draft s = .ok (draft', turn)) :
    ∃ m u, Keyed s m u ∧ form.Sets draft m draft' ∧ nextMember u = .ok turn := by
  unfold readItem at hi
  split at hi
  · cases hi
  · next key v hkey =>
    split at hi
    · cases hi
    · next hrepeats =>
      split at hi
      · cases hi
      · next v' hcolon =>
        split at hi
        · cases hi
        · next d u hmember =>
          obtain ⟨turn', hnext, he⟩ := map_eq_ok hi
          cases he
          obtain ⟨k, hk, hquoted⟩ := readString_eq_ok.1 hkey
          obtain ⟨w, hw, rfl⟩ := readColon_eq_ok.1 hcolon
          obtain ⟨x, t, hx, ht, hread, rfl⟩ := (readMember_delimits h draft key).sound hmember
          exact ⟨(key, t), u, ⟨k, w, x, hk, hquoted, hw, hx, ht⟩, ⟨by simpa using hrepeats, hread⟩,
            mapError_eq_ok hnext⟩

theorem Form.readItem_complete (h : form.Regular) {m : String × Bytes} (hm : Keyed s m u)
    (hset : form.Sets draft m draft') (hu : Stops u) (hnext : nextMember u = .ok turn) :
    form.readItem draft s = .ok (draft', turn) := by
  obtain ⟨k, w, x, hs, hk, hw, hx, ht⟩ := hm
  have hkey : readString s = .ok (m.1, w ++ colon :: (x ++ (m.2 ++ u))) := readString_eq_ok.2 ⟨k, hs, hk⟩
  have hcolon : readColon (w ++ colon :: (x ++ (m.2 ++ u))) = .ok (x ++ (m.2 ++ u)) :=
    readColon_eq_ok.2 ⟨w, hw, rfl⟩
  have hmember : form.readMember draft m.1 (x ++ (m.2 ++ u)) = .ok (draft', u) :=
    (readMember_delimits h draft m.1).complete hx hset.2 ht hu
  simp only [readItem, hkey, hset.1, Bool.false_eq_true, if_false, hcolon, hmember, hnext, Except.mapError,
    Except.map]

/-- Blanks behind a value belong to its member. -/
theorem Keyed.memberText {m : String × Bytes} (h : Keyed s m u) {w w' : Bytes} (hw : Blank w) {v : Bytes}
    (hw' : Blank w') (hu : u = w' ++ v) : ∃ t, MemberText t m ∧ w ++ quote :: s = t ++ v := by
  obtain ⟨k, x, y, hs, hk, hx, hy, ht⟩ := h
  exact ⟨_, .mk hw hk hx (.mk hy ht hw'), by rw [hs, hu]; simp⟩

theorem memberText_keyed {m : String × Bytes} (h : MemberText t m) :
    ∃ w s w', Blank w ∧ Blank w' ∧ t = w ++ quote :: s ∧ ∀ v, Keyed (s ++ v) m (w' ++ v) := by
  cases h with
  | @mk w k x _ _ _ hw hk hx hs =>
    cases hs with
    | @mk y t w' hy ht hw' =>
      obtain ⟨body, rfl, -⟩ := hk.loose
      exact ⟨w, _, w', hw, hw', rfl, fun v => ⟨_, x, y, by simp, hk, hx, hy, ht⟩⟩

/-- What is left of an object at one of its turns: members from behind the quote of the first key on, or
nothing but what follows the object. -/
def Leaves (turn : Turn) (ms : List (String × Bytes)) (r : Bytes) : Prop :=
  match turn with
  | .done s => ms = [] ∧ s = r
  | .item s => ∀ w, Blank w → ∃ t, Commas MemberText t ms ∧ w ++ quote :: s = t ++ closeBrace :: r

theorem leaves_nextMember {m : String × Bytes} {ms : List (String × Bytes)} (hk : Keyed s m u)
    (hnext : nextMember u = .ok turn) (hl : Leaves turn ms r) : Leaves (.item s) (m :: ms) r := by
  intro w hw
  refine (commas_cons .record r).2 ?_
  cases turn with
  | done s' =>
    obtain ⟨rfl, rfl⟩ := hl
    obtain ⟨w', hw', hu⟩ := nextMember_done.1 hnext
    obtain ⟨t, ht, hs⟩ := hk.memberText hw hw' hu
    exact ⟨t, _, ht, .close, hs⟩
  | item s' =>
    obtain ⟨u', ⟨w', hw', hu⟩, hitem⟩ := nextMember_item.1 hnext
    obtain ⟨w'', hw'', rfl⟩ := firstMember_item.1 hitem
    obtain ⟨later, hlater, hrest⟩ := hl w'' hw''
    obtain ⟨t, ht, hs⟩ := hk.memberText hw hw' hu
    exact ⟨t, _, ht, .more hlater, by rw [hs, hrest]; rfl⟩

theorem Form.finish_eq_ok : form.finish draft s = .ok (a, r) ↔ form.complete draft = .ok a ∧ s = r := by
  unfold finish
  cases form.complete draft <;> simp

theorem Form.readMembers_done (h : form.complete draft = .ok a) :
    form.readMembers draft (.done r) = .ok (a, r) := by
  rw [readMembers]
  exact finish_eq_ok.2 ⟨h, rfl⟩

theorem Form.readMembers_item (h : form.readItem draft s = .ok (draft', turn)) :
    form.readMembers draft (.item s) = form.readMembers draft' turn := by
  rw [readMembers]
  split
  · next he => rw [h] at he; cases he
  · next he => rw [h] at he; cases he; rfl

theorem Form.readMembers_sound (h : form.Regular) (hm : form.readMembers draft turn = .ok (a, r)) :
    ∃ ms draft', Leaves turn ms r ∧ form.Fills draft ms draft' ∧ form.complete draft' = .ok a := by
  fun_induction form.readMembers draft turn with
  | case1 draft s =>
    obtain ⟨hc, rfl⟩ := finish_eq_ok.1 hm
    exact ⟨[], draft, ⟨rfl, rfl⟩, rfl, hc⟩
  | case2 => cases hm
  | case3 draft s next turn hitem ih =>
    obtain ⟨m, u, hk, hset, hnext⟩ := readItem_sound h hitem
    obtain ⟨ms, draft', hl, hfill, hc⟩ := ih hm
    exact ⟨m :: ms, draft', leaves_nextMember hk hnext hl, ⟨next, hset, hfill⟩, hc⟩

/-- The members are read from behind the quote of the first key. -/
theorem Form.readMembers_complete (h : form.Regular) {ms : List (String × Bytes)}
    (ht : Commas MemberText t ms) (hfill : form.Fills draft ms draft') (hc : form.complete draft' = .ok a) :
    ∃ w s, Blank w ∧ t = w ++ quote :: s ∧
      form.readMembers draft (.item (s ++ closeBrace :: r)) = .ok (a, r) := by
  induction ht generalizing draft with
  | @last t m hm =>
    obtain ⟨next, hset, rfl⟩ := hfill
    obtain ⟨w, s, w', hw, hw', rfl, hkeyed⟩ := memberText_keyed hm
    refine ⟨w, s, hw, rfl, ?_⟩
    have hitem := readItem_complete h (hkeyed (closeBrace :: r)) hset ((stops_brace r).append hw')
      (nextMember_done.2 ⟨w', hw', rfl⟩)
    rw [readMembers_item hitem, readMembers_done hc]
  | @more t t' m ms hm _ ih =>
    obtain ⟨next, hset, hfill⟩ := hfill
    obtain ⟨w, s, w', hw, hw', rfl, hkeyed⟩ := memberText_keyed hm
    obtain ⟨x, s', hx, rfl, hrest⟩ := ih hfill
    refine ⟨w, s ++ comma :: (x ++ quote :: s'), hw, by simp, ?_⟩
    have hfirst : firstMember (x ++ quote :: (s' ++ closeBrace :: r)) = .ok (.item (s' ++ closeBrace :: r)) :=
      firstMember_item.2 ⟨x, hx, rfl⟩
    have hitem := readItem_complete h (hkeyed (comma :: (x ++ quote :: (s' ++ closeBrace :: r)))) hset
      ((stops_comma _).append hw') (nextMember_item.2 ⟨_, ⟨w', hw', rfl⟩, hfirst⟩)
    have hall := (readMembers_item hitem).trans hrest
    simpa using hall

/-! ### Elements -/

variable {field : Field σ} {fields : List (Field σ)} {ts : List Bytes} {i : Nat}

theorem readArrayEnd_eq_ok : readArrayEnd s = .ok r ↔ ∃ w, Blank w ∧ s = w ++ closeBracket :: r := by
  rw [← skipSpace_eq_token (by decide), readArrayEnd]
  cases skipSpace s <;> grind

theorem Form.readElements_nil : form.readElements draft i s [] = .ok (a, r) ↔
    form.complete draft = .ok a ∧ ∃ w, Blank w ∧ s = w ++ closeBracket :: r := by
  rw [readElements, ← readArrayEnd_eq_ok]
  cases readArrayEnd s <;> simp [finish_eq_ok]

theorem Form.readElements_cons : form.readElements draft i s (field :: fields) = .ok (a, r) ↔
    ∃ t next u, (if i = 0 then firstElement s else nextElement s) = .ok (.item t) ∧
      field.read draft t = .ok (next, u) ∧ form.readElements next (i + 1) u fields = .ok (a, r) := by
  constructor
  · intro h
    simp only [readElements] at h
    split at h
    · cases h
    · cases h
    · next t ht =>
      split at h
      · cases h
      · next next u hread => exact ⟨t, next, u, ht, hread, h⟩
  · rintro ⟨t, next, u, ht, hread, h⟩
    simp only [readElements, ht, hread, h]

/-- The value of a field, and what stands behind it, are the elements that are left. -/
theorem commas_field (hd : Delimits (field.read draft)) (hread : field.read draft t = .ok (draft', w ++ u))
    (hw : Blank w) (hu : Onward .list ElementText r u ts) {x : Bytes} (hx : Blank x) :
    ∃ y s, field.read draft y = .ok (draft', []) ∧ Commas ElementText s (y :: ts) ∧
      x ++ t = s ++ closeBracket :: r := by
  obtain ⟨w', y, hw', hy, hvalue, rfl⟩ := hd.sound hread
  have helement : ElementText (x ++ w' ++ (y ++ w)) y := .mk (hx.append hw') hy hw
  obtain ⟨s, hs, he⟩ := (commas_cons .list r).2 ⟨_, u, helement, hu, rfl⟩
  exact ⟨y, s, hvalue, hs, by simpa using he⟩

/-- The first of the elements that are left is read up to its end. -/
theorem field_of_commas (hd : Delimits (field.read draft)) {y : Bytes} (hs : Commas ElementText s (y :: ts))
    (hread : field.read draft y = .ok (draft', [])) :
    ∃ t w u, firstElement (s ++ closeBracket :: r) = .ok (.item t) ∧
      field.read draft t = .ok (draft', w ++ u) ∧ Blank w ∧ Onward .list ElementText r u ts := by
  obtain ⟨x, u, helement, hu, hx⟩ := (commas_cons .list r).1 ⟨s, hs, rfl⟩
  cases helement with
  | @mk w y w' hw hy hw' =>
    have hfirst : firstElement (w ++ (y ++ (w' ++ u))) = .ok (.item (y ++ (w' ++ u))) :=
      (passes_of_passed hy).1.firstElement hw _
    have hnext := hd.complete blank_nil hread hy (hu.stops.append hw')
    refine ⟨y ++ (w' ++ u), w', u, ?_, by simpa using hnext, hw', hu⟩
    rw [← hfirst]
    exact congrArg firstElement (by simpa using hx)

/-- What is read behind an element: the bracket that closes the array, or a comma and further elements. -/
theorem Form.readElements_sound (hf : ∀ field ∈ fields, ∀ draft, Delimits (field.read draft))
    (h : form.readElements draft (i + 1) s fields = .ok (a, r)) :
    ∃ w u ts draft', Blank w ∧ s = w ++ u ∧ Onward .list ElementText r u ts ∧
      FillsInOrder fields draft ts draft' ∧ form.complete draft' = .ok a := by
  induction fields generalizing draft i s with
  | nil =>
    obtain ⟨hc, w, hw, rfl⟩ := readElements_nil.1 h
    exact ⟨w, _, [], draft, hw, rfl, .close, rfl, hc⟩
  | cons field fields ih =>
    obtain ⟨t, next, v, hitem, hread, h⟩ := readElements_cons.1 h
    obtain ⟨w, u, ts, draft', hw, rfl, hu, hfill, hc⟩ := ih (fun f hm => hf f (.tail _ hm)) h
    -- the blanks behind the comma belong to the element
    obtain ⟨_, ⟨x, hx, rfl⟩, hfirst⟩ := nextElement_item.1 hitem
    obtain ⟨-, -, -, -, -, x', hx', rfl⟩ := firstElement_item.1 hfirst
    obtain ⟨y, s, hy, hs, he⟩ := commas_field (hf field (.head _) draft) hread hw hu hx'
    exact ⟨x, _, y :: ts, draft', hx, by rw [he]; rfl, .more hs, ⟨next, hy, hfill⟩, hc⟩

theorem Form.readElements_complete (hf : ∀ field ∈ fields, ∀ draft, Delimits (field.read draft))
    (hw : Blank w) (hu : Onward .list ElementText r u ts) (hfill : FillsInOrder fields draft ts draft')
    (hc : form.complete draft' = .ok a) : form.readElements draft (i + 1) (w ++ u) fields = .ok (a, r) := by
  induction fields generalizing draft i w u ts with
  | nil =>
    cases ts with
    | cons => cases hfill
    | nil =>
      obtain rfl : draft' = draft := hfill
      cases hu with
      | close => exact readElements_nil.2 ⟨hc, w, hw, rfl⟩
      | more hs => cases hs
  | cons field fields ih =>
    cases ts with
    | nil => cases hfill
    | cons y ts =>
      obtain ⟨next, hread, hfill⟩ := hfill
      cases hu with
      | more hs =>
        obtain ⟨t, w', u, hfirst, hread, hw', hu⟩ := field_of_commas (hf field (.head _) draft) hs hread
        have hitem := nextElement_item.2 ⟨_, ⟨w, hw, rfl⟩, hfirst⟩
        exact readElements_cons.2 ⟨t, next, w' ++ u, by simpa using hitem, hread,
          ih (fun f hm => hf f (.tail _ hm)) hw' hu hfill⟩

/-! ### Whole texts -/

/-- What the form makes of a text without blanks around it: the members or the elements in it are taken into
the blank draft, which is then complete. -/
inductive Form.Accepts (form : Form σ α) (t : Bytes) (a : α) : Prop where
  | object {ms : List (String × Bytes)} {draft : σ} (ht : Enclosed .record MemberText t ms)
      (fills : form.Fills form.blank ms draft) (complete : form.complete draft = .ok a)
  | array {ts : List Bytes} {draft : σ} (ht : Enclosed .list ElementText t ts)
      (fills : FillsInOrder form.fields form.blank ts draft) (complete : form.complete draft = .ok a)

/-- The first element has no comma in front of it, so it stands apart from the others. -/
theorem Form.accepts_of_elements (h : form.Regular)
    (hs : form.readElements form.blank 0 s form.fields = .ok (a, r)) :
    ∃ t, form.Accepts t a ∧ openBracket :: s = t ++ r := by
  cases hfields : form.fields with
  | nil =>
    rw [hfields, readElements_nil] at hs
    obtain ⟨hc, w, hw, rfl⟩ := hs
    exact ⟨_, .array (.empty hw) (hfields ▸ rfl) hc, by simp⟩
  | cons field fields =>
    have hf : ∀ f ∈ field :: fields, ∀ draft, Delimits (f.read draft) := hfields ▸ h
    rw [hfields] at hs
    obtain ⟨t, next, v, hfirst, hread, hs⟩ := readElements_cons.1 hs
    obtain ⟨w, u, ts, draft', hw, rfl, hu, hfill, hc⟩ := readElements_sound (fun f hm => hf f (.tail _ hm)) hs
    obtain ⟨-, -, -, -, -, x, hx, rfl⟩ := firstElement_item.1 hfirst
    obtain ⟨y, s, hy, hs, he⟩ := commas_field (hf field (.head _) form.blank) hread hw hu hx
    have hfill : FillsInOrder form.fields form.blank (y :: ts) draft' := hfields ▸ ⟨next, hy, hfill⟩
    exact ⟨_, .array (.full hs) hfill hc, by simp [he]⟩

theorem Form.readElements_of_enclosed (h : form.Regular) (ht : Enclosed .list ElementText t ts)
    (hfill : FillsInOrder form.fields form.blank ts draft) (hc : form.complete draft = .ok a) :
    ∃ s, t ++ r = openBracket :: s ∧ form.readElements form.blank 0 s form.fields = .ok (a, r) := by
  cases hfields : form.fields with
  | nil =>
    rw [hfields] at hfill
    cases ht with
    | @empty w hw =>
      obtain rfl : draft = form.blank := hfill
      exact ⟨w ++ closeBracket :: r, by simp, readElements_nil.2 ⟨hc, w, hw, rfl⟩⟩
    | full hs => cases hs <;> cases hfill
  | cons field fields =>
    have hf : ∀ f ∈ field :: fields, ∀ draft, Delimits (f.read draft) := hfields ▸ h
    rw [hfields] at hfill
    cases ht with
    | empty => cases hfill
    | @full s _ hs =>
      cases ts with
      | nil => cases hfill
      | cons y ts =>
        obtain ⟨next, hread, hfill⟩ := hfill
        obtain ⟨t, w, u, hfirst, hread, hw, hu⟩ := field_of_commas (hf field (.head _) form.blank) hs hread
        refine ⟨s ++ closeBracket :: r, by simp, readElements_cons.2 ⟨t, next, w ++ u, ?_, hread, ?_⟩⟩
        · simpa using hfirst
        · exact readElements_complete (fun f hm => hf f (.tail _ hm)) hw hu hfill hc

theorem Form.read_sound (h : form.Regular) (hs : form.read s = .ok (a, r)) :
    ∃ w t, Blank w ∧ form.Accepts t a ∧ s = w ++ (t ++ r) := by
  unfold read at hs
  split at hs
  · cases hs
  · next b u hskip =>
    obtain ⟨-, w, hw, rfl⟩ := skipSpace_eq_cons.1 hskip
    split at hs
    · next hb =>
      split at hs
      · cases hs
      · next turn hfirst =>
        obtain ⟨ms, draft, hl, hfill, hc⟩ := readMembers_sound h hs
        cases turn with
        | done u' =>
          obtain ⟨rfl, rfl⟩ := hl
          obtain ⟨w', hw', rfl⟩ := firstMember_done.1 hfirst
          exact ⟨w, _, hw, .object (.empty hw') hfill hc, by rw [hb]; simp⟩
        | item u' =>
          obtain ⟨w', hw', rfl⟩ := firstMember_item.1 hfirst
          obtain ⟨t, ht, he⟩ := hl w' hw'
          exact ⟨w, _, hw, .object (.full ht) hfill hc, by rw [hb, he]; simp⟩
    · split at hs
      · next hb =>
        obtain ⟨t, ht, he⟩ := accepts_of_elements h hs
        exact ⟨w, t, hw, ht, by rw [hb, he]⟩
      · cases hs

theorem Form.read_complete (h : form.Regular) (hw : Blank w) (ht : form.Accepts t a) (r : Bytes) :
    form.read (w ++ (t ++ r)) = .ok (a, r) := by
  cases ht with
  | object ht fills complete =>
    have hbrace {s : Bytes} {turn : Turn} (hfirst : firstMember s = .ok turn) :
        form.read (w ++ openBrace :: s) = form.readMembers form.blank turn := by
      have hskip : skipSpace (w ++ openBrace :: s) = openBrace :: s :=
        (skipSpace_eq_token (by decide)).2 ⟨w, hw, rfl⟩
      rw [read, hskip]
      simp only [if_true, hfirst]
    cases ht with
    | @empty w' hw' =>
      have hdone : form.readMembers form.blank (.done r) = .ok (a, r) := readMembers_done (fills ▸ complete)
      have hread := (hbrace (firstMember_done.2 ⟨w', hw', rfl⟩)).trans hdone
      simpa using hread
    | full hs =>
      obtain ⟨w', s, hw', rfl, hall⟩ := readMembers_complete (r := r) h hs fills complete
      have hread := (hbrace (firstMember_item.2 ⟨w', hw', rfl⟩)).trans hall
      simpa using hread
  | array ht fills complete =>
    obtain ⟨s, he, hall⟩ := readElements_of_enclosed h ht fills complete
    have hskip : skipSpace (w ++ openBracket :: s) = openBracket :: s :=
      (skipSpace_eq_token (by decide)).2 ⟨w, hw, rfl⟩
    have hbrace : ¬ openBracket = openBrace := by decide
    rw [he, read, hskip]
    simp only [hbrace, if_false, if_true, hall]

theorem Form.parse_iff_accepts (h : form.Regular) {b : Bytes} : form.parse b = .ok a ↔
    ∃ w t w', b = w ++ (t ++ w') ∧ Blank w ∧ form.Accepts t a ∧ Blank w' := by
  constructor
  · intro hb
    have hb := mapError_eq_ok hb
    split at hb
    · cases hb
    · next x r hread =>
      obtain ⟨⟨⟩, hend, rfl⟩ := map_eq_ok hb
      obtain ⟨w, t, hw, ht, rfl⟩ := read_sound h hread
      exact ⟨w, t, r, rfl, hw, ht, readEnd_eq_ok.1 (mapError_eq_ok hend)⟩
  · rintro ⟨w, t, w', rfl, hw, ht, hw'⟩
    simp only [parse, read_complete h hw ht, readEnd_eq_ok.2 hw']
    rfl

/-- A form accepts the texts of the objects and of the arrays that fill its blank draft, and nothing else. -/
theorem Form.parse_eq_ok (h : form.Regular) {b : Bytes} : form.parse b = .ok a ↔
    (∃ ms draft, ObjectText b ms ∧ form.Fills form.blank ms draft ∧ form.complete draft = .ok a) ∨
    ∃ ts draft, ArrayText b ts ∧ FillsInOrder form.fields form.blank ts draft ∧
      form.complete draft = .ok a := by
  rw [parse_iff_accepts h]
  constructor
  · rintro ⟨w, t, w', hb, hw, ht, hw'⟩
    cases ht with
    | object ht fills complete => exact .inl ⟨_, _, ⟨w, t, w', hb, hw, ht, hw'⟩, fills, complete⟩
    | array ht fills complete => exact .inr ⟨_, _, ⟨w, t, w', hb, hw, ht, hw'⟩, fills, complete⟩
  · rintro (⟨ms, draft, ⟨w, t, w', hb, hw, ht, hw'⟩, fills, complete⟩ |
      ⟨ts, draft, ⟨w, t, w', hb, hw, ht, hw'⟩, fills, complete⟩)
    · exact ⟨w, t, w', hb, hw, .object ht fills complete, hw'⟩
    · exact ⟨w, t, w', hb, hw, .array ht fills complete, hw'⟩

/-! ### Fields one by one -/

section
variable {β : Type} {isSet : σ → Bool} {set : σ → β → σ} {reader : Bytes → Reading β}
  {shortens : ∀ {b : β} {s r : Bytes}, reader s = .ok (b, r) → r.length < s.length}
  {convert : Value → Option β}

/-- A field whose reader converts values takes one value. -/
theorem Converts.makes (hc : Converts reader convert) {name : String} (draft : σ) :
    Delimits ((Field.make name isSet set reader shortens).read draft) :=
  hc.delimits.map (set draft)

/-- A member with the key of a field sets that field, which has had no value before. -/
theorem Form.exists_sets {get : σ → Option β}
    (hf : form.fields.find? (fun f => f.name = key) =
      some (.make key (fun d => (get d).isSome) set reader shortens))
    (hc : Converts reader convert) (ht : Passed t .value) {P : σ → Prop} :
    (∃ next, form.Sets draft (key, t) next ∧ P next) ↔
      get draft = none ∧ ∃ b, Stands convert t b ∧ P (set draft b) := by
  have hread : form.readMember draft key t = (reader t).map fun (b, r) => (set draft b, r) := by
    simp only [readMember, hf, Field.make]
  simp only [Sets, repeats, hf, hread, Field.make, ← hc.whole_iff ht, Option.isSome_eq_false_iff,
    Option.isNone_iff_eq_none]
  constructor
  · rintro ⟨next, ⟨hset, h⟩, hP⟩
    obtain ⟨⟨b, r⟩, hb, he⟩ := map_eq_ok h
    cases he
    exact ⟨hset, b, hb, hP⟩
  · rintro ⟨hset, b, hb, hP⟩
    exact ⟨set draft b, ⟨hset, by rw [hb]; rfl⟩, hP⟩

theorem Form.sets_other (hf : form.fields.find? (fun f => f.name = key) = none) (ht : Passed t .value) :
    form.Sets draft (key, t) draft' ↔ draft' = draft := by
  have hread : form.readMember draft key t = .ok (draft, []) := by
    simp only [readMember, hf, skipValue_whole ht]
    rfl
  simp only [Sets, repeats, hf, hread]
  grind

theorem fillsInOrder_nil : FillsInOrder [] draft ts draft' ↔ ts = [] ∧ draft' = draft := by
  cases ts <;> simp [FillsInOrder]

theorem fillsInOrder_cons (hc : Converts reader convert) (hts : ∀ t ∈ ts, Passed t .value) :
    FillsInOrder (.make key isSet set reader shortens :: fields) draft ts draft' ↔
      ∃ t ts' b, ts = t :: ts' ∧ Stands convert t b ∧ FillsInOrder fields (set draft b) ts' draft' := by
  constructor
  · intro h
    cases ts with
    | nil => cases h
    | cons t ts =>
      obtain ⟨next, hread, hfill⟩ := h
      obtain ⟨⟨b, r⟩, hb, he⟩ := map_eq_ok hread
      cases he
      exact ⟨t, ts, b, rfl, (hc.whole_iff (hts t List.mem_cons_self)).1 hb, hfill⟩
  · rintro ⟨t, ts, b, rfl, hb, hfill⟩
    refine ⟨set draft b, ?_, hfill⟩
    simp only [Field.make, hc.whole hb]
    rfl

/-- The texts of the values under a key. -/
def valuesOf (key : String) (ms : List (String × Bytes)) : List Bytes := (ms.filter (·.1 = key)).map (·.2)

/-- What members make of a field: it stays as it is when there is no value under its key, and one value sets
it when it has none. -/
inductive Slot (key : String) (convert : Value → Option β) (ms : List (String × Bytes)) :
    Option β → Option β → Prop where
  | kept {o : Option β} (h : valuesOf key ms = []) : Slot key convert ms o o
  | set {t : Bytes} {b : β} (h : valuesOf key ms = [t]) (ht : Stands convert t b) :
      Slot key convert ms none (some b)

variable {ms : List (String × Bytes)} {o o' : Option β}

theorem slot_nil : Slot key convert [] o o' ↔ o' = o := by
  constructor
  · rintro (_ | h)
    · rfl
    · cases h
  · rintro rfl
    exact .kept rfl

theorem slot_same : Slot key convert ((key, t) :: ms) o o' ↔
    o = none ∧ ∃ b, Stands convert t b ∧ Slot key convert ms (some b) o' := by
  have hvalues : valuesOf key ((key, t) :: ms) = t :: valuesOf key ms := by simp [valuesOf]
  constructor
  · rintro (h | ⟨h, ht⟩)
    · rw [hvalues] at h; cases h
    · rw [hvalues, List.cons.injEq] at h
      obtain ⟨rfl, h⟩ := h
      exact ⟨rfl, _, ht, .kept h⟩
  · rintro ⟨rfl, b, ht, h⟩
    cases h with
    | kept h => exact .set (by rw [hvalues, h]) ht

theorem slot_other {k : String} (hk : k ≠ key) :
    Slot key convert ((k, t) :: ms) o o' ↔ Slot key convert ms o o' := by
  have hvalues : valuesOf key ((k, t) :: ms) = valuesOf key ms := by simp [valuesOf, hk]
  constructor
  · rintro (h | ⟨h, ht⟩)
    · exact .kept (hvalues ▸ h)
    · exact .set (hvalues ▸ h) ht
  · rintro (h | ⟨h, ht⟩)
    · exact .kept (hvalues.trans h)
    · exact .set (hvalues.trans h) ht

end

end

end ShapeLedger.Json
