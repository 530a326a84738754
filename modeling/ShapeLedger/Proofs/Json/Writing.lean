/-
The members that an object is written with. Bytes are read as an object in one way only (`ObjectText.unique`):
what comes next is told by the first byte that is no blank, and a reader that takes a key or a value takes the
whole of it. So it makes sense to speak of the members of a body, in their order and with repetitions, and an
object that denotes something is written with members of which each denotes something (`recordText_iff`).
-/
import ShapeLedger.Proofs.Json.Record

namespace ShapeLedger.Json

open Ascii Grammar

/-! ## Members and what they denote -/

/-- The text of a value, and the value that it denotes, under the same key. -/
def SameMember (x : String × Bytes) (m : String × Value) : Prop := x.1 = m.1 ∧ Denotes x.2 (.value m.2)

section
variable {s t : Bytes} {ms : Members}

theorem denotes_member {key : String} {v : Value} :
    Denotes s (.member key v) ↔ ∃ x, MemberText s x ∧ SameMember x (key, v) := by
  constructor
  · intro h
    cases h with
    | member hw hk hw' hs =>
      cases hs with
      | element hx ht hx' => exact ⟨_, .mk hw hk hw' (.mk hx (passed_of_denotes ht) hx'), rfl, ht⟩
  · rintro ⟨x, hs, hkey, hvalue⟩
    cases hs with
    | mk hw hk hw' hs =>
      cases hs with
      | mk hx _ hx' =>
        cases hkey
        exact .member hw hk hw' (.element hx hvalue hx')

theorem denotes_members :
    Denotes s (.members ms) ↔ ∃ xs, Commas MemberText s xs ∧ List.Forall₂ SameMember xs ms := by
  constructor
  · intro h
    induction ms generalizing s with
    | nil => cases h
    | cons m ms ih =>
      cases h with
      | lastMember hs =>
        obtain ⟨x, hs, hx⟩ := denotes_member.1 hs
        exact ⟨[x], .last hs, .cons hx .nil⟩
      | nextMember hs ht =>
        obtain ⟨x, hs, hx⟩ := denotes_member.1 hs
        obtain ⟨xs, ht, hxs⟩ := ih ht
        exact ⟨x :: xs, .more hs ht, .cons hx hxs⟩
  · rintro ⟨xs, hs, h⟩
    induction hs generalizing ms with
    | last hs =>
      cases h with
      | cons hx hnil => cases hnil; exact .lastMember (denotes_member.2 ⟨_, hs, hx⟩)
    | more hs _ ih =>
      cases h with
      | cons hx hxs => exact .nextMember (denotes_member.2 ⟨_, hs, hx⟩) (ih hxs)

theorem denotes_record :
    Denotes s (.record ms) ↔ ∃ xs, Enclosed .record MemberText s xs ∧ List.Forall₂ SameMember xs ms := by
  constructor
  · intro h
    cases h with
    | emptyRecord hw => exact ⟨[], .empty hw, .nil⟩
    | record hs =>
      obtain ⟨xs, hs, hxs⟩ := denotes_members.1 hs
      exact ⟨xs, .full hs, hxs⟩
  · rintro ⟨xs, hs, h⟩
    cases hs with
    | empty hw => cases h; exact .emptyRecord hw
    | full hs => exact .record (denotes_members.2 ⟨xs, hs, h⟩)

/-- An object that denotes its members is written with them. -/
theorem recordText_iff : RecordText s ms ↔ ∃ xs, ObjectText s xs ∧ List.Forall₂ SameMember xs ms := by
  constructor
  · rintro ⟨w, t, w', hs, hw, ht, hw'⟩
    obtain ⟨xs, ht, hxs⟩ := denotes_record.1 ht
    exact ⟨xs, ⟨w, t, w', hs, hw, ht, hw'⟩, hxs⟩
  · rintro ⟨xs, ⟨w, t, w', hs, hw, ht, hw'⟩, hxs⟩
    exact ⟨w, t, w', hs, hw, denotes_record.2 ⟨xs, ht, hxs⟩, hw'⟩

end

/-! ## One way to read -/

section
variable {s t u u' r r' w w' : Bytes} {m m' : String × Bytes} {ms ms' : List (String × Bytes)}

/-- A text denotes one value at most. -/
theorem denotes_unique {v v' : Value} (h : Denotes t (.value v)) (h' : Denotes t (.value v')) : v = v' := by
  have text {x : Value} (hx : Denotes t (.value x)) : Text t x := by
    have helement := Denotes.element blank_nil hx blank_nil
    rwa [List.append_nil, List.nil_append] at helement
  exact Except.ok.inj ((readDocument_eq_ok.2 (text h)).symm.trans (readDocument_eq_ok.2 (text h')))

/-- Behind blanks a value is found where it starts. -/
theorem skipSpace_passed (hw : Blank w) (ht : Passed t .value) (r : Bytes) :
    skipSpace (w ++ (t ++ r)) = t ++ r := by
  rw [skipSpace_append hw, (passes_of_passed ht).1.skip]

/-- From behind the quote of its key on a member is read in one way. -/
theorem Keyed.unique (h : Keyed s m u) (hu : Stops u) (h' : Keyed s m' u') (hu' : Stops u') :
    m = m' ∧ u = u' := by
  obtain ⟨k, w, x, hs, hk, hw, hx, ht⟩ := h
  obtain ⟨k', w', x', hs', hk', hw', hx', ht'⟩ := h'
  have hkey := (readString_eq_ok.2 ⟨k, hs, hk⟩).symm.trans (readString_eq_ok.2 ⟨k', hs', hk'⟩)
  obtain ⟨hsame, hbehind⟩ := Prod.mk.inj (Except.ok.inj hkey)
  have hcolon : readColon (w ++ colon :: (x ++ (m.2 ++ u))) = .ok (x' ++ (m'.2 ++ u')) :=
    readColon_eq_ok.2 ⟨w', hw', hbehind⟩
  have hvalue : x ++ (m.2 ++ u) = x' ++ (m'.2 ++ u') :=
    Except.ok.inj ((readColon_eq_ok.2 ⟨w, hw, rfl⟩).symm.trans hcolon)
  have hrest := skipValue_complete hx ht hu
  rw [hvalue, skipValue_complete hx' ht' hu'] at hrest
  obtain rfl := Except.ok.inj hrest
  have hstart := skipSpace_passed hx ht u'
  rw [hvalue, skipSpace_passed hx' ht'] at hstart
  exact ⟨Prod.ext hsame (List.append_cancel_right hstart).symm, rfl⟩

/-- What comes behind an item is no blank. -/
theorem Grammar.Onward.skip {α : Type} {bracket : Bracket} {item : Bytes → α → Prop} {as : List α}
    (h : Onward bracket item r u as) (hw : Blank w) : skipSpace (w ++ u) = u := by
  cases h with
  | close => exact (skipSpace_eq_token (isSpace_close bracket)).2 ⟨w, hw, rfl⟩
  | more => exact (skipSpace_eq_token (by decide)).2 ⟨w, hw, rfl⟩

/-- Members up to the brace that closes their object are read in one way. -/
theorem members_unique (h : Commas MemberText s ms) (h' : Commas MemberText t ms')
    (he : s ++ closeBrace :: r = t ++ closeBrace :: r') : ms = ms' := by
  induction ms generalizing s t r r' ms' with
  | nil => cases h
  | cons m ms ih =>
    cases ms' with
    | nil => cases h'
    | cons m' ms' =>
      obtain ⟨x, u, hx, hu, hs⟩ := (commas_cons .record r).1 ⟨s, h, rfl⟩
      obtain ⟨x', u', hx', hu', hs'⟩ := (commas_cons .record r').1 ⟨t, h', rfl⟩
      obtain ⟨w, y, v, hw, hv, rfl, hkeyed⟩ := memberText_keyed hx
      obtain ⟨w', y', v', hw', hv', rfl, hkeyed'⟩ := memberText_keyed hx'
      -- both begin with the same quote
      have hfirst : y ++ u = y' ++ u' := by
        have hitem : firstMember (s ++ closeBrace :: r) = .ok (.item (y ++ u)) :=
          firstMember_item.2 ⟨w, hw, by simpa using hs⟩
        have hitem' : firstMember (s ++ closeBrace :: r) = .ok (.item (y' ++ u')) :=
          firstMember_item.2 ⟨w', hw', by simpa [he] using hs'⟩
        exact Turn.item.inj (Except.ok.inj (hitem.symm.trans hitem'))
      obtain ⟨rfl, hbehind⟩ := (hfirst ▸ hkeyed u).unique (hu.stops.append hv) (hkeyed' u') (hu'.stops.append hv')
      obtain rfl : u = u' := by rw [← hu.skip hv, hbehind, hu'.skip hv']
      rw [List.cons.injEq, and_iff_right rfl]
      generalize hc : u = c at hu'
      cases hu with
      | close => 
        cases hu' with
        | close => rfl
        | more => cases (List.cons.inj hc).1
      | more hrest =>
        cases hu' with
        | close => cases (List.cons.inj hc).1
        | more hrest' => exact ih hrest hrest' (List.cons.inj hc).2

/-- Behind the opening brace come members, or the closing brace. -/
theorem Grammar.Enclosed.firstMember (h : Enclosed .record MemberText t ms) (r : Bytes) :
    ∃ s, t ++ r = openBrace :: s ∧
      ((ms = [] ∧ ∃ r', firstMember s = .ok (.done r')) ∨
        ∃ x r', Commas MemberText x ms ∧ s = x ++ closeBrace :: r ∧ firstMember s = .ok (.item r')) := by
  cases h with
  | @empty w hw => exact ⟨w ++ closeBrace :: r, by simp, .inl ⟨rfl, r, firstMember_done.2 ⟨w, hw, rfl⟩⟩⟩
  | @full x _ hs =>
    refine ⟨x ++ closeBrace :: r, by simp, .inr ⟨x, ?_⟩⟩
    cases ms with
    | nil => cases hs
    | cons m ms =>
      obtain ⟨y, u, hy, -, he⟩ := (commas_cons .record r).1 ⟨x, hs, rfl⟩
      obtain ⟨w, z, -, hw, -, rfl, -⟩ := memberText_keyed hy
      exact ⟨z ++ u, hs, rfl, firstMember_item.2 ⟨w, hw, by simpa using he⟩⟩

/-- Bytes are an object with one list of members at most. -/
theorem Grammar.ObjectText.unique (h : ObjectText s ms) (h' : ObjectText s ms') : ms = ms' := by
  obtain ⟨w, t, r, rfl, hw, ht, -⟩ := h
  obtain ⟨w', t', r', he, hw', ht', -⟩ := h'
  obtain ⟨s, hs, hms⟩ := ht.firstMember r
  obtain ⟨s', hs', hms'⟩ := ht'.firstMember r'
  -- the braces that open the object are one
  have hbrace : skipSpace (w ++ openBrace :: s) = openBrace :: s := (skipSpace_eq_token (by decide)).2 ⟨w, hw, rfl⟩
  rw [hs, hs'] at he
  rw [he, (skipSpace_eq_token (by decide)).2 ⟨w', hw', rfl⟩] at hbrace
  obtain rfl := (List.cons.inj hbrace).2
  rcases hms with ⟨rfl, x, hx⟩ | ⟨x, y, hx, rfl, hy⟩ <;> rcases hms' with ⟨rfl, x', hx'⟩ | ⟨x', y', hx', hs', hy'⟩
  · rfl
  · rw [hx] at hy'; cases hy'
  · rw [hx'] at hy; cases hy
  · exact members_unique hx hx' hs'

theorem Grammar.RecordText.unique {xs xs' : Members} (h : RecordText s xs) (h' : RecordText s xs') : xs = xs' := by
  obtain ⟨ms, hms, hsame⟩ := recordText_iff.1 h
  obtain ⟨ms', hms', hsame'⟩ := recordText_iff.1 h'
  obtain rfl := hms.unique hms'
  refine List.right_unique_forall₂' ?_ hsame hsame'
  rintro x m m' ⟨hkey, hvalue⟩ ⟨hkey', hvalue'⟩
  exact Prod.ext (hkey.symm.trans hkey') (denotes_unique hvalue hvalue')

end

end ShapeLedger.Json
