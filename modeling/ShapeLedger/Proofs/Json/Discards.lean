/-
What the reader gives up on its way. Whether all of it can be freed is decided by the states that the reader
comes to (`freesFrom_iff`): in none of them may a value be given up that has too many levels for the stack. In a
text that opens no bracket inside `n` others no value has more levels than are left of these `n`, so such a text
asks for no more than that; and a value before characters that should not be there is given up with all its
levels, however many they are.
-/
import ShapeLedger.Json.Discard
import ShapeLedger.Proofs.Json.Brackets
import ShapeLedger.Proofs.Json.Members

namespace ShapeLedger.Json

open Ascii Grammar

/-! ## Definitions -/

/-- There are parts `n` levels below the value. -/
inductive Value.HasLevels : Value → Nat → Prop where
  | none (v : Value) : v.HasLevels 0
  | more {c v : Value} {n : Nat} (child : c ∈ v.children) (h : c.HasLevels n) : v.HasLevels (n + 1)

/-- The reader gives up a value in a text, while `n` brackets are open. -/
def GivesUp (input : Bytes) (n : Nat) (v : Value) : Prop := ∃ st, Comes input st ∧ (n, v) ∈ st.discards

/-- With the brackets that are open around it, a value has no more than `n` levels. -/
def FitsIn (n : Nat) (x : Nat × Value) : Prop := ∀ m, x.2.HasLevels m → x.1 + m ≤ n

/-- Neither what the reader holds nor what stands in its open brackets has more than `n` levels. -/
def State.FitsIn (n : Nat) : State → Prop
  | .wanting stack _ => stack.length ≤ n ∧ ∀ x ∈ openValues stack, Json.FitsIn n x
  | .holding stack v _ => Json.FitsIn n (stack.length, v) ∧ ∀ x ∈ openValues stack, Json.FitsIn n x

/-- `n + 1` arrays inside one another. -/
def nest : Nat → Value
  | 0 => .array []
  | n + 1 => .array [nest n]

/-! ## Levels -/

section
variable {v : Value} {n m : Nat} {level : List Value}

theorem Value.hasLevels_succ : v.HasLevels (n + 1) ↔ ∃ c ∈ v.children, c.HasLevels n :=
  ⟨fun | .more child h => ⟨_, child, h⟩, fun ⟨_, child, h⟩ => .more child h⟩

/-- A value with some levels has fewer of them too. -/
theorem Value.HasLevels.mono (h : v.HasLevels n) (hm : m ≤ n) : v.HasLevels m := by
  induction h generalizing m with
  | none v =>
    obtain rfl := Nat.le_zero.1 hm
    exact .none v
  | more child _ ih =>
    cases m with
    | zero => exact .none _
    | succ m => exact .more child (ih (Nat.le_of_succ_le_succ hm))

theorem within_iff : within n level = true ↔ ∀ v ∈ level, ¬ v.HasLevels (n + 1) := by
  induction n generalizing level with
  | zero =>
    simp only [within, List.all_eq_true, List.isEmpty_iff, Value.hasLevels_succ, List.eq_nil_iff_forall_not_mem]
    constructor
    · rintro h v hv ⟨c, hc, -⟩
      exact h v hv c hc
    · intro h v hv c hc
      exact h v hv ⟨c, hc, .none c⟩
  | succ n ih =>
    simp only [within, Bool.or_eq_true, List.isEmpty_iff, ih, List.mem_flatMap]
    constructor
    · rintro (rfl | h) v hv hlevels
      · cases hv
      · obtain ⟨c, hc, hlevels⟩ := Value.hasLevels_succ.1 hlevels
        exact h c ⟨v, hv, hc⟩ hlevels
    · refine fun h => .inr ?_
      rintro c ⟨v, hv, hc⟩ hlevels
      exact h v hv (.more hc hlevels)

end

/-! ## What is given up -/

section
variable {room : Nat → Nat} {st next : State}

theorem next?_eq_some : st.next? = some next ↔ Next st next := by
  have hok (x : Except Fault State) : x.toOption = some next ↔ x = .ok next := by
    cases x <;> simp [Except.toOption]
  constructor
  · intro h
    match st with
    | .wanting stack s => exact .opening ((hok _).1 h)
    | .holding (frame :: stack) v s => exact .closing ((hok _).1 h)
  · rintro (h | h)
    · exact (hok _).2 h
    · exact (hok _).2 h

/-- All that is given up can be freed just where nothing of it has too many levels. -/
theorem freesFrom_iff : freesFrom room st = true ↔ ∀ other, Relation.ReflTransGen Next st other →
    ∀ n v, (n, v) ∈ other.discards → ¬ v.HasLevels (room n + 1) := by
  have hhere (st : State) : (st.discards.all fun x => within (room x.1) [x.2]) = true ↔
      ∀ n v, (n, v) ∈ st.discards → ¬ v.HasLevels (room n + 1) := by
    simp [List.all_eq_true, within_iff]
  fun_induction freesFrom room st with
  | case1 st ih =>
    rw [Bool.and_eq_true, hhere]
    split
    · next hstop =>
      refine ⟨fun h other hpath => ?_, fun h => ⟨h st .refl, rfl⟩⟩
      rcases hpath.cases_head with rfl | ⟨next, hnext, -⟩
      · exact h.1
      · rw [next?_eq_some.2 hnext] at hstop
        cases hstop
    · next next hgo =>
      have hnext := next?_eq_some.1 hgo
      -- a path from here ends here, or goes on from the only next state
      have hlater := ih next hgo
      refine ⟨fun h other hpath => ?_, fun h => ⟨h st .refl, hlater.2 fun other hpath => ?_⟩⟩
      · rcases hpath.cases_head with rfl | ⟨other, hother, hpath⟩
        · exact h.1
        · obtain rfl := hother.unique hnext
          exact hlater.1 h.2 _ hpath
      · exact h other (.head hnext hpath)

theorem frees_iff {input : Bytes} :
    frees room input = true ↔ ∀ n v, GivesUp input n v → ¬ v.HasLevels (room n + 1) := by
  rw [frees, freesFrom_iff]
  exact ⟨fun h n v ⟨st, hcomes, hv⟩ => h st hcomes n v hv, fun h st hcomes n v hv => h n v ⟨st, hcomes, hv⟩⟩

/-- What has been read is held when all brackets are closed. -/
theorem holds_of_run {v : Value} {r : Bytes} (h : run none st = .ok (v, r)) :
    Relation.ReflTransGen Next st (.holding [] v r) := by
  fun_induction run none st with
  | case1 => cases h
  | case2 stack s next hopen ih => exact .head (.opening hopen) (ih h)
  | case3 v s => cases h; exact .refl
  | case4 => cases h
  | case5 stack frame v s next hclose ih => exact .head (.closing hclose) (ih h)

/-- A value is given up as a whole where something follows it that should not be there. -/
theorem givesUp_leftover {input r : Bytes} {v : Value} {f : Fault} (h : run none (.wanting [] input) = .ok (v, r))
    (hr : readEnd r = .error f) : GivesUp input 0 v :=
  ⟨_, holds_of_run h, by simp [State.discards, hr]⟩

end

/-! ## Texts that are not deep -/

section
variable {n k : Nat} {frame : Frame} {stack : List Frame} {s : Bytes} {v : Value} {st next : State}

/-- A value without parts has no levels. -/
theorem fitsIn_of_plain (hv : v.children = []) (h : k ≤ n) : FitsIn n (k, v) := by
  intro m hm
  cases hm with
  | none => exact h
  | more child => simp [hv] at child

/-- A value with parts has one level more than these. -/
theorem fitsIn_of_children (hk : k ≤ n) (h : ∀ c ∈ v.children, FitsIn n (k + 1, c)) : FitsIn n (k, v) := by
  intro m hm
  cases hm with
  | none => exact hk
  | more child hm =>
    have hc := h _ child _ hm
    omega

theorem FitsIn.opened_le (h : FitsIn n (k, v)) : k ≤ n := h 0 (.none v)

theorem readScalar_plain {r : Bytes} (h : readScalar s = .ok (v, r)) : v.children = [] := by
  unfold readScalar at h
  split at h
  · cases h
  · split at h
    · obtain ⟨_, -, he⟩ := map_eq_ok h; cases he; rfl
    · split at h
      · obtain ⟨_, -, he⟩ := map_eq_ok h; cases he; rfl
      · split at h
        · obtain ⟨_, -, he⟩ := map_eq_ok h; cases he; rfl
        · split at h
          · obtain ⟨_, -, he⟩ := map_eq_ok h; cases he; rfl
          · split at h
            · obtain ⟨_, -, he⟩ := map_eq_ok h; cases he; rfl
            · cases h

/-- What is put under a key is the new value or one that was there. -/
theorem mem_put {key : String} {members : Members} {x : Value} (h : x ∈ (members.put key v).map (·.2)) :
    x = v ∨ x ∈ members.map (·.2) := by
  induction members with
  | nil => exact .inl (List.mem_singleton.1 h)
  | cons m rest ih =>
    unfold Members.put at h
    split at h
    · exact (List.mem_cons.1 h).imp_right (List.mem_cons_of_mem _)
    · rcases List.mem_cons.1 h with rfl | h
      · exact .inr List.mem_cons_self
      · exact (ih h).imp_right (List.mem_cons_of_mem _)

theorem mem_valuesWith {x : Value} (h : x ∈ frame.valuesWith v) : x = v ∨ x ∈ frame.values := by
  cases frame with
  | array done => exact List.mem_cons.1 h
  | object members key => exact mem_put h

theorem mem_openValues {x : Nat × Value} :
    x ∈ openValues (frame :: stack) ↔ x.1 = stack.length + 1 ∧ x.2 ∈ frame.values ∨ x ∈ openValues stack := by
  rw [openValues, List.mem_append, List.mem_map]
  refine or_congr_left ⟨?_, fun h => ⟨x.2, h.2, Prod.ext h.1.symm rfl⟩⟩
  rintro ⟨v, hv, rfl⟩
  exact ⟨rfl, hv⟩

/-- All values in the innermost bracket fit, the new one among them. -/
theorem fitsIn_valuesWith (h : (State.holding (frame :: stack) v s).FitsIn n) {x : Value}
    (hx : x ∈ frame.valuesWith v) : FitsIn n (stack.length + 1, x) := by
  rcases mem_valuesWith hx with rfl | hx
  · exact h.1
  · exact h.2 _ (mem_openValues.2 (.inl ⟨rfl, hx⟩))

/-- A bracket is opened only where there is room for its values. -/
theorem fitsIn_opening (h : (State.wanting stack s).FitsIn n) (hfits : Fits n stack s)
    (hread : readOpening none stack s = .ok next) : next.FitsIn n := by
  obtain ⟨hlength, hvalues⟩ := h
  -- where a bracket comes next and all room is taken, the text would open one too many
  have hinside {r : Bytes} (ho : Opens s r) : stack.length + 1 ≤ n := by
    by_contra hfull
    exact hfits (by omega) r ho
  unfold readOpening at hread
  split at hread
  · cases hread
  · next b r hs =>
    split at hread
    · next hb =>
      have hroom := hinside (.inl (hb ▸ hs))
      replace hread : openArray stack r = .ok next := hread
      unfold openArray at hread
      split at hread
      · cases hread
      · cases hread
        exact ⟨fitsIn_of_plain rfl hlength, hvalues⟩
      · cases hread
        exact ⟨hroom, hvalues⟩
    · split at hread
      · next hb =>
        have hroom := hinside (.inr (hb ▸ hs))
        replace hread : openObject stack r = .ok next := hread
        unfold openObject at hread
        split at hread
        · cases hread
        · cases hread
          exact ⟨fitsIn_of_plain rfl hlength, hvalues⟩
        · obtain ⟨⟨key, t⟩, -, he⟩ := map_eq_ok hread
          cases he
          exact ⟨hroom, hvalues⟩
      · obtain ⟨⟨v, t⟩, hv, he⟩ := map_eq_ok hread
        cases he
        exact ⟨fitsIn_of_plain (readScalar_plain hv) hlength, hvalues⟩

/-- A value that is put into a bracket, or makes up the last of it, brings no level more. -/
theorem fitsIn_closing (h : (State.holding (frame :: stack) v s).FitsIn n)
    (hread : readClosing frame stack v s = .ok next) : next.FitsIn n := by
  have hwith {x : Value} (hx : x ∈ frame.valuesWith v) : FitsIn n (stack.length + 1, x) := fitsIn_valuesWith h hx
  have hstack (x : Nat × Value) (hx : x ∈ openValues stack) : FitsIn n x := h.2 x (mem_openValues.2 (.inr hx))
  have hroom : stack.length + 1 ≤ n := h.1.opened_le
  -- the bracket with the new value in it, closed or still open
  have hclosed {w : Value} (hw : ∀ c ∈ w.children, c ∈ frame.valuesWith v) (r : Bytes) :
      (State.holding stack w r).FitsIn n := ⟨fitsIn_of_children (by omega) fun c hc => hwith (hw c hc), hstack⟩
  have hopen {f : Frame} (hf : ∀ c ∈ f.values, c ∈ frame.valuesWith v) (r : Bytes) :
      (State.wanting (f :: stack) r).FitsIn n := by
    refine ⟨hroom, fun x hx => ?_⟩
    rcases mem_openValues.1 hx with ⟨hk, hx⟩ | hx
    · obtain ⟨k, x⟩ := x
      obtain rfl : k = stack.length + 1 := hk
      exact hwith (hf x hx)
    · exact hstack x hx
  unfold readClosing at hread
  split at hread
  · split at hread <;> cases hread
    · refine hclosed (fun c hc => ?_) _
      exact List.mem_reverse.1 hc
    · refine hopen (fun c hc => ?_) _
      exact hc
  · split at hread
    · cases hread
    · cases hread
      refine hclosed (fun c hc => ?_) _
      exact hc
    · obtain ⟨⟨key, t⟩, -, he⟩ := map_eq_ok hread
      cases he
      refine hopen (fun c hc => ?_) _
      exact hc

/-- In a text that opens no bracket inside `n` others, nothing ever has more levels than these. -/
theorem comes_fitsIn {input : Bytes} (h : ¬ OpensBeyond n input) (hcomes : Comes input st) : st.FitsIn n := by
  induction hcomes with
  | refl => exact ⟨Nat.zero_le n, fun x hx => by cases hx⟩
  | @tail st next hcomes hnext ih =>
    cases hnext with
    | opening hread =>
      exact fitsIn_opening ih (fun hfull _ ho => h (goesDeep_of_path hcomes hfull ho)) hread
    | closing hread => exact fitsIn_closing ih hread

theorem fitsIn_of_discards (h : st.FitsIn n) {x : Nat × Value} (hx : x ∈ st.discards) : FitsIn n x := by
  match st with
  | .wanting stack s =>
    simp only [State.discards] at hx
    split at hx
    · exact h.2 x hx
    · cases hx
  | .holding [] v s =>
    simp only [State.discards] at hx
    split at hx
    · rw [List.mem_singleton.1 hx]
      exact h.1
    · cases hx
  | .holding (frame :: stack) v s =>
    -- what is given up stood in this bracket, in one around it, or under the key that is given anew
    have hframe {w : Value} (hw : w ∈ frame.valuesWith v) : FitsIn n (stack.length + 1, w) := fitsIn_valuesWith h hw
    have hreplaced {w : Value} (hw : frame.replaced? = some w) : w ∈ frame.values := by
      cases frame with
      | array done => cases hw
      | object members key =>
        obtain ⟨m, hm, rfl⟩ := Option.map_eq_some_iff.1 hw
        exact List.mem_map.2 ⟨m, List.mem_of_find?_eq_some hm, rfl⟩
    simp only [State.discards] at hx
    rcases List.mem_append.1 hx with hx | hx
    · obtain ⟨w, hw, rfl⟩ := List.mem_map.1 hx
      exact h.2 _ (mem_openValues.2 (.inl ⟨rfl, hreplaced (Option.mem_toList.1 hw)⟩))
    · split at hx
      · rcases List.mem_append.1 hx with hx | hx
        · obtain ⟨w, hw, rfl⟩ := List.mem_map.1 hx
          exact hframe hw
        · exact h.2 x (mem_openValues.2 (.inr hx))
      · cases hx

/-- A text that opens no bracket inside `n` others can be read wherever `n` levels fit on the stack, those of
the brackets that are open included. -/
theorem frees_of_shallow {room : Nat → Nat} {input : Bytes} (h : ¬ OpensBeyond n input)
    (hroom : ∀ k, n ≤ k + room k) : frees room input = true := by
  rw [frees_iff]
  rintro k v ⟨st, hcomes, hv⟩ hlevels
  -- a value with too many levels would have more than n, those around it included
  have hle := fitsIn_of_discards (comes_fitsIn h hcomes) hv _ hlevels
  have hn := hroom k
  simp only at hle
  omega

end

/-! ## Texts that are deep -/

theorem nest_hasLevels (n : Nat) : (nest n).HasLevels n := by
  induction n with
  | zero => exact .none _
  | succ n ih => exact .more (List.mem_singleton.2 rfl) ih

/-- Brackets inside one another, without anything between them. -/
theorem denotes_nest (n : Nat) :
    Denotes (List.replicate (n + 1) openBracket ++ List.replicate (n + 1) closeBracket) (.value (nest n)) := by
  induction n with
  | zero => exact .emptyArray blank_nil
  | succ n ih =>
    have hnext := Denotes.array (.lastElement (.element blank_nil ih blank_nil))
    rw [List.nil_append, List.append_nil, List.append_assoc, ← List.replicate_succ', ← List.cons_append,
      ← List.replicate_succ] at hnext
    exact hnext

theorem run_nest (n : Nat) {rest : Bytes} (h : Stops rest) :
    run none (.wanting [] (List.replicate (n + 1) openBracket ++ List.replicate (n + 1) closeBracket ++ rest)) =
      .ok (nest n, rest) := by
  obtain ⟨-, hreaches⟩ := reads_of_denotes (denotes_nest n)
  rw [hreaches [] rest h, run_closed]

end ShapeLedger.Json
