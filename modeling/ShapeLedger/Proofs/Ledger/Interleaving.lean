/-
Calls made at the same time. Each takes two turns under the lock, an insertion and a reading back,
and the turns of different calls may fall in any order. Whatever the order, the tables end up as if
the calls had been made one after the other, in the order of their insertions; and a call whose
insertion succeeds answers its own row.

The proof looks at one call: up to its first turn the others may only have added rows, at that turn
its row gets the next id, and until its second turn the row stays where it is.
-/
import ShapeLedger.Proofs.Ledger.History
import Mathlib.Data.Fin.Basic
import Mathlib.Logic.Function.Basic

namespace ShapeLedger.Ledger

/-! ## Turns -/

/-- How far a call has come. -/
inductive Progress where
  | waiting
  | inserted (id : Int)
  | answered (answer : Except Error Row)
deriving DecidableEq

/-- A session, and how far each of the calls on it has come. -/
structure Crowd (n : Nat) where
  session : Session
  progress : Fin n → Progress

namespace Crowd

variable {n : Nat} (calls : Fin n → Call)

/-- The next turn of a call; one that has answered has no turns left. -/
def turn (w : Crowd n) (i : Fin n) : Crowd n :=
  match w.progress i with
  | .waiting =>
    match (calls i).insert w.session with
    | (.error e, s) => ⟨s, Function.update w.progress i (.answered (.error e))⟩
    | (.ok id, s) => ⟨s, Function.update w.progress i (.inserted id)⟩
  | .inserted id =>
    { w with progress := Function.update w.progress i (.answered ((calls i).readBack w.session id)) }
  | .answered _ => w

/-- The turns of a schedule, from where no call has begun. -/
def run (s : Session) (schedule : List (Fin n)) : Crowd n :=
  schedule.foldl (turn calls) ⟨s, fun _ => .waiting⟩

/-- A schedule that gives every call its two turns. -/
def IsInterleaving (schedule : List (Fin n)) : Prop := ∀ i, schedule.count i = 2

instance (schedule : List (Fin n)) : Decidable (IsInterleaving schedule) :=
  inferInstanceAs (Decidable (∀ i, schedule.count i = 2))

/-- The session as a call finds it at its first turn. -/
def found (s : Session) (schedule : List (Fin n)) (i : Fin n) : Session :=
  (run calls s (schedule.takeWhile (· ≠ i))).session

/-- The session after the calls one by one, each without a break. -/
def serial (s : Session) (order : List (Fin n)) : Session :=
  order.foldl (fun s i => ((calls i).create s).2) s

/-- The calls in the order of their first turns. -/
def insertionOrder (schedule : List (Fin n)) : List (Fin n) := schedule.eraseDups

end Crowd

/-- The username that a call asks for. -/
def Call.username? : Call → Option String
  | user u _ => some u.username
  | expense _ _ => none

namespace Crowd

variable {n : Nat} {calls : Fin n → Call}

/-! ## What one turn does -/

theorem run_append (s : Session) (xs ys : List (Fin n)) :
    run calls s (xs ++ ys) = ys.foldl (turn calls) (run calls s xs) := List.foldl_append

/-- A turn of one call says nothing about the others. -/
theorem turn_other (w : Crowd n) {i j : Fin n} (h : j ≠ i) :
    (turn calls w i).progress j = w.progress j := by
  unfold turn
  split
  · split <;> simp [h]
  · simp [h]
  · rfl

theorem foldl_other {l : List (Fin n)} {j : Fin n} (h : j ∉ l) (w : Crowd n) :
    (l.foldl (turn calls) w).progress j = w.progress j := by
  induction l generalizing w with
  | nil => rfl
  | cons i l ih =>
    rw [List.mem_cons, not_or] at h
    rw [List.foldl_cons, ih h.2, turn_other w h.1]

/-- An answer is final. -/
theorem foldl_answered {w : Crowd n} {i : Fin n} {a : Except Error Row} (h : w.progress i = .answered a)
    (l : List (Fin n)) : (l.foldl (turn calls) w).progress i = .answered a := by
  induction l generalizing w with
  | nil => exact h
  | cons j l ih =>
    rw [List.foldl_cons]
    apply ih
    by_cases hij : i = j
    · subst hij; simp only [turn, h]
    · rw [turn_other w hij, h]

/-- A call at its first turn inserts, and then waits for its second one unless it has failed. -/
theorem turn_waiting (calls : Fin n → Call) {w : Crowd n} {i : Fin n} (h : w.progress i = .waiting) :
    (turn calls w i).session = ((calls i).insert w.session).2 ∧
      (turn calls w i).progress i =
        match ((calls i).insert w.session).1 with
        | .error e => .answered (.error e)
        | .ok id => .inserted id := by
  unfold turn
  rw [h]
  rcases (calls i).insert w.session with ⟨e | id, s⟩ <;> simp

/-- A call that is past its first turn leaves the session alone. -/
theorem turn_started (calls : Fin n → Call) {w : Crowd n} {i : Fin n} (h : w.progress i ≠ .waiting) :
    (turn calls w i).session = w.session := by
  unfold turn
  split
  · next hw => exact absurd hw h
  · rfl
  · rfl

/-- What calls may do to the tables: rows are added, and a new user has the name of one of them. -/
structure Grows (names : List (Option String)) (a b : Tables) : Prop where
  kept : a.Extends b
  users : ∀ r ∈ b.users.rows, r ∈ a.users.rows ∨ some r.username ∈ names

theorem Grows.refl (names : List (Option String)) (t : Tables) : Grows names t t :=
  ⟨.refl t, fun _ hr => Or.inl hr⟩

theorem Grows.trans {xs ys : List (Option String)} {a b c : Tables} (h : Grows xs a b) (h' : Grows ys b c) :
    Grows (xs ++ ys) a c := by
  refine ⟨h.kept.trans h'.kept, fun r hr => ?_⟩
  rcases h'.users r hr with hr | hr
  · rcases h.users r hr with hr | hr
    · exact Or.inl hr
    · exact Or.inr (List.mem_append_left _ hr)
  · exact Or.inr (List.mem_append_right _ hr)

theorem grows_add (c : Call) (t : Tables) : Grows [c.username?] t (c.add t) := by
  refine ⟨Call.extends_add c t, fun r hr => ?_⟩
  cases c with
  | user u now =>
    rcases Table.mem_add.1 hr with hr | rfl
    · exact Or.inl hr
    · exact Or.inr (List.mem_singleton.2 rfl)
  | expense x now => exact Or.inl hr

theorem insert_serves {s : Session} {t : Tables} (h : s.Serves t) (c : Call) :
    ∃ t', (c.insert s).2.Serves t' ∧ Grows [c.username?] t t' ∧
      (c.insert s).2.pool.home.writable = s.pool.home.writable := by
  rcases Call.insert_outcome h c with ⟨e, he⟩ | ⟨s', hi, -, h', hw⟩
  · rw [he]; exact ⟨t, h, .refl _ t, rfl⟩
  · rw [hi]; exact ⟨c.add t, h', grows_add c t, hw⟩

theorem insert_ok {s : Session} {t : Tables} (h : s.Serves t) {c : Call} {id : Int}
    (hi : (c.insert s).1 = .ok id) :
    id = c.nextId t ∧ c.fault? t = none ∧ (c.insert s).2.Serves (c.add t) := by
  rcases Call.insert_outcome h c with ⟨e, he⟩ | ⟨s', hi', hf, h', -⟩
  · rw [he] at hi; cases hi
  · rw [hi'] at hi ⊢; cases hi; exact ⟨rfl, hf, h'⟩

/-- Turns only add to the tables, and the names added are those of the calls that had a turn. -/
theorem foldl_serves (calls : Fin n → Call) {w : Crowd n} {t : Tables} (h : w.session.Serves t)
    (l : List (Fin n)) :
    ∃ t', (l.foldl (turn calls) w).session.Serves t' ∧
      Grows (l.map (fun i => (calls i).username?)) t t' ∧
      (l.foldl (turn calls) w).session.pool.home.writable = w.session.pool.home.writable := by
  induction l generalizing w t with
  | nil => exact ⟨t, h, .refl _ t, rfl⟩
  | cons i l ih =>
    rw [List.foldl_cons, List.map_cons, ← List.singleton_append]
    by_cases hi : w.progress i = .waiting
    · obtain ⟨t₁, h₁, x₁, w₁⟩ := insert_serves h (calls i)
      rw [← (turn_waiting calls hi).1] at h₁ w₁
      obtain ⟨t₂, h₂, x₂, w₂⟩ := ih h₁
      exact ⟨t₂, h₂, x₁.trans x₂, w₂.trans w₁⟩
    · rw [← turn_started calls hi] at h
      obtain ⟨t₂, h₂, x₂, w₂⟩ := ih h
      exact ⟨t₂, h₂, (Grows.refl _ t).trans x₂, by rw [w₂, turn_started calls hi]⟩

theorem run_serves (calls : Fin n → Call) {s : Session} {t : Tables} (h : s.Serves t) (l : List (Fin n)) :
    ∃ t', (run calls s l).session.Serves t' ∧ Grows (l.map (fun i => (calls i).username?)) t t' ∧
      (run calls s l).session.pool.home.writable = s.pool.home.writable :=
  foldl_serves calls (w := ⟨s, fun _ => .waiting⟩) h l

/-! ## One call among the others -/

/-- After a first turn that adds a row the call waits for its second turn, and the row stays
whatever the turns that follow. -/
theorem row_stays {w : Crowd n} {t : Tables} (h : w.session.Serves t) {i : Fin n}
    (hw : w.progress i = .waiting) {id : Int} (hi : ((calls i).insert w.session).1 = .ok id)
    (l : List (Fin n)) :
    (turn calls w i).progress i = .inserted id ∧
      ∃ t', (l.foldl (turn calls) (turn calls w i)).session.Serves t' ∧ t'.Has ((calls i).row id) := by
  obtain ⟨hs, hp⟩ := turn_waiting calls hw
  obtain ⟨rfl, -, h₁⟩ := insert_ok h hi
  rw [← hs] at h₁
  obtain ⟨t₂, h₂, x₂, -⟩ := foldl_serves calls h₁ l
  exact ⟨by rw [hp, hi], t₂, h₂, x₂.kept.has (Call.has_add (calls i) t)⟩

/-- With both its turns taken, a call has answered the row that its first turn added, or why that
turn added none. -/
theorem run_answer {s : Session} {t : Tables} (h : s.Serves t) {before after : List (Fin n)} {i : Fin n}
    (hb : i ∉ before) (ha : i ∈ after) :
    (run calls s (before ++ i :: after)).progress i =
      .answered (((calls i).insert (run calls s before).session).1.map (calls i).row) := by
  have hw : (run calls s before).progress i = .waiting := foldl_other hb _
  obtain ⟨t₀, h₀, -, -⟩ := run_serves calls h before
  rw [run_append, List.foldl_cons]
  cases hi : ((calls i).insert (run calls s before).session).1 with
  | error e =>
    apply foldl_answered
    rw [(turn_waiting calls hw).2, hi]
    rfl
  | ok id =>
    -- the second turn is the next one of this call in the schedule
    obtain ⟨mid, rest, rfl, hm⟩ := List.eq_append_cons_of_mem ha
    obtain ⟨hp, t₂, h₂, hr⟩ := row_stays h₀ hw hi mid
    have hread := Call.readBack_eq h₂.holds h₂.healthy h₂.wf hr (Call.row_subject _ _)
    rw [Call.row_id] at hread
    rw [List.foldl_append, List.foldl_cons]
    apply foldl_answered
    rw [turn, foldl_other hm, hp]
    simp only [Function.update_self, hread]
    rfl

/-! ## Who goes first -/

theorem takeWhile_ne_append {i : Fin n} {before : List (Fin n)} (h : i ∉ before) (after : List (Fin n)) :
    (before ++ i :: after).takeWhile (· ≠ i) = before := by
  rw [List.takeWhile_append_of_pos, List.takeWhile_cons_of_neg (by simp), List.append_nil]
  intro a ha
  exact decide_eq_true (fun he : a = i => h (he ▸ ha))

theorem mem_of_interleaving {schedule : List (Fin n)} (h : IsInterleaving schedule) (i : Fin n) :
    i ∈ schedule := List.count_pos_iff.1 (by rw [h i]; omega)

/-- Each call has a first turn, and one more after it. -/
theorem schedule_eq {schedule : List (Fin n)} (h : IsInterleaving schedule) (i : Fin n) :
    ∃ after, schedule = schedule.takeWhile (· ≠ i) ++ i :: after ∧ i ∉ schedule.takeWhile (· ≠ i) ∧
      i ∈ after := by
  obtain ⟨before, after, hs, hb⟩ := List.eq_append_cons_of_mem (mem_of_interleaving h i)
  have hc := h i
  rw [hs, List.count_append, List.count_eq_zero.2 hb, List.count_cons_self] at hc
  refine ⟨after, ?_, ?_, List.count_pos_iff.1 (by omega)⟩ <;> rw [hs, takeWhile_ne_append hb]
  exact hb

/-- Of two calls one has its first turn before the other. -/
theorem first_turns {schedule : List (Fin n)} (h : IsInterleaving schedule) {i j : Fin n} (hij : i ≠ j) :
    i ∈ schedule.takeWhile (· ≠ j) ∨ j ∈ schedule.takeWhile (· ≠ i) := by
  obtain ⟨after, hs, hi, -⟩ := schedule_eq h i
  by_cases hj : j ∈ schedule.takeWhile (· ≠ i)
  · exact Or.inr hj
  · -- `j` is not among the turns before the first of `i`, so that one comes before the first of `j`
    left
    rw [hs, List.takeWhile_append_of_pos, List.takeWhile_cons_of_pos (by simpa using hij)]
    · simp
    · intro a ha
      exact decide_eq_true (fun he : a = j => hj (he ▸ ha))

/-- The row of an earlier insertion is there when a later call begins. -/
theorem found_has {s : Session} {t : Tables} (h : s.Serves t) {schedule : List (Fin n)} {i j : Fin n}
    (hij : i ∈ schedule.takeWhile (· ≠ j)) {id : Int}
    (hi : ((calls i).insert (found calls s schedule i)).1 = .ok id) :
    ∃ t', (found calls s schedule j).Serves t' ∧ t'.Has ((calls i).row id) := by
  obtain ⟨before, mid, hj, hb⟩ := List.eq_append_cons_of_mem hij
  have hfi : found calls s schedule i = (run calls s before).session := by
    have hs : schedule = before ++ i :: (mid ++ schedule.dropWhile (· ≠ j)) := by
      rw [← List.cons_append, ← List.append_assoc, ← hj, List.takeWhile_append_dropWhile]
    unfold found
    rw [hs, takeWhile_ne_append hb]
  rw [hfi] at hi
  obtain ⟨t₀, h₀, -, -⟩ := run_serves calls h before
  obtain ⟨-, t₂, h₂, hr⟩ := row_stays h₀ (foldl_other hb _) hi mid
  refine ⟨t₂, ?_, hr⟩
  unfold found
  rw [hj, run_append, List.foldl_cons]
  exact h₂

/-! ## Names -/

theorem fault_of_taken {c : Call} {t : Tables} {name : String} (hc : c.username? = some name)
    (ht : ∃ r ∈ t.users.rows, r.username = name) : c.fault? t ≠ none := by
  cases c with
  | user u now =>
    cases hc
    obtain ⟨r, hr, hn⟩ := ht
    exact fun hf => (Tables.userFault?_eq_none.1 hf).2 r hr hn
  | expense x now => cases hc

theorem fault_of_free {c : Call} {t : Tables} {name : String} (hc : c.username? = some name)
    (hl : storedLength name ≤ usernameLimit) (ht : ∀ r ∈ t.users.rows, r.username ≠ name) :
    c.fault? t = none := by
  cases c with
  | user u now => cases hc; exact Tables.userFault?_eq_none.2 ⟨hl, ht⟩
  | expense x now => cases hc

/-- The row of a call that asks for a name is a user of that name. -/
theorem has_name {c : Call} {t : Tables} {name : String} {id : Int} (hc : c.username? = some name)
    (h : t.Has (c.row id)) : ∃ r ∈ t.users.rows, r.username = name := by
  cases c with
  | user u now => cases hc; exact ⟨_, h, rfl⟩
  | expense x now => cases hc

/-- An insertion that breaks a rule fails. -/
theorem insert_of_fault {s : Session} {t : Tables} (h : s.Holds t) {c : Call} (hf : c.fault? t ≠ none) :
    ∃ e, (c.insert s).1 = .error e := by
  rcases Call.insert_cases h c with ⟨e, he⟩ | ⟨s', -, hn, -⟩
  · exact ⟨e, by rw [he]⟩
  · exact absurd hn hf

/-! ## One by one -/

theorem turn_started_progress {w : Crowd n} {i j : Fin n} (h : w.progress i ≠ .waiting) :
    (turn calls w j).progress i ≠ .waiting := by
  by_cases hij : i = j
  · subst hij
    unfold turn
    split
    · next hw => exact absurd hw h
    · simp
    · exact h
  · rw [turn_other w hij]; exact h

theorem run_started (s : Session) {l : List (Fin n)} {i : Fin n} (h : i ∈ l) :
    (run calls s l).progress i ≠ .waiting := by
  obtain ⟨before, after, rfl⟩ := List.append_of_mem h
  rw [run_append, List.foldl_cons]
  have hstart : (turn calls (run calls s before) i).progress i ≠ .waiting := by
    by_cases hw : (run calls s before).progress i = .waiting
    · rw [(turn_waiting calls hw).2]; split <;> simp
    · exact turn_started_progress hw
  generalize turn calls (run calls s before) i = w at hstart
  induction after generalizing w with
  | nil => exact hstart
  | cons j rest ih =>
    rw [List.foldl_cons]
    exact ih (by simp) _ (turn_started_progress hstart)

/-- The session is that of the calls one by one, in the order of their first turns. -/
theorem run_session (s : Session) (schedule : List (Fin n)) :
    (run calls s schedule).session = serial calls s (insertionOrder schedule) := by
  induction schedule using List.reverseRecOn with
  | nil => rfl
  | append_singleton l i ih =>
    rw [run_append, List.foldl_cons, List.foldl_nil]
    unfold insertionOrder at ih ⊢
    by_cases hi : i ∈ l
    · -- a second turn only reads
      rw [turn_started calls (run_started s hi), ih, List.eraseDups_append]
      simp [List.removeAll, hi]
    · -- a first turn leaves the session as the whole call does
      have hw : (run calls s l).progress i = .waiting := foldl_other hi _
      rw [(turn_waiting calls hw).1, ih, List.eraseDups_append]
      simp [List.removeAll, hi, serial, List.eraseDups_cons, Call.create_state]

/-! ## All calls together -/

/-- What calls made at the same time amount to, once each has had its turns: the answers, and the
session that they leave. -/
structure Settled (calls : Fin n → Call) (s : Session) (t : Tables) (schedule : List (Fin n)) :
    Prop where
  /-- A call whose insertion adds a row answers this row, under the id that the insertion gave and
  with what the call gave. -/
  row : ∀ i id, ((calls i).insert (found calls s schedule i)).1 = .ok id →
    (run calls s schedule).progress i = .answered (.ok ((calls i).row id)) ∧
    (calls i).Fits ((calls i).row id) ∧
    ∃ u, (found calls s schedule i).Holds u ∧ id = (calls i).nextId u ∧
      ((calls i).insert (found calls s schedule i)).2.Holds ((calls i).add u)
  /-- A call whose insertion fails answers the failure, and has changed nothing. -/
  failure : ∀ i e, ((calls i).insert (found calls s schedule i)).1 = .error e →
    (run calls s schedule).progress i = .answered (.error e) ∧
    ((calls i).insert (found calls s schedule i)).2 = found calls s schedule i
  /-- Rows of one table are answered under different ids. -/
  ids : ∀ i j a b, i ≠ j → (run calls s schedule).progress i = .answered (.ok a) →
    (run calls s schedule).progress j = .answered (.ok b) → a.subject = b.subject → a.id ≠ b.id
  /-- No call gets a name that was taken. -/
  taken : ∀ name, (∃ r ∈ t.users.rows, r.username = name) → ∀ i, (calls i).username? = some name →
    ∃ e, (run calls s schedule).progress i = .answered (.error e)
  /-- Of the calls for a name that was free and is short enough, exactly one gets it. -/
  free : ∀ name, (∀ r ∈ t.users.rows, r.username ≠ name) → storedLength name ≤ usernameLimit →
    s.pool.home.writable = true → (∃ i, (calls i).username? = some name) →
    ∃! i, (calls i).username? = some name ∧
      ∃ row, (run calls s schedule).progress i = .answered (.ok row)
  /-- The session is that of the calls one by one, in the order of their insertions. -/
  serial : (run calls s schedule).session = serial calls s (insertionOrder schedule)

section

variable {s : Session} {t : Tables} {schedule : List (Fin n)}

/-- Every call answers what its first turn came to. -/
theorem answer_eq (h : s.Serves t) (hs : IsInterleaving schedule) (i : Fin n) :
    (run calls s schedule).progress i =
      .answered (((calls i).insert (found calls s schedule i)).1.map (calls i).row) := by
  obtain ⟨after, he, hb, ha⟩ := schedule_eq hs i
  conv_lhs => rw [he]
  exact run_answer h hb ha

/-- A call that has answered a row has inserted it. -/
theorem inserted_of_answer (h : s.Serves t) (hs : IsInterleaving schedule) {i : Fin n} {r : Row}
    (hr : (run calls s schedule).progress i = .answered (.ok r)) :
    ∃ id, ((calls i).insert (found calls s schedule i)).1 = .ok id ∧ r = (calls i).row id := by
  rw [answer_eq h hs] at hr
  cases hi : ((calls i).insert (found calls s schedule i)).1 with
  | error e => rw [hi] at hr; cases hr
  | ok id => rw [hi] at hr; cases hr; exact ⟨id, rfl, rfl⟩

/-- A call that begins when its name is taken answers a failure. -/
theorem answer_of_taken (h : s.Serves t) (hs : IsInterleaving schedule) {i : Fin n} {u : Tables}
    (hu : (found calls s schedule i).Serves u) {name : String} (hn : (calls i).username? = some name)
    (ht : ∃ r ∈ u.users.rows, r.username = name) :
    ∃ e, (run calls s schedule).progress i = .answered (.error e) := by
  obtain ⟨e, he⟩ := insert_of_fault hu.holds (fault_of_taken hn ht)
  exact ⟨e, by rw [answer_eq h hs, he]; rfl⟩

/-- Two calls that have inserted rows of one table have got different ids. -/
theorem ids_differ (h : s.Serves t) {i j : Fin n} (hij : i ∈ schedule.takeWhile (· ≠ j)) {a b : Int}
    (hi : ((calls i).insert (found calls s schedule i)).1 = .ok a)
    (hj : ((calls j).insert (found calls s schedule j)).1 = .ok b)
    (hsub : (calls i).subject = (calls j).subject) : a < b := by
  obtain ⟨u, hu, hr⟩ := found_has h hij hi
  obtain ⟨rfl, -, -⟩ := insert_ok hu hj
  have := Call.id_lt_nextId (c := calls j) hu.wf hr (by rw [Call.row_subject, hsub])
  rwa [Call.row_id] at this

/-- Of the calls for a name one has its first turn before all the others. -/
theorem first_for_name (hs : IsInterleaving schedule) {name : String}
    (hsome : ∃ i, (calls i).username? = some name) :
    ∃ i, (calls i).username? = some name ∧
      ∀ k ∈ schedule.takeWhile (· ≠ i), (calls k).username? ≠ some name := by
  have hfind : (schedule.find? (fun i => (calls i).username? = some name)).isSome := by
    obtain ⟨i, hi⟩ := hsome
    exact List.find?_isSome.2 ⟨i, mem_of_interleaving hs i, by simpa using hi⟩
  obtain ⟨i, hi⟩ := Option.isSome_iff_exists.1 hfind
  obtain ⟨hn, before, after, hsched, hbefore⟩ := List.find?_eq_some_iff_append.1 hi
  simp only [decide_eq_true_eq, Bool.not_eq_true', decide_eq_false_iff_not] at hn hbefore
  refine ⟨i, hn, ?_⟩
  rw [hsched, takeWhile_ne_append (fun hm => hbefore i hm hn)]
  exact hbefore

/-- A name that was free is free after turns of calls for other names. -/
theorem run_free (h : s.Serves t) {l : List (Fin n)} {name : String}
    (hfree : ∀ r ∈ t.users.rows, r.username ≠ name) (hl : ∀ k ∈ l, (calls k).username? ≠ some name) :
    ∃ u, (run calls s l).session.Serves u ∧ (∀ r ∈ u.users.rows, r.username ≠ name) ∧
      (run calls s l).session.pool.home.writable = s.pool.home.writable := by
  obtain ⟨u, hu, hx, hw⟩ := run_serves calls h l
  refine ⟨u, hu, fun r hr he => ?_, hw⟩
  rcases hx.users r hr with hr | hr
  · exact hfree r hr he
  · obtain ⟨k, hk, hkn⟩ := List.mem_map.1 hr
    exact hl k hk (by rw [hkn, he])

/-- The first of the calls for a free name gets it, and the others then find it taken. -/
theorem winner_unique (h : s.Serves t) (hs : IsInterleaving schedule) {name : String}
    (hfree : ∀ r ∈ t.users.rows, r.username ≠ name) (hl : storedLength name ≤ usernameLimit)
    (hw : s.pool.home.writable = true) (hsome : ∃ i, (calls i).username? = some name) :
    ∃! i, (calls i).username? = some name ∧
      ∃ row, (run calls s schedule).progress i = .answered (.ok row) := by
  obtain ⟨i, hn, hbefore⟩ := first_for_name hs hsome
  obtain ⟨u, hu, hfu, hwu⟩ := run_free h hfree hbefore
  have hins : ((calls i).insert (found calls s schedule i)).1 = .ok ((calls i).nextId u) :=
    Call.insert_of_no_fault hu (by rw [hwu, hw]) (fault_of_free hn hl hfu)
  refine ⟨i, ⟨hn, _, by rw [answer_eq h hs, hins]; rfl⟩, ?_⟩
  -- whoever begins later finds the name taken
  rintro j ⟨hnj, row, hj⟩
  by_contra hne
  have hij : i ∈ schedule.takeWhile (· ≠ j) := by
    rcases first_turns hs (Ne.symm hne) with hij | hji
    · exact hij
    · exact absurd hnj (hbefore j hji)
  obtain ⟨u', hu', hr⟩ := found_has h hij hins
  obtain ⟨e, he⟩ := answer_of_taken h hs hu' hnj (has_name hn hr)
  rw [he] at hj
  cases hj

/-- Calls made at the same time on a pool that works, whatever the order of their turns. Their texts are those
that the engine takes, of at most 10^9 bytes. -/
theorem interleaving_settled (calls : Fin n → Call) (s : Session) {db : Database}
    (reachable : db.Reachable) (migrated : s.database = .ok db) (healthy : s.pool.poisoned = false)
    (schedule : List (Fin n)) (complete : IsInterleaving schedule) :
    ∃ t, s.Holds t ∧ Settled calls s t schedule := by
  -- the insertions fix everything: reading back finds what they have put in, whoever comes between
  obtain ⟨t, rfl, hwf⟩ := reachable.wf
  have h : s.Serves t := ⟨healthy, migrated, hwf⟩
  refine ⟨t, migrated, ?_, ?_, ?_, ?_, fun name hf hl hw hi => winner_unique h complete hf hl hw hi,
    run_session s schedule⟩
  · -- insertions that succeed
    intro i id hi
    obtain ⟨u, hu, -, -⟩ := run_serves calls h (schedule.takeWhile (· ≠ i))
    obtain ⟨hid, hf, hu'⟩ := insert_ok hu hi
    exact ⟨by rw [answer_eq h complete, hi]; rfl, Call.fits_row hf id, u, hu.holds, hid, hu'.holds⟩
  · -- insertions that fail
    intro i e he
    obtain ⟨u, hu, -, -⟩ := run_serves calls h (schedule.takeWhile (· ≠ i))
    refine ⟨by rw [answer_eq h complete, he]; rfl, ?_⟩
    rcases Call.insert_outcome hu (calls i) with ⟨e', he'⟩ | ⟨s', hi, -, -, -⟩
    · exact congrArg Prod.snd he'
    · exact absurd (he.symm.trans (congrArg Prod.fst hi)) (by simp)
  · -- ids: of two insertions the later one gets the greater id
    intro i j a b hij ha hb hsub
    obtain ⟨x, hx, rfl⟩ := inserted_of_answer h complete ha
    obtain ⟨y, hy, rfl⟩ := inserted_of_answer h complete hb
    rw [Call.row_subject, Call.row_subject] at hsub
    rw [Call.row_id, Call.row_id]
    rcases first_turns complete hij with hfirst | hfirst
    · exact (ids_differ h hfirst hx hy hsub).ne
    · exact (ids_differ h hfirst hy hx hsub.symm).ne'
  · -- names that were taken stay taken
    rintro name ⟨r, hr, hname⟩ i hi
    obtain ⟨u, hu, hx, -⟩ := run_serves calls h (schedule.takeWhile (· ≠ i))
    exact answer_of_taken h complete hu hi ⟨r, hx.kept.users.rows.subset hr, hname⟩

/-- Two calls for one name and one for an expense of that user: the first user call gets the name,
and the expense is stored although its call began before the user was read back. -/
theorem interleaving_settled_ada :
    Database.fresh.Reachable ∧
      (Session.inMemory Files.Directory.empty).database = .ok .fresh ∧
      (Session.inMemory Files.Directory.empty).pool.poisoned = false ∧
      IsInterleaving (n := 3) [1, 0, 2, 2, 1, 0] ∧
      ∃ t, (Session.inMemory Files.Directory.empty).Holds t ∧
        Settled (n := 3)
          [.user ⟨"ada"⟩ "0", .user ⟨"ada"⟩ "1", .expense ⟨.ofNat 5, some "tea", 1⟩ "2"].get
          (Session.inMemory Files.Directory.empty) t [1, 0, 2, 2, 1, 0] :=
  ⟨.fresh, rfl, rfl, by decide, interleaving_settled _ _ .fresh rfl rfl _ (by decide)⟩

/-- Where the database may only be read, nobody gets a free name. -/
theorem readOnly_unsettled :
    ∃ (disk : Disk) (s : Session) (calls : Fin 2 → Call),
      Session.openFile? disk { Locator.ofFile (Path.ofString "a.db") with access := .readOnly } = some s ∧
      s.database = .ok .fresh ∧ Database.fresh.Reachable ∧ s.pool.poisoned = false ∧
      IsInterleaving (n := 2) [0, 1, 0, 1] ∧ storedLength "ada" ≤ usernameLimit ∧
      (∀ r ∈ Tables.empty.users.rows, r.username ≠ "ada") ∧
      ∀ i, (calls i).username? = some "ada" ∧
        (run calls s [0, 1, 0, 1]).progress i = .answered (.error (.connection .readOnly)) := by
  let disk : Disk := Files.Directory.empty.put ["a.db"] (.file (.database .fresh))
  refine ⟨disk, ⟨disk, ⟨.file ["a.db"] false, false⟩⟩, fun _ => .user ⟨"ada"⟩ "0", rfl, rfl, .fresh, rfl,
    by decide, by decide, by decide, ?_⟩
  decide

end

end Crowd

end ShapeLedger.Ledger
