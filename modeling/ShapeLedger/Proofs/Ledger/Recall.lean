/-
Reading back what has been written. Every call that succeeds is granted an id; the rows of a table are those
of the calls granted so far, in the order in which they were granted (`after_rows`). So the getter finds under
an id what was given with the call that the id was granted to, at any later moment, and under any other id
nothing.
-/
import ShapeLedger.Proofs.Binary64.Rounding
import ShapeLedger.Proofs.Ledger.Rules

namespace ShapeLedger.Ledger

/-! ## Definitions -/

/-- Whether a row is exactly what a call gives under the id: of an amount only the sign of a negative zero is
lost. -/
def Call.Keeps (c : Call) (id : Int) (r : Row) : Prop :=
  match c, r with
  | user u now, .user r => r.id = id ∧ r.username = u.username ∧ r.createdAt = now
  | expense x now, .expense r =>
    r.id = id ∧ r.amount = (if x.amount = .zero true then .zero false else x.amount) ∧
      r.description = x.description ∧ r.userId = x.userId ∧ r.createdAt = now
  | _, _ => False

/-- The call that an answer grants an id, and the id. -/
def granted? : Operation × Except Error Reply → Option (Call × Int)
  | (.create c, .ok (.row r)) => some (c, r.id)
  | (.insert c, .ok (.id id)) => some (c, id)
  | _ => none

/-- The rows that granted calls have in one of the tables. -/
def rowsGranted (granted : List (Call × Int)) (subject : Subject) : List Row :=
  (granted.filter (fun g => g.1.subject = subject)).map (fun g => g.1.row g.2)

/-- The rows of one of the tables. -/
def Tables.rowsOf (t : Tables) : Subject → List Row
  | .user => t.users.rows.map .user
  | .expense => t.expenses.rows.map .expense

namespace Session

/-- The calls of a history that succeed, each with the id that it is granted. -/
def granted (s : Session) (history : List Operation) : List (Call × Int) :=
  (s.replies history).filterMap granted?

/-- The row of one of the tables that has an id. -/
def get (s : Session) (subject : Subject) (id : Int) : Except Error Row :=
  match subject with
  | .user => (s.getUser id).map .user
  | .expense => (s.getExpense id).map .expense

/-- What the getters answer after any further operations, when `past` has been granted so far. -/
structure Recalls (s : Session) (past : List (Call × Int)) : Prop where
  found : ∀ later, ∀ g ∈ past ++ s.granted later,
    ∃ r, (s.after later).get g.1.subject g.2 = .ok r ∧ g.1.Keeps g.2 r
  missing : ∀ later subject id, (s.after later).get subject id = .error (.notFound subject id) ↔
    ∀ g ∈ past ++ s.granted later, g.1.subject = subject → g.2 ≠ id

end Session

/-! ## Rows -/

theorem Tables.storedAmount_eq (x : Binary64) :
    storedAmount x = if x = .zero true then .zero false else x := by
  unfold storedAmount
  split
  · next h => rcases Binary64.isZero_iff.1 h with rfl | rfl <;> rfl
  · next h => rw [if_neg fun hx => h (Binary64.isZero_iff.2 (.inl hx))]

theorem Call.keeps_row (c : Call) (id : Int) : c.Keeps id (c.row id) := by
  cases c with
  | user u now => exact ⟨rfl, rfl, rfl⟩
  | expense x now => exact ⟨rfl, Tables.storedAmount_eq _, rfl, rfl, rfl⟩

theorem rowsGranted_append (earlier later : List (Call × Int)) (subject : Subject) :
    rowsGranted (earlier ++ later) subject = rowsGranted earlier subject ++ rowsGranted later subject := by
  simp only [rowsGranted, List.filter_append, List.map_append]

/-- A row of a granted call is told by its subject and its id. -/
theorem mem_rowsGranted {granted : List (Call × Int)} {subject : Subject} {r : Row} :
    r ∈ rowsGranted granted subject ↔ ∃ g ∈ granted, g.1.subject = subject ∧ g.1.row g.2 = r := by
  simp only [rowsGranted, List.mem_map, List.mem_filter, decide_eq_true_eq, and_assoc]

theorem Call.rowsOf_add (c : Call) (t : Tables) (subject : Subject) :
    (c.add t).rowsOf subject = t.rowsOf subject ++ rowsGranted [(c, c.nextId t)] subject := by
  cases c <;> cases subject <;>
    simp [Tables.rowsOf, add, Tables.addUser, Tables.addExpense, Table.add, rowsGranted, Call.subject, row, nextId]

/-! ## Operations -/

section
variable {s : Session} {t : Tables}

theorem Tables.mem_rowsOf {subject : Subject} {r : Row} :
    r ∈ t.rowsOf subject ↔ t.Has r ∧ r.subject = subject := by
  cases subject <;> cases r <;> simp [rowsOf, Has, Row.subject]

/-- The getter finds the row with the id. -/
theorem Session.Serves.get_of_mem (h : s.Serves t) {subject : Subject} {r : Row}
    (hr : r ∈ t.rowsOf subject) : s.get subject r.id = .ok r := by
  obtain ⟨hhas, rfl⟩ := Tables.mem_rowsOf.1 hr
  cases r with
  | user r => simp only [get, Row.subject, Row.id, getUser_of_mem h.holds h.healthy h.wf hhas]; rfl
  | expense r => simp only [get, Row.subject, Row.id, getExpense_of_mem h.holds h.healthy h.wf hhas]; rfl

/-- Without such a row it says so. -/
theorem Session.Serves.get_of_not_mem (h : s.Serves t) {subject : Subject} {id : Int}
    (hno : ∀ r ∈ t.rowsOf subject, r.id ≠ id) : s.get subject id = .error (.notFound subject id) := by
  cases subject with
  | user =>
    have hnone : t.users.rows.find? (fun r => r.id = id) = none :=
      List.find?_eq_none.2 fun r hr hid => hno (.user r) (List.mem_map_of_mem hr) (of_decide_eq_true hid)
    simp only [get, getUser, look, h.healthy, show s.database = _ from h.holds, Database.getUser,
      Database.need, hnone]
    rfl
  | expense =>
    have hnone : t.expenses.rows.find? (fun r => r.id = id) = none :=
      List.find?_eq_none.2 fun r hr hid => hno (.expense r) (List.mem_map_of_mem hr) (of_decide_eq_true hid)
    simp only [get, getExpense, look, h.healthy, show s.database = _ from h.holds, Database.getExpense,
      Database.need, hnone]
    rfl

theorem Session.Serves.get_eq_notFound (h : s.Serves t) {subject : Subject} {id : Int} :
    s.get subject id = .error (.notFound subject id) ↔ ∀ r ∈ t.rowsOf subject, r.id ≠ id := by
  refine ⟨fun hget r hr hid => ?_, h.get_of_not_mem⟩
  rw [← hid, h.get_of_mem hr] at hget
  cases hget

/-- One operation adds the row of the call that it grants an id, and no other. -/
theorem Operation.perform_rows (h : s.Holds t) (hw : t.WF) (o : Operation) :
    ∃ t', (o.perform s).2.Holds t' ∧ t'.WF ∧ ∀ subject,
      t'.rowsOf subject = t.rowsOf subject ++ rowsGranted (granted? (o, (o.perform s).1)).toList subject := by
  have hkept : ∃ t', s.Holds t' ∧ t'.WF ∧ ∀ subject,
      t'.rowsOf subject = t.rowsOf subject ++ rowsGranted [] subject :=
    ⟨t, h, hw, fun subject => (List.append_nil _).symm⟩
  -- only what succeeds in adding a row grants one; all else leaves the tables as they are
  cases o with
  | create c =>
    rcases Call.create_cases h hw c with ⟨e, -, hc⟩ | ⟨s', -, hc, -, -, -, h'⟩
    · simp only [perform, hc]
      exact hkept
    · simp only [perform, hc]
      refine ⟨c.add t, h'.holds, h'.wf, fun subject => ?_⟩
      rw [c.rowsOf_add, ← Call.row_id c (c.nextId t)]
      simp [Except.map, granted?]
  | insert c =>
    rcases Call.insert_cases h c with ⟨e, hc⟩ | ⟨s', hc, hf, -, -, h', -⟩
    · simp only [perform, hc]
      exact hkept
    · simp only [perform, hc]
      exact ⟨c.add t, h', Call.wf_add hw hf, c.rowsOf_add t⟩
  | getUser id =>
    simp only [perform]
    rcases s.getUser id with e | r <;> exact hkept
  | getExpense id =>
    simp only [perform]
    rcases s.getExpense id with e | r <;> exact hkept
  | migrate =>
    refine ⟨t, Session.migrate_state h, hw, ?_⟩
    simp only [perform]
    rcases s.migrate.1 with e | r <;> exact fun subject => (List.append_nil _).symm

/-! ## Histories -/

namespace Session

theorem granted_cons (s : Session) (o : Operation) (rest : List Operation) :
    s.granted (o :: rest) = (granted? (o, (o.perform s).1)).toList ++ (o.perform s).2.granted rest := by
  rw [granted, replies, List.filterMap_cons]
  cases granted? (o, (o.perform s).1) <;> rfl

/-- After a history the tables have their earlier rows, and those of the calls that were granted an id. -/
theorem after_rows (h : s.Holds t) (hw : t.WF) (history : List Operation) :
    ∃ t', (s.after history).Holds t' ∧ t'.WF ∧ ∀ subject,
      t'.rowsOf subject = t.rowsOf subject ++ rowsGranted (s.granted history) subject := by
  induction history generalizing s t with
  | nil => exact ⟨t, h, hw, fun subject => (List.append_nil _).symm⟩
  | cons o rest ih =>
    obtain ⟨t₁, h₁, hw₁, hrows₁⟩ := o.perform_rows h hw
    obtain ⟨t₂, h₂, hw₂, hrows₂⟩ := ih h₁ hw₁
    refine ⟨t₂, h₂, hw₂, fun subject => ?_⟩
    rw [hrows₂, hrows₁, List.append_assoc, ← rowsGranted_append, granted_cons]

/-- No operation poisons a lock. -/
theorem after_healthy (hp : s.pool.poisoned = false) (history : List Operation) :
    (s.after history).pool.poisoned = false :=
  after_invariant (P := fun s => s.pool.poisoned = false)
    (fun s _ new _ _ hs => (s.store_poisoned new).trans hs) hp history

/-- A pool that works, on a database that a history has made of a fresh one: the getters answer for ever what
was given with the calls that got their ids, whether before or on this pool, and for every other id that there
is no such row. -/
theorem recalls_granted (origin : Session) (fresh : origin.database = .ok .fresh) (past : List Operation)
    (s : Session) (resumed : s.database = (origin.after past).database) (healthy : s.pool.poisoned = false) :
    s.Recalls (origin.granted past) := by
  obtain ⟨t, h, hw, hrows⟩ := after_rows (t := .empty) fresh Tables.empty_wf past
  -- the rows are those that were granted before and those that are granted later, in this order
  have hafter (later : List Operation) : ∃ t', (s.after later).Serves t' ∧ ∀ subject,
      t'.rowsOf subject = rowsGranted (origin.granted past ++ s.granted later) subject := by
    obtain ⟨t', h', hw', hrows'⟩ := after_rows (s := s) (resumed.trans h) hw later
    refine ⟨t', ⟨after_healthy healthy later, h', hw'⟩, fun subject => ?_⟩
    rw [hrows', hrows, rowsGranted_append]
    cases subject <;> rfl
  -- a row that was granted is found by its id, and an id without one is in none of the tables
  refine ⟨fun later g hg => ?_, fun later subject id => ?_⟩ <;> obtain ⟨t', hserves, hrows'⟩ := hafter later
  · have hrow : g.1.row g.2 ∈ t'.rowsOf g.1.subject := by
      rw [hrows']
      exact mem_rowsGranted.2 ⟨g, hg, rfl, rfl⟩
    have hget := hserves.get_of_mem hrow
    rw [Call.row_id] at hget
    exact ⟨_, hget, g.1.keeps_row g.2⟩
  · rw [hserves.get_eq_notFound, hrows']
    constructor
    · intro hno g hg hsubject hid
      refine hno _ (mem_rowsGranted.2 ⟨g, hg, hsubject, rfl⟩) ?_
      rw [Call.row_id, hid]
    · intro hno r hr hid
      obtain ⟨g, hg, hsubject, rfl⟩ := mem_rowsGranted.1 hr
      exact hno g hg hsubject (by rwa [Call.row_id] at hid)

/-- A name with a NUL in it, an expense with an empty description and a negative zero, one that no user owns
and one without a description. -/
theorem recalls_granted_nul : ∃ past,
    (inMemory Files.Directory.empty).granted past = [(.user ⟨"a\x00ß"⟩ "1", 1),
      (.expense ⟨.zero true, some "", 1⟩ "2", 1), (.expense ⟨.ofNat 5, none, 1⟩ "4", 2)] ∧
    (inMemory Files.Directory.empty).database = .ok .fresh ∧
    ((inMemory Files.Directory.empty).after past).pool.poisoned = false ∧
    ((inMemory Files.Directory.empty).after past).Recalls ((inMemory Files.Directory.empty).granted past) :=
  ⟨[.create (.user ⟨"a\x00ß"⟩ "1"), .insert (.expense ⟨.zero true, some "", 1⟩ "2"),
      .create (.expense ⟨.ofNat 5, none, 7⟩ "3"), .create (.expense ⟨.ofNat 5, none, 1⟩ "4")],
    by decide +kernel, rfl, after_healthy rfl _, recalls_granted _ rfl _ _ rfl (after_healthy rfl _)⟩

end Session

end

end ShapeLedger.Ledger
