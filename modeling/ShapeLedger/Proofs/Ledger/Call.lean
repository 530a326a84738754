/-
The calls that add a row, to either table, under one name. A call inserts its row in one turn under
the lock and reads it back in another; between the turns others may add rows of their own. What it
reads back is the row that it has added, since a row never changes and never gives up its id.
-/
import ShapeLedger.Proofs.Ledger.Session

namespace ShapeLedger.Ledger

/-! ## Calls and rows -/

/-- A row of one of the tables. -/
inductive Row where
  | user (r : User)
  | expense (r : Expense)
deriving DecidableEq, Repr

namespace Row

def id : Row → Int
  | user r => r.id
  | expense r => r.id

def subject : Row → Subject
  | user _ => .user
  | expense _ => .expense

end Row

/-- Whether a row is stored. -/
def Tables.Has (t : Tables) : Row → Prop
  | .user r => r ∈ t.users.rows
  | .expense r => r ∈ t.expenses.rows

/-- One more row, at the end of its table, and nothing else. -/
def Tables.Appended (a b : Tables) : Row → Prop
  | .user r => b.users.rows = a.users.rows ++ [r] ∧ b.expenses = a.expenses
  | .expense r => b.expenses.rows = a.expenses.rows ++ [r] ∧ b.users = a.users

/-- A call that adds a row, and the time that the row is given. -/
inductive Call where
  | user (u : NewUser) (now : String)
  | expense (x : NewExpense) (now : String)
deriving DecidableEq, Repr

namespace Call

/-- The table that the call is for. -/
def subject : Call → Subject
  | user _ _ => .user
  | expense _ _ => .expense

/-- The first rule that the call breaks. -/
def fault? (c : Call) (t : Tables) : Option Rule :=
  match c with
  | user u _ => t.userFault? u
  | expense x _ => t.expenseFault? x

/-- The id that the row of the call would get. -/
def nextId (c : Call) (t : Tables) : Int :=
  match c with
  | user _ _ => t.users.nextId
  | expense _ _ => t.expenses.nextId

/-- The tables with the row of the call. -/
def add (c : Call) (t : Tables) : Tables :=
  match c with
  | user u now => t.addUser u now
  | expense x now => t.addExpense x now

/-- The row of the call, once it has an id. -/
def row (c : Call) (id : Int) : Row :=
  match c with
  | user u now => .user ⟨id, u.username, now⟩
  | expense x now => .expense ⟨id, storedAmount x.amount, x.description, x.userId, now⟩

/-- Whether a row holds what the call gives: the amount as a number, all else as it is. -/
def Fits (c : Call) (r : Row) : Prop :=
  match c, r with
  | user u now, .user r => r.username = u.username ∧ r.createdAt = now
  | expense x now, .expense r =>
    Tables.SameAmount r.amount x.amount ∧ r.description = x.description ∧ r.userId = x.userId ∧
      r.createdAt = now
  | _, _ => False

/-- The first turn: the row is added. -/
def insert (c : Call) (s : Session) : Except Error Int × Session :=
  match c with
  | user u now => s.insertUser u now
  | expense x now => s.insertExpense x now

/-- The second turn: the row is read back. -/
def readBack (c : Call) (s : Session) (id : Int) : Except Error Row :=
  match c with
  | user _ _ => (s.getUser id).map .user
  | expense _ _ => (s.getExpense id).map .expense

/-- Both turns, one right after the other. -/
def create (c : Call) (s : Session) : Except Error Row × Session :=
  match c with
  | user u now => ((s.createUser u now).1.map .user, (s.createUser u now).2)
  | expense x now => ((s.createExpense x now).1.map .expense, (s.createExpense x now).2)

@[simp] theorem row_id (c : Call) (id : Int) : (c.row id).id = id := by cases c <;> rfl

@[simp] theorem row_subject (c : Call) (id : Int) : (c.row id).subject = c.subject := by cases c <;> rfl

/-! ## What a call adds -/

theorem extends_add (c : Call) (t : Tables) : t.Extends (c.add t) := by
  cases c with
  | user u now => exact Tables.extends_addUser t u now
  | expense x now => exact Tables.extends_addExpense t x now

theorem wf_add {c : Call} {t : Tables} (h : t.WF) (hf : c.fault? t = none) : (c.add t).WF := by
  cases c with
  | user u now => exact h.addUser hf now
  | expense x now => exact h.addExpense hf now

/-- The row added is there. -/
theorem has_add (c : Call) (t : Tables) : (c.add t).Has (c.row (c.nextId t)) := by
  cases c with
  | user u now => exact Table.add_mem t.users _
  | expense x now => exact Table.add_mem t.expenses _

theorem appended_add (c : Call) (t : Tables) : t.Appended (c.add t) (c.row (c.nextId t)) := by
  cases c with
  | user u now => exact ⟨rfl, rfl⟩
  | expense x now => exact ⟨rfl, rfl⟩

/-- The row of a call that breaks no rule holds what the call gives. -/
theorem fits_row {c : Call} {t : Tables} (hf : c.fault? t = none) (id : Int) : c.Fits (c.row id) := by
  cases c with
  | user u now => exact ⟨rfl, rfl⟩
  | expense x now => exact ⟨Tables.storedAmount_same (Tables.expenseFault?_eq_none.1 hf).1, rfl, rfl, rfl⟩

/-- The next id is not that of any row. -/
theorem id_lt_nextId {c : Call} {t : Tables} (h : t.WF) {r : Row} (hr : t.Has r)
    (hs : r.subject = c.subject) : r.id < c.nextId t := by
  cases c <;> cases r <;> cases hs
  · have := h.userIds.id_le hr
    simp only [Row.id, nextId, Table.nextId]; omega
  · have := h.expenseIds.id_le hr
    simp only [Row.id, nextId, Table.nextId]; omega

end Call

/-- Stored rows stay stored. -/
theorem Tables.Extends.has {a b : Tables} (h : a.Extends b) {r : Row} (hr : a.Has r) : b.Has r := by
  cases r with
  | user r => exact h.users.rows.subset hr
  | expense r => exact h.expenses.rows.subset hr

/-! ## The two turns -/

namespace Call

theorem insert_eq {s : Session} {t : Tables} (h : s.Holds t) (c : Call) :
    c.insert s = s.insertion (c.fault? t) (c.nextId t) (c.add t) := by
  cases c with
  | user u now => exact Session.insertUser_eq h u now
  | expense x now => exact Session.insertExpense_eq h x now

/-- An insertion asks for the lock first. -/
theorem insert_poisoned {s : Session} {t : Tables} (h : s.Holds t) (hp : s.pool.poisoned = true) (c : Call) :
    c.insert s = (.error .poisoned, s) := by
  rw [insert_eq h]
  exact if_pos hp

/-- Then it asks for the right to write. -/
theorem insert_readOnly {s : Session} {t : Tables} (h : s.Holds t) (hp : s.pool.poisoned = false)
    (hw : s.pool.home.writable = false) (c : Call) : c.insert s = (.error (.connection .readOnly), s) := by
  rw [insert_eq h]
  unfold Session.insertion
  rw [hp, hw]
  rfl

/-- The rules come last. -/
theorem insert_of_fault_eq_some {s : Session} {t : Tables} (h : s.Holds t) (hp : s.pool.poisoned = false)
    (hw : s.pool.home.writable = true) {c : Call} {rule : Rule} (hf : c.fault? t = some rule) :
    c.insert s = (.error (.constraint rule), s) := by
  rw [insert_eq h]
  unfold Session.insertion
  rw [hp, hw, hf]
  rfl

/-- An insertion fails and leaves all as it was, or it breaks no rule and adds its row. -/
theorem insert_cases {s : Session} {t : Tables} (h : s.Holds t) (c : Call) :
    (∃ e, c.insert s = (.error e, s)) ∨
    ∃ s', c.insert s = (.ok (c.nextId t), s') ∧ c.fault? t = none ∧ s.pool.poisoned = false ∧
      s.pool.home.writable = true ∧ s'.Holds (c.add t) ∧ s'.pool.poisoned = false ∧
      s'.pool.home.writable = true := by
  rw [insert_eq h]
  unfold Session.insertion
  split
  · exact Or.inl ⟨_, rfl⟩
  · next hp =>
    rw [Bool.not_eq_true] at hp
    split
    · exact Or.inl ⟨_, rfl⟩
    · next hw =>
      simp only [Bool.not_eq_true', Bool.not_eq_false] at hw
      split
      · exact Or.inl ⟨_, rfl⟩
      · next hf =>
        refine Or.inr ⟨_, rfl, hf, hp, hw, Session.holds_store h _, ?_, ?_⟩
        · rw [Session.store_poisoned, hp]
        · rw [Session.store_writable, hw]

/-- A stored row is read back as it is. -/
theorem readBack_eq {s : Session} {t : Tables} (h : s.Holds t) (hp : s.pool.poisoned = false)
    (hw : t.WF) {c : Call} {r : Row} (hr : t.Has r) (hs : r.subject = c.subject) :
    c.readBack s r.id = .ok r := by
  cases c <;> cases r <;> cases hs
  · simp only [readBack, Row.id, Session.getUser_of_mem h hp hw hr]; rfl
  · simp only [readBack, Row.id, Session.getExpense_of_mem h hp hw hr]; rfl

/-- A call made without a break is its two turns. -/
theorem create_eq (c : Call) (s : Session) :
    c.create s =
      match c.insert s with
      | (.error e, s) => (.error e, s)
      | (.ok id, s) => (c.readBack s id, s) := by
  cases c with
  | user u now =>
    simp only [create, insert, readBack, Session.createUser]
    rcases s.insertUser u now with ⟨e | id, s⟩ <;> rfl
  | expense x now =>
    simp only [create, insert, readBack, Session.createExpense]
    rcases s.insertExpense x now with ⟨e | id, s⟩ <;> rfl

/-- A call whose insertion fails ends there. -/
theorem create_of_insert {c : Call} {s s' : Session} {e : Error} (h : c.insert s = (.error e, s')) :
    c.create s = (.error e, s') := by
  rw [create_eq, h]

end Call

/-- The pool works, and these are its tables. -/
structure Session.Serves (s : Session) (t : Tables) : Prop where
  healthy : s.pool.poisoned = false
  holds : s.Holds t
  wf : t.WF

namespace Call

/-- On a pool that works an insertion fails and changes nothing, or it breaks no rule and adds its
row. -/
theorem insert_outcome {s : Session} {t : Tables} (h : s.Serves t) (c : Call) :
    (∃ e, c.insert s = (.error e, s)) ∨
    ∃ s', c.insert s = (.ok (c.nextId t), s') ∧ c.fault? t = none ∧ s'.Serves (c.add t) ∧
      s'.pool.home.writable = s.pool.home.writable := by
  rcases insert_cases h.holds c with he | ⟨s', hi, hf, -, hw, h', hp', hw'⟩
  · exact Or.inl he
  · exact Or.inr ⟨s', hi, hf, ⟨hp', h', wf_add h.wf hf⟩, by rw [hw, hw']⟩

/-- An insertion that breaks no rule succeeds, where the pool may be written. -/
theorem insert_of_no_fault {s : Session} {t : Tables} (h : s.Serves t)
    (hw : s.pool.home.writable = true) {c : Call} (hf : c.fault? t = none) :
    (c.insert s).1 = .ok (c.nextId t) := by
  rw [insert_eq h.holds]
  unfold Session.insertion
  rw [h.healthy, hw, hf]
  rfl

/-- A call made without a break answers the row of its insertion. -/
theorem create_eq_insert {s : Session} {t : Tables} (h : s.Serves t) (c : Call) :
    c.create s = ((c.insert s).1.map c.row, (c.insert s).2) := by
  rw [create_eq]
  rcases insert_outcome h c with ⟨e, he⟩ | ⟨s', hi, -, h', -⟩
  · rw [he]; rfl
  · rw [hi]
    have hr := readBack_eq h'.holds h'.healthy h'.wf (has_add c t) (row_subject c _)
    rw [row_id] at hr
    simp only [hr]; rfl

end Call

end ShapeLedger.Ledger
