/-
What a session does under its lock. `Holds` says which tables are behind a pool whose schema is up
to date; on such a session an insertion is one equation, and so is a look at a row. What is stored
is what is found afterwards, whether it is kept in memory or in a file.
-/
import ShapeLedger.Ledger.Pool
import ShapeLedger.Proofs.Ledger.Invariant
import ShapeLedger.Proofs.Ledger.Sidecars

namespace ShapeLedger

open Files

namespace Ledger

namespace Session

/-! ## The database behind a pool -/

/-- The schema is up to date, and these are the tables. -/
def Holds (s : Session) (t : Tables) : Prop := s.database = .ok ⟨Database.schemaVersion, some t⟩

/-- The database stored is the one found afterwards. -/
theorem database_store {s : Session} {db : Database} (h : s.database = .ok db) (new : Database) :
    (s.store new).database = .ok new := by
  unfold database at h
  cases hh : s.pool.home with
  | memory old w => simp only [store, hh, database]
  | file l w =>
    simp only [hh] at h
    simp only [store, hh, database, Disk.database_write h]

theorem holds_store {s : Session} {t : Tables} (h : s.Holds t) (new : Tables) :
    (s.store ⟨Database.schemaVersion, some new⟩).Holds new := database_store h _

@[simp] theorem store_poisoned (s : Session) (db : Database) :
    (s.store db).pool.poisoned = s.pool.poisoned := by
  unfold store; split <;> rfl

@[simp] theorem store_writable (s : Session) (db : Database) :
    (s.store db).pool.home.writable = s.pool.home.writable := by
  unfold store
  split
  · next hh => simp [hh, Home.writable]
  · next hh => simp [hh]

/-! ## Operations under the lock -/

/-- An insertion: what it is refused for, the id that it gives, and the tables that it leaves. -/
def insertion (s : Session) (fault : Option Rule) (id : Int) (new : Tables) : Except Error Int × Session :=
  if s.pool.poisoned then (.error .poisoned, s)
  else if !s.pool.home.writable then (.error (.connection .readOnly), s)
  else
    match fault with
    | some rule => (.error (.constraint rule), s)
    | none => (.ok id, s.store ⟨Database.schemaVersion, some new⟩)

theorem run_insertion {s : Session} {t : Tables} (h : s.Holds t) {op : Database → Database.Outcome Int}
    {fault : Option Rule} {id : Int} {new : Tables} (hne : new ≠ t)
    (hop : op ⟨Database.schemaVersion, some t⟩ =
      match fault with
      | some rule => .error (.constraint rule)
      | none => .ok (id, ⟨Database.schemaVersion, some new⟩)) :
    s.run .connection op = s.insertion fault id new := by
  unfold run insertion
  -- first the lock, then the right to write, then the rules
  split
  · rfl
  · simp only [show s.database = _ from h, hop]
    cases fault with
    | some rule => cases s.pool.home.writable <;> simp [reachesRows]
    | none => cases s.pool.home.writable <;> simp [reachesRows, hne]

theorem addUser_ne (t : Tables) (u : NewUser) (now : String) : t.addUser u now ≠ t := by
  intro h
  have := congrArg (fun t : Tables => t.users.lastId) h
  simp [Tables.addUser_users, Table.add] at this

theorem addExpense_ne (t : Tables) (x : NewExpense) (now : String) : t.addExpense x now ≠ t := by
  intro h
  have := congrArg (fun t : Tables => t.expenses.lastId) h
  simp [Tables.addExpense_expenses, Table.add] at this

theorem insertUser_eq {s : Session} {t : Tables} (h : s.Holds t) (u : NewUser) (now : String) :
    s.insertUser u now = s.insertion (t.userFault? u) t.users.nextId (t.addUser u now) := by
  refine run_insertion h (addUser_ne t u now) ?_
  cases hf : t.userFault? u <;> simp only [Database.insertUser, Database.need, hf]

theorem insertExpense_eq {s : Session} {t : Tables} (h : s.Holds t) (x : NewExpense) (now : String) :
    s.insertExpense x now = s.insertion (t.expenseFault? x) t.expenses.nextId (t.addExpense x now) := by
  refine run_insertion h (addExpense_ne t x now) ?_
  cases hf : t.expenseFault? x <;> simp only [Database.insertExpense, Database.need, hf]

/-- A schema that is up to date stays as it is. -/
theorem migrate_state {s : Session} {t : Tables} (h : s.Holds t) : s.migrate.2.Holds t := by
  unfold migrate run
  split
  · exact h
  · simp only [show s.database = _ from h, Database.migrate, if_true]
    split
    · exact h
    · exact holds_store h t

/-- A stored user is found by its id. -/
theorem getUser_of_mem {s : Session} {t : Tables} (h : s.Holds t) (hp : s.pool.poisoned = false)
    (hw : t.WF) {r : User} (hr : r ∈ t.users.rows) : s.getUser r.id = .ok r := by
  simp only [getUser, look, hp, show s.database = _ from h, Database.getUser, Database.need,
    hw.userIds.find?_id hr]
  rfl

/-- A stored expense is found by its id. -/
theorem getExpense_of_mem {s : Session} {t : Tables} (h : s.Holds t) (hp : s.pool.poisoned = false)
    (hw : t.WF) {r : Expense} (hr : r ∈ t.expenses.rows) : s.getExpense r.id = .ok r := by
  simp only [getExpense, look, hp, show s.database = _ from h, Database.getExpense, Database.need,
    hw.expenseIds.find?_id hr]
  rfl

end Session

end Ledger

end ShapeLedger
