/-
What operations are answered, one after the other. An operation looks at the lock, at the right to write
and at the database behind the pool, and at nothing else; so sessions that agree in these three are
answered alike for ever, wherever their databases are kept. `perform_cases` says once what an operation can
make of a session.
-/
import ShapeLedger.Proofs.Ledger.History

namespace ShapeLedger.Ledger

/-! ## Definitions -/

namespace Session

/-- The operations of a history, each with what it is answered. -/
def replies (s : Session) : List Operation → List (Operation × Except Error Reply)
  | [] => []
  | o :: rest => (o, (o.perform s).1) :: replies (o.perform s).2 rest

/-- Sessions that no operation tells apart. -/
structure Alike (a b : Session) : Prop where
  poisoned : a.pool.poisoned = b.pool.poisoned
  writable : a.pool.home.writable = b.pool.home.writable
  database : a.database = b.database

/-- Sessions in such a relation cannot be told apart, and stay in it when the same is stored in both. -/
structure Bisimulation (R : Session → Session → Prop) : Prop where
  alike {a b : Session} (h : R a b) : a.Alike b
  store {a b : Session} (h : R a b) {db : Database} (hdb : a.database = .ok db) (new : Database) :
    R (a.store new) (b.store new)

/-- What an operation under the lock comes to: why it fails, or what it gives and the database that it
leaves. -/
def verdict {α : Type} (s : Session) (failing : Trouble → Error) (op : Database → Database.Outcome α) :
    Database.Outcome α :=
  if s.pool.poisoned then .error .poisoned
  else
    match s.database with
    | .error trouble => .error (failing trouble)
    | .ok db => if !s.pool.home.writable && reachesRows db (op db) then .error (failing .readOnly) else op db

end Session

/-- What one operation can make of a database. -/
inductive Database.Moves (db : Database) : Database → Prop where
  | add {t : Tables} (c : Call) (h : db.tables = some t) : db.Moves { db with tables := some (c.add t) }
  | current (h : db.version = schemaVersion) : db.Moves db
  | schema (h : db = blank) : db.Moves fresh

/-! ## One operation under the lock -/

namespace Session

section
variable {α : Type} {s a b : Session} {failing : Trouble → Error} {op : Database → Database.Outcome α}

theorem run_eq (s : Session) (failing : Trouble → Error) (op : Database → Database.Outcome α) :
    s.run failing op =
      match s.verdict failing op with
      | .error e => (.error e, s)
      | .ok (x, db) => (.ok x, s.store db) := by
  unfold run verdict
  split
  · rfl
  · cases s.database with
    | error trouble => rfl
    | ok db =>
      simp only
      split
      · rfl
      · rcases op db with e | ⟨x, new⟩ <;> rfl

/-- An operation succeeds when the lock is whole, the database is there and the operation succeeds on it; a
pool that may only read has to be left with the database that it had. -/
theorem verdict_eq_ok {x : α} {new : Database} : s.verdict failing op = .ok (x, new) ↔
    s.pool.poisoned = false ∧ ∃ db, s.database = .ok db ∧ op db = .ok (x, new) ∧
      (s.pool.home.writable = true ∨ new = db) := by
  unfold verdict
  cases s.pool.poisoned with
  | true => simp
  | false =>
    cases s.database with
    | error trouble => simp
    | ok db =>
      cases hw : s.pool.home.writable with
      | true => simp
      | false =>
        cases hop : op db with
        | error e => cases e <;> simp [reachesRows, hop]
        | ok y => by_cases hy : y.2 = db <;> simp [reachesRows, hy, hop] <;> grind

/-- An operation fails and leaves the session as it is, or stores what it has made of the database. -/
theorem run_cases (s : Session) (failing : Trouble → Error) (op : Database → Database.Outcome α) :
    (∃ e, s.run failing op = (.error e, s)) ∨
    ∃ db x new, s.database = .ok db ∧ op db = .ok (x, new) ∧ s.run failing op = (.ok x, s.store new) := by
  rw [run_eq]
  cases hv : s.verdict failing op with
  | error e => exact .inl ⟨e, rfl⟩
  | ok x =>
    obtain ⟨-, db, hdb, hx, -⟩ := verdict_eq_ok.1 hv
    exact .inr ⟨db, x.1, x.2, hdb, hx, rfl⟩

/-- Where the lock is poisoned nothing is looked at. -/
theorem verdict_poisoned (hp : s.pool.poisoned = true) : s.verdict failing op = .error .poisoned := by
  rw [verdict, if_pos hp]

theorem run_poisoned (hp : s.pool.poisoned = true) : s.run failing op = (.error .poisoned, s) := by
  rw [run_eq, verdict_poisoned hp]

/-! ## Sessions that answer alike -/

theorem Alike.refl (s : Session) : s.Alike s := ⟨rfl, rfl, rfl⟩

theorem Alike.trans {c : Session} (h : a.Alike b) (h' : b.Alike c) : a.Alike c :=
  ⟨h.poisoned.trans h'.poisoned, h.writable.trans h'.writable, h.database.trans h'.database⟩

theorem Alike.verdict (h : a.Alike b) : a.verdict failing op = b.verdict failing op := by
  unfold Session.verdict
  rw [h.poisoned, h.writable, h.database]

theorem alike_bisimulation : Bisimulation Alike := by
  refine ⟨fun h => h, fun {a b} h {db} hdb new => ⟨?_, ?_, ?_⟩⟩
  · rw [store_poisoned, store_poisoned, h.poisoned]
  · rw [store_writable, store_writable, h.writable]
  · rw [database_store hdb, database_store (h.database.symm.trans hdb)]

/-- The same database stored once more changes nothing that an operation could see. -/
theorem store_same {db : Database} (h : s.database = .ok db) : (s.store db).Alike s :=
  ⟨store_poisoned s db, store_writable s db, (database_store h db).trans h.symm⟩

theorem Bisimulation.run {R : Session → Session → Prop} (hR : Bisimulation R) (h : R a b) :
    (a.run failing op).1 = (b.run failing op).1 ∧ R (a.run failing op).2 (b.run failing op).2 := by
  rw [run_eq, run_eq, ← (hR.alike h).verdict]
  cases hv : a.verdict failing op with
  | error e => exact ⟨rfl, h⟩
  | ok x =>
    obtain ⟨-, db, hdb, -⟩ := verdict_eq_ok.1 hv
    exact ⟨rfl, hR.store h hdb x.2⟩

theorem Alike.look {op : Database → Except Error α} (h : a.Alike b) : a.look op = b.look op := by
  unfold Session.look
  rw [h.poisoned, h.database]

theorem Alike.rows (h : a.Alike b) : a.rows = b.rows := h.look

end

end Session

/-! ## One operation -/

section
variable {R : Session → Session → Prop} {a b : Session}

namespace Session.Bisimulation

theorem insert (hR : Bisimulation R) (h : R a b) (c : Call) :
    (c.insert a).1 = (c.insert b).1 ∧ R (c.insert a).2 (c.insert b).2 := by
  cases c <;> exact hR.run h

theorem create (hR : Bisimulation R) (h : R a b) (c : Call) :
    (c.create a).1 = (c.create b).1 ∧ R (c.create a).2 (c.create b).2 := by
  have hi := hR.insert h c
  rw [Call.create_eq, Call.create_eq]
  generalize c.insert a = x at hi
  generalize c.insert b = y at hi
  obtain ⟨⟨x, a'⟩, ⟨y, b'⟩⟩ := x, y
  obtain ⟨rfl, hs⟩ := hi
  have hback (id : Int) : c.readBack a' id = c.readBack b' id := by
    cases c <;> exact congrArg (Except.map _) (hR.alike hs).look
  cases x with
  | error e => exact ⟨rfl, hs⟩
  | ok id => exact ⟨hback id, hs⟩

/-- Sessions in a bisimulation give an operation the same answer, and stay in it. -/
theorem perform (hR : Bisimulation R) (h : R a b) (o : Operation) :
    (o.perform a).1 = (o.perform b).1 ∧ R (o.perform a).2 (o.perform b).2 := by
  cases o with
  | create c => exact ⟨congrArg (Except.map _) (hR.create h c).1, (hR.create h c).2⟩
  | insert c => exact ⟨congrArg (Except.map _) (hR.insert h c).1, (hR.insert h c).2⟩
  | getUser id => exact ⟨congrArg (Except.map _) (hR.alike h).look, h⟩
  | getExpense id => exact ⟨congrArg (Except.map _) (hR.alike h).look, h⟩
  | migrate =>
    have hm : a.migrate.1 = b.migrate.1 ∧ R a.migrate.2 b.migrate.2 := hR.run h
    exact ⟨congrArg (Except.map _) hm.1, hm.2⟩

theorem replies (hR : Bisimulation R) (h : R a b) (history : List Operation) :
    a.replies history = b.replies history ∧ R (a.after history) (b.after history) := by
  induction history generalizing a b with
  | nil => exact ⟨rfl, h⟩
  | cons o rest ih =>
    obtain ⟨hr, hs⟩ := hR.perform h o
    obtain ⟨hrest, hafter⟩ := ih hs
    exact ⟨by rw [Session.replies, Session.replies, hr, hrest], hafter⟩

end Session.Bisimulation

end

/-- A call leaves the session as it was, or with the row of the call added. -/
theorem Call.insert_moves (c : Call) (s : Session) : (c.insert s).2 = s ∨
    ∃ db new, s.database = .ok db ∧ db.Moves new ∧ (c.insert s).2 = s.store new := by
  have hrun {op : Database → Database.Outcome Int} (hi : c.insert s = s.run .connection op)
      (hop : ∀ {db x new}, op db = .ok (x, new) → db.Moves new) :
      (c.insert s).2 = s ∨ ∃ db new, s.database = .ok db ∧ db.Moves new ∧ (c.insert s).2 = s.store new := by
    rw [hi]
    rcases s.run_cases .connection op with ⟨e, he⟩ | ⟨db, x, new, hdb, hx, hs⟩
    · rw [he]; exact .inl rfl
    · rw [hs]; exact .inr ⟨db, new, hdb, hop hx, rfl⟩
  -- an insertion that is carried out adds its row to the tables, whichever table it is for
  cases c with
  | user u now =>
    refine hrun rfl fun {db x new} hx => ?_
    simp only [Database.insertUser, Database.need] at hx
    cases ht : db.tables with
    | none => simp [ht] at hx
    | some t =>
      simp only [ht] at hx
      split at hx
      · cases hx
      · cases hx
        exact .add (.user u now) ht
  | expense e now =>
    refine hrun rfl fun {db x new} hx => ?_
    simp only [Database.insertExpense, Database.need] at hx
    cases ht : db.tables with
    | none => simp [ht] at hx
    | some t =>
      simp only [ht] at hx
      split at hx
      · cases hx
      · cases hx
        exact .add (.expense e now) ht

/-- What a migration gives, where it gives something. -/
theorem Database.migrate_eq_ok {db new : Database} : db.migrate = .ok ((), new) ↔
    db.version = schemaVersion ∧ new = db ∨ db = blank ∧ new = fresh := by
  obtain ⟨version, tables⟩ := db
  unfold Database.migrate blank
  by_cases h₁ : version = schemaVersion
  · subst h₁
    simp [schemaVersion, eq_comm]
  · by_cases h₀ : version = 0
    · subst h₀
      cases tables <;> simp [schemaVersion, eq_comm]
    · simp [h₁, h₀]

/-- An operation leaves the session as it was, or stores what it has made of the database. -/
theorem Operation.perform_cases (o : Operation) (s : Session) : (o.perform s).2 = s ∨
    ∃ db new, s.database = .ok db ∧ db.Moves new ∧ (o.perform s).2 = s.store new := by
  cases o with
  | create c =>
    simp only [perform, Call.create_state]
    exact c.insert_moves s
  | insert c => exact c.insert_moves s
  | getUser id => exact .inl rfl
  | getExpense id => exact .inl rfl
  | migrate =>
    rcases s.run_cases (fun _ => .migration .unusable) (·.migrate) with ⟨e, he⟩ | ⟨db, x, new, hdb, hx, hs⟩
    · simp only [perform, Session.migrate, he]
      exact .inl trivial
    · simp only [perform, Session.migrate, hs]
      refine .inr ⟨db, new, hdb, ?_, rfl⟩
      rcases Database.migrate_eq_ok.1 hx with ⟨hc, hn⟩ | ⟨hb, hn⟩ <;> rw [hn]
      · exact .current hc
      · exact .schema hb

/-! ## Histories -/

namespace Session

variable {s : Session}

/-- What storing keeps, a history keeps. -/
theorem after_invariant {P : Session → Prop}
    (hP : ∀ s db new, s.database = .ok db → db.Moves new → P s → P (s.store new)) (hs : P s)
    (history : List Operation) : P (s.after history) := by
  induction history generalizing s with
  | nil => exact hs
  | cons o rest ih =>
    rw [after, List.foldl_cons]
    rcases o.perform_cases s with ho | ⟨db, new, hdb, hmove, ho⟩ <;> rw [ho]
    · exact ih hs
    · exact ih (hP s db new hdb hmove hs)

/-- What every change that an operation can make to a database keeps, a history keeps. -/
theorem after_keeps {P : Database → Prop} (hP : ∀ db new, db.Moves new → P db → P new) {db : Database}
    (h : s.database = .ok db) (hdb : P db) (history : List Operation) :
    ∃ new, (s.after history).database = .ok new ∧ P new := by
  refine after_invariant (P := fun s => ∃ db, s.database = .ok db ∧ P db) ?_ ⟨db, h, hdb⟩ history
  rintro s old new hold hmove ⟨db, hdb, hPdb⟩
  obtain rfl : old = db := Except.ok.inj (hold.symm.trans hdb)
  exact ⟨new, database_store hdb new, hP _ _ hmove hPdb⟩

theorem Alike.replies {a b : Session} (h : a.Alike b) (history : List Operation) :
    a.replies history = b.replies history ∧ (a.after history).Alike (b.after history) :=
  alike_bisimulation.replies h history

end Session

end ShapeLedger.Ledger
