/-
Histories of a ledger: what holds of the tables after any sequence of operations on a freshly
migrated database, those that fail included. One operation keeps the tables well-formed and only
adds to them; so does a history, by induction on it.
-/
import ShapeLedger.Proofs.Ledger.Call

namespace ShapeLedger.Ledger

/-! ## Operations -/

/-- What may be asked of a ledger. -/
inductive Operation where
  | create (c : Call)
  | insert (c : Call)
  | getUser (id : Int)
  | getExpense (id : Int)
  | migrate
deriving DecidableEq, Repr

/-- What an operation that succeeds answers. -/
inductive Reply where
  | row (r : Row)
  | id (id : Int)
  | done
deriving DecidableEq, Repr

namespace Operation

/-- The answer to an operation, and the session after it. -/
def perform (o : Operation) (s : Session) : Except Error Reply × Session :=
  match o with
  | create c => ((c.create s).1.map .row, (c.create s).2)
  | insert c => ((c.insert s).1.map .id, (c.insert s).2)
  | getUser id => ((s.getUser id).map (fun r => .row (.user r)), s)
  | getExpense id => ((s.getExpense id).map (fun x => .row (.expense x)), s)
  | migrate => (s.migrate.1.map (fun _ => .done), s.migrate.2)

end Operation

/-- The session after a history of operations. -/
def Session.after (s : Session) (history : List Operation) : Session :=
  history.foldl (fun s o => (o.perform s).2) s

/-- A database that a history makes of a freshly migrated one. -/
def Database.Reachable (db : Database) : Prop :=
  ∃ s : Session, ∃ history, s.database = .ok .fresh ∧ (s.after history).database = .ok db

theorem Database.Reachable.fresh : Database.fresh.Reachable :=
  ⟨Session.inMemory Files.Directory.empty, [], rfl, rfl⟩

/-! ## One operation -/

/-- A call with both turns leaves the session where its first turn does. -/
theorem Call.create_state (c : Call) (s : Session) : (c.create s).2 = (c.insert s).2 := by
  rw [create_eq]
  rcases c.insert s with ⟨e | id, s'⟩ <;> rfl

theorem Call.insert_grows {s : Session} {t : Tables} (h : s.Holds t) (hw : t.WF) (c : Call) :
    ∃ t', (c.insert s).2.Holds t' ∧ t'.WF ∧ t.Extends t' := by
  rcases insert_cases h c with ⟨e, he⟩ | ⟨s', hi, hf, -, -, h', -, -⟩
  · rw [he]; exact ⟨t, h, hw, .refl t⟩
  · rw [hi]; exact ⟨c.add t, h', wf_add hw hf, extends_add c t⟩

/-- An operation keeps the tables well-formed, and all that is in them. -/
theorem Operation.perform_grows {s : Session} {t : Tables} (h : s.Holds t) (hw : t.WF) (o : Operation) :
    ∃ t', (o.perform s).2.Holds t' ∧ t'.WF ∧ t.Extends t' := by
  cases o with
  | create c =>
    simp only [perform, Call.create_state]
    exact Call.insert_grows h hw c
  | insert c => exact Call.insert_grows h hw c
  | getUser id => exact ⟨t, h, hw, .refl t⟩
  | getExpense id => exact ⟨t, h, hw, .refl t⟩
  | migrate => exact ⟨t, Session.migrate_state h, hw, .refl t⟩

/-! ## Histories -/

theorem Session.after_append (s : Session) (earlier later : List Operation) :
    s.after (earlier ++ later) = (s.after earlier).after later := List.foldl_append

/-- What one operation keeps, a history keeps. -/
theorem Session.after_grows {s : Session} {t : Tables} (h : s.Holds t) (hw : t.WF)
    (history : List Operation) : ∃ t', (s.after history).Holds t' ∧ t'.WF ∧ t.Extends t' := by
  induction history generalizing s t with
  | nil => exact ⟨t, h, hw, .refl t⟩
  | cons o rest ih =>
    obtain ⟨t₁, h₁, w₁, x₁⟩ := o.perform_grows h hw
    obtain ⟨t₂, h₂, w₂, x₂⟩ := ih h₁ w₁
    exact ⟨t₂, h₂, w₂, x₁.trans x₂⟩

/-- Every database that can be reached has an up-to-date schema and well-formed tables. -/
theorem Database.Reachable.wf {db : Database} (h : db.Reachable) :
    ∃ t, db = ⟨schemaVersion, some t⟩ ∧ t.WF := by
  obtain ⟨s, history, h₀, h₁⟩ := h
  obtain ⟨t, ht, hw, -⟩ := Session.after_grows (t := .empty) h₀ Tables.empty_wf history
  exact ⟨t, Except.ok.inj (h₁.symm.trans ht), hw⟩

/-- Whatever is done to a freshly migrated database: the tables are well-formed, so the usernames
differ byte for byte, every expense has a stored user, no amount is NaN and the ids of each table
are 1, 2, … in the order of creation; and the tables of every earlier moment are the beginnings of
those of every later one. -/
theorem history_wf_extends (s : Session) (fresh : s.database = .ok .fresh)
    (earlier later : List Operation) :
    ∃ t t', (s.after earlier).Holds t ∧ (s.after (earlier ++ later)).Holds t' ∧ t.WF ∧ t'.WF ∧
      t.Extends t' := by
  obtain ⟨t, h, hw, -⟩ := Session.after_grows (t := .empty) fresh Tables.empty_wf earlier
  obtain ⟨t', h', hw', hx⟩ := Session.after_grows h hw later
  exact ⟨t, t', h, by rw [Session.after_append]; exact h', hw, hw', hx⟩

/-- A history with a taken name, an unknown user and a NaN in it. -/
theorem history_wf_extends_failures :
    (Session.inMemory Files.Directory.empty).database = .ok .fresh ∧
      ∃ t t',
        ((Session.inMemory Files.Directory.empty).after [.create (.user ⟨"ada"⟩ "1")]).Holds t ∧
        ((Session.inMemory Files.Directory.empty).after ([.create (.user ⟨"ada"⟩ "1")] ++
          [.insert (.user ⟨"ada"⟩ "2"), .create (.expense ⟨.nan, none, 1⟩ "3"),
            .insert (.expense ⟨.ofNat 5, some "tea", 7⟩ "4"), .migrate, .getUser 2,
            .create (.expense ⟨.ofNat 5, some "tea", 1⟩ "5")])).Holds t' ∧
        t.WF ∧ t'.WF ∧ t.Extends t' :=
  ⟨rfl, history_wf_extends _ rfl _ _⟩

end ShapeLedger.Ledger
