/-
What a panic under the lock of a pool comes to. Every later action on the pool is refused for it and changes
nothing (`act_poisoned`), and the panic itself changes nothing but the lock. So a file of which the pool was
is as it was before the panic, and a new pool on it goes on from there.
-/
import ShapeLedger.Proofs.Ledger.Replacement

namespace ShapeLedger.Ledger

open Files

/-- A panic under the lock of a session that has come from the opening `o`, and what is done with the pool
later. -/
structure FailStop (o : Opening) (s : Session) (later : List Action) : Prop where
  silent : ∀ r ∈ (s.poison.2.act later).1, r = .error .poisoned
  still : (s.poison.2.act later).2 = s.poison.2
  /-- Only the lock shows the panic. -/
  kept : s.poison.2.disk = s.disk ∧ s.poison.2.database = s.database
  /-- A pool on a file that was opened with its schema is resumed when its path is opened anew. -/
  resumed : ∀ p l w, o = .file p → s.pool.home = .file l w →
    ∃ t, Session.ready (Session.openPath (s.poison.2.act later).2.disk p) = (.ok t, t.disk) ∧ s.Resumes t
  /-- One that was opened as it is can be opened anew by its path and by every other one that opens the file;
  and with its schema if that has been made or can be made now. -/
  reopened : ∀ p l w, o = .bareFile p → s.pool.home = .file l w →
    Session.Opens p l w (s.poison.2.act later).2.disk ∧
    ∀ q w' db, Session.Opens q l w' (s.poison.2.act later).2.disk → s.database = .ok db →
      (db.version = Database.schemaVersion ∨ db = .blank ∧ w' = true) →
      ∃ t, Session.ready (Session.openPath (s.poison.2.act later).2.disk q) = (.ok t, t.disk) ∧
        t.pool = ⟨.file l w', false⟩ ∧ t.database = .ok db.upgraded

/-! ## A poisoned lock -/

namespace Session

variable {s : Session}

theorem poison_poisoned (s : Session) : s.poison.2.pool.poisoned = true := by
  unfold poison
  split
  · assumption
  · rfl

theorem poison_kept (s : Session) : s.poison.2.disk = s.disk ∧ s.poison.2.database = s.database := by
  unfold poison
  split <;> exact ⟨rfl, rfl⟩

theorem look_poisoned {α : Type} (h : s.pool.poisoned = true) (op : Database → Except Error α) :
    s.look op = .error .poisoned := if_pos h

end Session

/-- Under a poisoned lock no operation gets anywhere. -/
theorem Operation.perform_poisoned {s : Session} (h : s.pool.poisoned = true) (o : Operation) :
    o.perform s = (.error .poisoned, s) := by
  have hinsert (c : Call) : c.insert s = (.error .poisoned, s) := by
    cases c <;> exact Session.run_poisoned h
  cases o with
  | create c =>
    simp only [perform, Call.create_eq, hinsert c]
    rfl
  | insert c => simp only [perform, hinsert c]; rfl
  | getUser id => simp only [perform, Session.getUser, Session.look_poisoned h]; rfl
  | getExpense id => simp only [perform, Session.getExpense, Session.look_poisoned h]; rfl
  | migrate => simp only [perform, Session.migrate, Session.run_poisoned h]; rfl

theorem Action.run_poisoned {s : Session} (h : s.pool.poisoned = true) (a : Action) :
    a.run s = (.error .poisoned, s) := by
  cases a with
  | perform o => exact o.perform_poisoned h
  | setVersion version => simp only [run, Session.setVersion, Session.run_poisoned h]; rfl
  | poison => simp only [run, Session.poison, h, if_true]; rfl

namespace Session

/-- Under a poisoned lock all actions are refused, and leave the session as it is. -/
theorem act_poisoned {s : Session} (h : s.pool.poisoned = true) (actions : List Action) :
    (∀ r ∈ (s.act actions).1, r = .error .poisoned) ∧ (s.act actions).2 = s := by
  induction actions with
  | nil => exact ⟨fun r hr => absurd hr List.not_mem_nil, rfl⟩
  | cons a rest ih =>
    rw [act, a.run_poisoned h]
    exact ⟨List.forall_mem_cons.2 ⟨rfl, ih.1⟩, ih.2⟩

/-! ## The file of a poisoned pool -/

/-- A panic in any pool, after any history of it: every later action is refused for it, nothing that is
stored changes, and the file is opened anew with all that was in it. -/
theorem panic_failStop {disk d : Disk} {o : Opening} {s : Session} (opened : o.run disk = (.ok s, d))
    (history : List Operation) (later : List Action) : FailStop o (s.after history) later := by
  obtain ⟨hsilent, hstill⟩ := act_poisoned (poison_poisoned (s.after history)) later
  have hkept := poison_kept (s.after history)
  refine ⟨hsilent, hstill, hkept, fun p l w ho hh => ?_, fun p l w ho hh => ?_⟩ <;> rw [hstill, hkept.1]
  · subst ho
    obtain ⟨-, hlodged, db₀, hdb₀, hv₀⟩ := ready_openPath_ok opened
    obtain ⟨db, hdb, hv⟩ := after_keeps (fun _ _ hmove => hmove.version) hdb₀ hv₀ history
    cases hlodged.after history with
    | memory _ hpool => rw [hpool] at hh; cases hh
    | file _ hpool hopens => exact hopens.resumes hpool (.refl _ _) hdb hv
  · subst ho
    obtain ⟨-, hlodged⟩ := openPath_ok opened
    cases hlodged.after history with
    | memory _ hpool => rw [hpool] at hh; cases hh
    | file _ hpool hopens =>
      rw [hpool] at hh
      cases hh
      exact ⟨hopens, fun q w' db hq hdb hc => hq.ready (database_spares (by rw [hpool]) hdb (.refl _ _)) hc⟩

/-- A panic on the pool of an empty file that has got a user, and what is asked of the pool afterwards. -/
theorem panic_failStop_user : ∃ s d,
    (Opening.file ⟨.none, ["a.db"]⟩).run (Directory.empty.put ["a.db"] (.file (.bytes []))) = (.ok s, d) ∧
      FailStop (.file ⟨.none, ["a.db"]⟩) (s.after [.create (.user ⟨"ada"⟩ "1")])
        [.perform (.getUser 1), .perform (.create (.user ⟨"eve"⟩ "2")), .perform .migrate, .poison] := by
  obtain ⟨s, opened⟩ := ready_emptyFile
  exact ⟨s, s.disk, opened, panic_failStop (o := .file ⟨.none, ["a.db"]⟩) opened _ _⟩

end Session

end ShapeLedger.Ledger
