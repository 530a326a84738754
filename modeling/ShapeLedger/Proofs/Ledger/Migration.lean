/-
What a migration does to a database, whatever its version and its tables. It succeeds on a database that
is up to date, which it leaves alone, and on a blank one that may be written, which it makes a fresh one;
anything else it refuses and leaves alone. So a migration matters once, on a blank database: from any other
on, migrations can be left out of a history without anyone noticing.
-/
import ShapeLedger.Proofs.Ledger.Replies

namespace ShapeLedger.Ledger

/-- What a migration does to a session with the database `db` behind its pool. -/
structure Session.Migrates (s : Session) (db : Database) : Prop where
  succeeds : s.migrate.1 = .ok () ↔ s.pool.poisoned = false ∧
    (db.version = 1 ∨ db.version = 0 ∧ db.tables = none ∧ s.pool.home.writable = true)
  /-- At the version of the schema nothing changes. -/
  current : db.version = 1 → s.migrate.2.Alike s
  /-- At version zero a migration that succeeds gives a fresh database. -/
  made : db.version = 0 → s.migrate.1 = .ok () → s.migrate.2.database = .ok .fresh
  /-- A migration that fails changes nothing, and it fails for the schema unless the lock is poisoned. -/
  fails : ∀ e, s.migrate.1 = .error e →
    ((∃ misfit, e = .migration misfit) ∨ s.pool.poisoned = true ∧ e = .poisoned) ∧ s.migrate.2 = s
  /-- Unless the database is blank, migrations at any places of a history change neither the answers to
  its other operations nor what is stored in the end. -/
  idle : ¬ (db.version = 0 ∧ db.tables = none) → ∀ history,
    (s.replies history).filter (fun x => x.1 ≠ .migrate) = s.replies (history.filter (· ≠ .migrate)) ∧
      (s.after history).Alike (s.after (history.filter (· ≠ .migrate)))

/-! ## Databases -/

namespace Database

variable {db new : Database}

theorem eq_blank_iff : db = blank ↔ db.version = 0 ∧ db.tables = none := by
  obtain ⟨version, tables⟩ := db
  rw [blank, mk.injEq]

theorem migrate_eq_error {e : Error} (h : db.migrate = .error e) : ∃ misfit, e = .migration misfit := by
  unfold migrate at h
  split at h
  · cases h
  · split at h
    · split at h <;> cases h
      exact ⟨_, rfl⟩
    · cases h
      exact ⟨_, rfl⟩

/-- A database that is not blank does not become so. -/
theorem Moves.ne_blank (h : db.Moves new) (hb : db ≠ blank) : new ≠ blank := by
  cases h with
  | add c ht => exact fun he => by simpa [blank] using congrArg tables he
  | current _ => exact hb
  | schema _ => decide

/-- A database that is up to date stays so. -/
theorem Moves.version (h : db.Moves new) (hv : db.version = schemaVersion) : new.version = schemaVersion := by
  cases h with
  | add c ht => exact hv
  | current _ => exact hv
  | schema _ => rfl

end Database

/-! ## Migrations -/

namespace Session

section
variable {s : Session} {db : Database}

/-- A migration fails and changes nothing, or stores what it makes of the database. -/
theorem migrate_cases (s : Session) :
    (∃ e, s.migrate = (.error e, s) ∧
      ((∃ misfit, e = .migration misfit) ∨ s.pool.poisoned = true ∧ e = .poisoned)) ∨
    ∃ db new, s.database = .ok db ∧ db.migrate = .ok ((), new) ∧ s.migrate = (.ok (), s.store new) := by
  rw [migrate, run_eq]
  cases hv : s.verdict (fun _ => .migration .unusable) (·.migrate) with
  | ok x =>
    obtain ⟨-, db, hdb, hx, -⟩ := verdict_eq_ok.1 hv
    exact .inr ⟨db, x.2, hdb, hx, rfl⟩
  | error e =>
    refine .inl ⟨e, rfl, ?_⟩
    unfold verdict at hv
    -- first the lock, then the file, then the right to write, then the schema
    split at hv
    · next hp => cases hv; exact .inr ⟨hp, rfl⟩
    · split at hv
      · cases hv; exact .inl ⟨_, rfl⟩
      · split at hv
        · cases hv; exact .inl ⟨_, rfl⟩
        · exact .inl (Database.migrate_eq_error hv)

theorem migrate_eq_ok : s.migrate.1 = .ok () ↔
    ∃ new, s.verdict (fun _ => .migration .unusable) (·.migrate) = .ok ((), new) := by
  rw [migrate, run_eq]
  cases s.verdict (fun _ => .migration .unusable) (·.migrate) with
  | error e => simp
  | ok x => exact iff_of_true rfl ⟨x.2, rfl⟩

/-- A migration succeeds on a database that is up to date, and on a blank one that may be written. -/
theorem migrate_ok_iff (h : s.database = .ok db) : s.migrate.1 = .ok () ↔ s.pool.poisoned = false ∧
    (db.version = Database.schemaVersion ∨ db = .blank ∧ s.pool.home.writable = true) := by
  simp only [migrate_eq_ok, verdict_eq_ok, Database.migrate_eq_ok]
  constructor
  · rintro ⟨new, hp, db', hdb', hnew, hw⟩
    obtain rfl : db' = db := Except.ok.inj (hdb'.symm.trans h)
    refine ⟨hp, ?_⟩
    rcases hnew with ⟨hc, -⟩ | ⟨hb, hn⟩
    · exact .inl hc
    · -- a fresh database is not the blank one, so it has to be written
      refine .inr ⟨hb, hw.resolve_right fun hsame => ?_⟩
      rw [← hsame, hn] at hb
      cases hb
  · rintro ⟨hp, hc | ⟨hb, hw⟩⟩
    · exact ⟨db, hp, db, h, .inl ⟨hc, rfl⟩, .inr rfl⟩
    · exact ⟨.fresh, hp, db, h, .inr ⟨hb, rfl⟩, .inl hw⟩

/-- Only a blank database is changed by a migration. -/
theorem migrate_alike (h : s.database = .ok db) (hb : db ≠ .blank) : s.migrate.2.Alike s := by
  rcases s.migrate_cases with ⟨e, he, -⟩ | ⟨db', new, hdb', hnew, hm⟩
  · rw [he]; exact .refl s
  · obtain rfl : db' = db := Except.ok.inj (hdb'.symm.trans h)
    rcases Database.migrate_eq_ok.1 hnew with ⟨-, rfl⟩ | ⟨hblank, -⟩
    · rw [hm]; exact store_same h
    · exact absurd hblank hb

/-- One operation on a database that is not blank leaves it so. -/
theorem perform_ne_blank (h : s.database = .ok db) (hb : db ≠ .blank) (o : Operation) :
    ∃ new, (o.perform s).2.database = .ok new ∧ new ≠ .blank :=
  after_keeps (P := (· ≠ .blank)) (fun _ _ hm => hm.ne_blank) h hb [o]

/-- From a database that is not blank on, migrations can be left out of a history. -/
theorem replies_without_migrations (h : s.database = .ok db) (hb : db ≠ .blank) (history : List Operation) :
    (s.replies history).filter (fun x => x.1 ≠ .migrate) = s.replies (history.filter (· ≠ .migrate)) ∧
      (s.after history).Alike (s.after (history.filter (· ≠ .migrate))) := by
  induction history generalizing s db with
  | nil => exact ⟨rfl, .refl s⟩
  | cons o rest ih =>
    by_cases ho : o = .migrate
    · subst ho
      -- the rest of the history is answered as if the migration had not been
      obtain ⟨hr, ha⟩ := (migrate_alike h hb).replies rest
      obtain ⟨hrest, hafter⟩ := ih h hb
      exact ⟨(congrArg (List.filter fun x => x.1 ≠ .migrate) hr).trans hrest, ha.trans hafter⟩
    · obtain ⟨new, hnew, hnb⟩ := perform_ne_blank h hb o
      obtain ⟨hrest, hafter⟩ := ih hnew hnb
      have hfilter : (o :: rest).filter (· ≠ .migrate) = o :: rest.filter (· ≠ .migrate) :=
        List.filter_cons_of_pos (by simpa using ho)
      rw [hfilter]
      refine ⟨?_, hafter⟩
      rw [replies, replies, List.filter_cons_of_pos (by simpa using ho), hrest]

/-- A migration of a database of any version, with any tables or none. -/
theorem migration_settled (s : Session) (db : Database) (h : s.database = .ok db) : s.Migrates db := by
  refine ⟨?_, ?_, ?_, ?_, ?_⟩
  · rw [migrate_ok_iff h, Database.eq_blank_iff, and_assoc]
    rfl
  · intro hc
    exact migrate_alike h fun hb => by rw [hb] at hc; cases hc
  · intro hv hok
    rcases s.migrate_cases with ⟨e, he, -⟩ | ⟨db', new, hdb', hnew, hm⟩
    · rw [he] at hok; cases hok
    · obtain rfl : db' = db := Except.ok.inj (hdb'.symm.trans h)
      rcases Database.migrate_eq_ok.1 hnew with ⟨hc, -⟩ | ⟨-, rfl⟩
      · rw [hv] at hc; cases hc
      · rw [hm]; exact database_store h _
  · intro e he
    rcases s.migrate_cases with ⟨e', hm, hkind⟩ | ⟨db', new, -, -, hm⟩
    · rw [hm] at he ⊢
      cases he
      exact ⟨hkind, rfl⟩
    · rw [hm] at he; cases he
  · intro hb
    exact replies_without_migrations h fun he => hb (Database.eq_blank_iff.1 he)

end

/-- A database of version 7 with a user in it: its migration fails, its other operations go on. -/
theorem migration_settled_tooFarAhead :
    (⟨Files.Directory.empty, ⟨.memory ⟨7, some (Tables.empty.addUser ⟨"ada"⟩ "1")⟩ true, false⟩⟩ : Session).database =
        .ok ⟨7, some (Tables.empty.addUser ⟨"ada"⟩ "1")⟩ ∧
      (⟨Files.Directory.empty, ⟨.memory ⟨7, some (Tables.empty.addUser ⟨"ada"⟩ "1")⟩ true, false⟩⟩ : Session).Migrates
        ⟨7, some (Tables.empty.addUser ⟨"ada"⟩ "1")⟩ :=
  ⟨rfl, migration_settled _ _ rfl⟩

/-- Opening a file of the working directory by a URI that asks for reading only. -/
theorem openPath_readOnly {disk : Disk} {c : Contents} (habove : disk.above = [])
    (hentry : disk.entry? ["a.db"] = some (.file c)) :
    openPath disk (Path.ofString "file:a.db?mode=ro") = (.ok ⟨disk, ⟨.file ["a.db"] false, false⟩⟩, disk) := by
  have hparent : (Path.ofString "file:a.db?mode=ro").parent? = some ⟨.none, []⟩ := by decide +kernel
  have hmade : disk.makeDirectories ⟨.none, []⟩ = (.ok (), disk) := by
    rw [Files.Directory.makeDirectories]
    rfl
  have hnul : nulPosition? (Path.ofString "file:a.db?mode=ro").toString = none := by decide +kernel
  have hlocator : Locator.ofPath (Path.ofString "file:a.db?mode=ro") =
      .ok ⟨⟨.none, ["a.db"]⟩, .readOnly, false, false⟩ := by
    decide +kernel
  -- the working directory is the root, so the way is no longer than the name
  have hleads : leadsTo disk ["a.db"] = true := by
    have hroot : disk.fromRoot (journalOf ["a.db"]) = ["a.db-journal"] := by
      rw [Files.Directory.fromRoot, habove]
      decide +kernel
    rw [leadsTo, hroot]
    rfl
  have hopen : openFile? disk ⟨⟨.none, ["a.db"]⟩, .readOnly, false, false⟩ =
      some ⟨disk, ⟨.file ["a.db"] false, false⟩⟩ := by
    have hplace : Files.Directory.destination (⟨.none, ["a.db"]⟩ : Path) = ["a.db"] := rfl
    simp only [openFile?, hplace, hleads, hentry]
    rfl
  have hprivate : Locator.isPrivate ⟨⟨.none, ["a.db"]⟩, .readOnly, false, false⟩ = false := rfl
  simp only [openPath, hparent, hmade, hnul, openLocated, hlocator, hprivate, hopen, Bool.false_eq_true, if_false]

/-- An empty file that may only be read holds a blank database, and its migration fails. -/
theorem readOnly_unmigrated :
    ∃ disk s, openPath disk (Path.ofString "file:a.db?mode=ro") = (.ok s, disk) ∧ s.pool.poisoned = false ∧
      s.database = .ok .blank ∧ s.migrate.1 = .error (.migration .unusable) := by
  let disk : Disk := Files.Directory.empty.put ["a.db"] (.file (.bytes []))
  have hentry : disk.entry? ["a.db"] = some (.file (.bytes [])) := Files.Directory.entry?_put (by decide) _
  exact ⟨disk, ⟨disk, ⟨.file ["a.db"] false, false⟩⟩, openPath_readOnly rfl hentry, rfl, rfl, rfl⟩

end Session

end ShapeLedger.Ledger
