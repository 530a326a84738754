/-
Opening databases. An opening adds what its path needs, which are directories and an empty file, and takes
nothing away but files beside the database. What a path has opened in a file it opens again from every later
disk that has kept what was there (`Opens`), and the database that is shown then is the one that the file holds
by that time.
-/
import ShapeLedger.Proofs.Ledger.Migration

namespace ShapeLedger.Ledger

open Files

/-! ## Definitions -/

/-- The ways to a pool: on a private database or on that of a path, with its schema brought up to date or as
it is. -/
inductive Opening where
  | memory
  | bareMemory
  | file (p : Path)
  | bareFile (p : Path)

namespace Opening

/-- The session that has been opened, or why none has been, and the disk that is left. -/
def run (o : Opening) (disk : Disk) : Except Error Session × Disk :=
  match o with
  | memory => (.ok (Session.inMemory disk), disk)
  | bareMemory => (.ok (Session.openMemory disk), disk)
  | file p => Session.ready (Session.openPath disk p)
  | bareFile p => Session.openPath disk p

def path? : Opening → Option Path
  | memory => none
  | bareMemory => none
  | file p => some p
  | bareFile p => some p

end Opening

/-- The location of the file that a path stands for, if it stands for one. -/
def place? (p : Path) : Option Location :=
  match Locator.ofPath p with
  | .error _ => none
  | .ok locator => if locator.isPrivate then none else some (Directory.destination locator.file)

theorem place?_eq_some {p : Path} {locator : Locator} (hloc : Locator.ofPath p = .ok locator)
    (hpriv : locator.isPrivate = false) : place? p = some (Directory.destination locator.file) := by
  simp only [place?, hloc, hpriv]
  rfl

/-- A path of a file: not empty, and neither the name of a private database nor a URI. -/
structure Ordinary (p : Path) : Prop where
  written : p.isEmpty = false
  stored : p.toString ≠ ":memory:"
  plain : p.toString.startsWith "file:" = false

/-- A blank database gets the schema; any other one stays as it is. -/
def Database.upgraded (db : Database) : Database := if db = blank then fresh else db

theorem Database.upgraded_of_current {db : Database} (h : db.version = schemaVersion) : db.upgraded = db :=
  if_neg fun hb => by rw [hb] at h; cases h

namespace Session

/-- The directories that a path needs, made. -/
def prepare (disk : Disk) (p : Path) : Except FileError Unit × Disk :=
  match p.parent? with
  | none => (.ok (), disk)
  | some q => disk.makeDirectories q

/-- On this disk the path opens the file at `l`, which is there. -/
structure Opens (p : Path) (l : Location) (writable : Bool) (disk : Disk) : Prop where
  noNul : nulPosition? p.toString = none
  above : ∀ q, p.parent? = some q → q.isEmpty = true ∨ disk.isDirectory q = true
  located : ∃ locator, Locator.ofPath p = .ok locator ∧ locator.isPrivate = false ∧
    Directory.destination locator.file = l ∧ locator.writable = writable
  leads : leadsTo disk l = true
  there : disk.kind? l = some (.file ())

/-- Where the pool of a session is that has been opened by a path, and has not been poisoned. -/
inductive Lodged (p : Path) (s : Session) : Prop where
  | memory {db : Database} {w : Bool} (noPlace : place? p = none) (pool : s.pool = ⟨.memory db w, false⟩)
  | file {l : Location} {w : Bool} (place : place? p = some l) (pool : s.pool = ⟨.file l w, false⟩)
    (opens : Opens p l w s.disk)

/-- One session goes on where another one has stopped: at a database with the schema of this version, with
the same rows, and with the same answers to whatever follows. -/
structure Resumes (earlier later : Session) : Prop where
  database : ∃ db, earlier.database = .ok db ∧ later.database = .ok db ∧ db.version = Database.schemaVersion
  rows : later.rows = earlier.rows
  replies : ∀ more, later.replies more = earlier.replies more

/-! ## One opening -/

section
variable {disk disk' : Disk} {p : Path} {l : Location} {w : Bool} {s : Session}

theorem prepare_spec (disk : Disk) (p : Path) : disk.Extends (prepare disk p).2 ∧
    ((prepare disk p).1 = .ok () →
      ∀ q, p.parent? = some q → q.isEmpty = true ∨ (prepare disk p).2.isDirectory q = true) := by
  unfold prepare
  cases hq : p.parent? with
  | none => exact ⟨.refl disk, fun _ q h => by cases h⟩
  | some q =>
    obtain ⟨hx, hd⟩ := Directory.makeDirectories_spec disk q
    exact ⟨hx, fun h q' hq' => by cases hq'; exact hd h⟩

theorem openPath_eq (disk : Disk) (p : Path) : openPath disk p =
    match prepare disk p with
    | (.error e, d) => (.error (.io e), d)
    | (.ok (), d) =>
      match nulPosition? p.toString with
      | some n => (.error (.connection (.nulInPath n)), d)
      | none =>
        match openLocated d p with
        | .error trouble => (.error (.connection trouble), d)
        | .ok s => (.ok s, s.disk) := by
  unfold openPath prepare
  cases p.parent? with
  | none => rfl
  | some q =>
    simp only
    rcases disk.makeDirectories q with ⟨_ | _, _⟩ <;> rfl

/-- An opening fails and leaves the directories that it has made, or opens what the path stands for. -/
theorem openPath_cases (disk : Disk) (p : Path) :
    (∃ e, openPath disk p = (.error e, (prepare disk p).2)) ∨
    ∃ s, openPath disk p = (.ok s, s.disk) ∧ (prepare disk p).1 = .ok () ∧ nulPosition? p.toString = none ∧
      openLocated (prepare disk p).2 p = .ok s := by
  rw [openPath_eq]
  rcases prepare disk p with ⟨e | _, d⟩
  · exact .inl ⟨_, rfl⟩
  · simp only
    cases nulPosition? p.toString with
    | some n => exact .inl ⟨_, rfl⟩
    | none =>
      simp only
      cases openLocated d p with
      | error trouble => exact .inl ⟨_, rfl⟩
      | ok s => exact .inr ⟨s, rfl, trivial, trivial, rfl⟩

theorem openFile?_eq_some {locator : Locator} : openFile? disk locator = some s ↔
    leadsTo disk (Directory.destination locator.file) = true ∧
    ∃ e, s = atFile e (Directory.destination locator.file) locator.writable ∧
      (disk.kind? (Directory.destination locator.file) = some (.file ()) ∧ e = disk ∨
        disk.entry? (Directory.destination locator.file) = none ∧ locator.access = .create ∧
          e = disk.put (Directory.destination locator.file) (.file (.bytes []))) := by
  unfold openFile?
  -- the way to the file is looked at first, and then what is at its end
  cases hl : leadsTo disk (Directory.destination locator.file) with
  | false => simp [hl]
  | true =>
    rcases he : disk.entry? (Directory.destination locator.file) with _ | c | _ <;>
      simp [hl, he, Directory.kind?, Entry.kind, eq_comm]
    exact and_comm

/-- What has been opened is private, or in the file of the path. -/
theorem openLocated_cases (h : openLocated disk p = .ok s) :
    (place? p = none ∧ ∃ writable, s = ⟨disk, ⟨.memory .blank writable, false⟩⟩) ∨
    ∃ locator, Locator.ofPath p = .ok locator ∧ locator.isPrivate = false ∧ openFile? disk locator = some s := by
  unfold openLocated at h
  split at h
  · cases h
  · next locator hloc =>
    split at h
    · next hp =>
      cases h
      exact .inl ⟨by simp only [place?, hloc, hp, if_true], _, rfl⟩
    · next hp =>
      split at h
      · next s' hs => cases h; exact .inr ⟨locator, hloc, by simpa using hp, hs⟩
      · cases h

/-- A pool is made on a file, and files beside that are removed. -/
theorem atFile_trims (disk : Disk) (l : Location) (w : Bool) :
    Directory.Trims (Sidecar l) disk (atFile disk l w).disk := by
  unfold atFile
  split
  · exact Disk.recovered_trims disk l
  · exact .refl disk

/-- The file at the location is there before the pool is made, or is made for it. -/
theorem openFile?_extends {locator : Locator} (h : openFile? disk locator = some s) :
    leadsTo disk (Directory.destination locator.file) = true ∧
    ∃ e, s = atFile e (Directory.destination locator.file) locator.writable ∧ disk.Extends e ∧
      e.kind? (Directory.destination locator.file) = some (.file ()) := by
  obtain ⟨hl, e, rfl, ⟨hk, rfl⟩ | ⟨hn, -, rfl⟩⟩ := openFile?_eq_some.1 h
  · exact ⟨hl, _, rfl, .refl _, hk⟩
  · have ha : Directory.isAround (Directory.destination locator.file) = false :=
      Directory.isAround_of_entry? (by rw [hn]; simp)
    refine ⟨hl, _, rfl, Directory.extends_put hn _, ?_⟩
    rw [Directory.kind?, Directory.entry?_put ha]
    rfl

/-- The places beside the database of a path. -/
def BesidePlace (p : Path) (k : Location) : Prop := ∃ l, place? p = some l ∧ Sidecar l k

/-- An opening takes nothing away but files beside the database, whether it succeeds or not. -/
theorem openPath_keeps (disk : Disk) (p : Path) :
    Directory.Keeps (BesidePlace p) disk (openPath disk p).2 := by
  obtain ⟨hx, -⟩ := prepare_spec disk p
  rcases openPath_cases disk p with ⟨e, he⟩ | ⟨s, hs, -, -, hl⟩
  · rw [he]
    exact hx.keeps
  · rw [hs]
    rcases openLocated_cases hl with ⟨-, w, rfl⟩ | ⟨locator, hloc, hpriv, ho⟩
    -- a private database is in no file, and for one in a file three things happen one after the other
    · exact hx.keeps
    · obtain ⟨-, e, rfl, he, -⟩ := openFile?_extends ho
      have htrims := (atFile_trims e (Directory.destination locator.file) locator.writable).keeps
      exact hx.keeps.trans (he.keeps.trans (htrims.mono fun k hk => ⟨_, place?_eq_some hloc hpriv, hk⟩))

/-- A way to a file stays open where the directories stay. -/
theorem leadsTo_mono (ha : disk'.above = disk.above)
    (hd : ∀ k, disk.entry? k = some .directory → disk'.entry? k = some .directory)
    (hl : leadsTo disk l = true) : leadsTo disk' l = true := by
  have hroot : disk'.fromRoot (journalOf l) = disk.fromRoot (journalOf l) := by
    unfold Directory.fromRoot
    rw [ha]
  unfold leadsTo at hl ⊢
  rw [hroot]
  simp only [Bool.and_eq_true, List.all_eq_true, List.mem_range, Directory.isDirectoryAt_iff] at hl ⊢
  obtain ⟨⟨hway, hnames⟩, hlength⟩ := hl
  exact ⟨⟨fun n hn => hd _ (hway n hn), hnames⟩, hlength⟩

theorem isDirectory_mono (hd : ∀ k, disk.entry? k = some .directory → disk'.entry? k = some .directory)
    (h : disk.isDirectory p = true) : disk'.isDirectory p = true := by
  obtain ⟨here, hlocate, hentry⟩ := Directory.isDirectory_iff.1 h
  exact Directory.isDirectory_iff.2 ⟨here, Directory.locate_mono hd hlocate, hd here hentry⟩

/-- What a path opens it opens ever after, as long as the file and the directories are there. -/
theorem Opens.mono (h : Opens p l w disk) (ha : disk'.above = disk.above)
    (hd : ∀ k, disk.entry? k = some .directory → disk'.entry? k = some .directory)
    (hl : disk'.kind? l = some (.file ())) : Opens p l w disk' where
  noNul := h.noNul
  above q hq := (h.above q hq).imp_right (isDirectory_mono hd)
  located := h.located
  leads := leadsTo_mono ha hd h.leads
  there := hl

/-- A pool that has been opened is private, or on the file of the path, which the path opens from then on. -/
theorem openPath_ok {d : Disk} (h : openPath disk p = (.ok s, d)) : d = s.disk ∧ Lodged p s := by
  obtain ⟨-, habove⟩ := prepare_spec disk p
  rcases openPath_cases disk p with ⟨e, he⟩ | ⟨t, ht, hmade, hnul, hl⟩
  · rw [he] at h; cases h
  · rw [ht] at h
    cases h
    refine ⟨rfl, ?_⟩
    rcases openLocated_cases hl with ⟨hplace, w, rfl⟩ | ⟨locator, hloc, hpriv, ho⟩
    · exact .memory hplace rfl
    · obtain ⟨hleads, e, rfl, hx, hk⟩ := openFile?_extends ho
      have htrims := atFile_trims e (Directory.destination locator.file) locator.writable
      -- before anything is removed the path opens the file already, and removing files keeps that so
      have hopens : Opens p (Directory.destination locator.file) locator.writable e := by
        refine ⟨hnul, fun q hq => ?_, ⟨locator, hloc, hpriv, rfl, rfl⟩,
          leadsTo_mono hx.above (fun k => hx.entry k _) hleads, hk⟩
        exact (habove hmade q hq).imp_right (isDirectory_mono fun k => hx.entry k _)
      exact .file (place?_eq_some hloc hpriv) rfl (hopens.mono htrims.above (fun _ => htrims.directory.2)
        (htrims.keeps.file _ Sidecar.not_self hk))

/-! ## Using what has been opened -/

/-- The file of a database that can be read is there. -/
theorem kind?_of_database {db : Database} (h : s.database = .ok db) (hh : s.pool.home = .file l w) :
    s.disk.kind? l = some (.file ()) := by
  simp only [database, hh] at h
  exact Disk.kind?_of_database h

theorem store_file (hh : s.pool.home = .file l w) (new : Database) :
    s.store new = ⟨s.disk.write l new, s.pool⟩ := by
  simp only [store, hh]

/-- A history leaves the pool on its file, and changes nothing else on the disk but files beside it. -/
theorem after_file (hh : s.pool.home = .file l w) (hk : s.disk.kind? l = some (.file ()))
    (history : List Operation) :
    (s.after history).pool = s.pool ∧ Directory.Twins l (Blocking l) s.disk (s.after history).disk := by
  -- what is stored in a pool on this file writes the file, and leaves the pool on it
  refine after_invariant (P := fun t => t.pool = s.pool ∧ Directory.Twins l (Blocking l) s.disk t.disk) ?_
    ⟨rfl, .refl hk⟩ history
  rintro t db new hdb - ⟨hp, ht⟩
  have hfile : t.pool.home = .file l w := by rw [hp, hh]
  rw [store_file hfile]
  exact ⟨hp, ht.trans (Disk.twins_write (kind?_of_database hdb hfile) new)⟩

theorem Opens.twins (h : Opens p l w disk) (ht : Directory.Twins l (Blocking l) disk disk') : Opens p l w disk' :=
  h.mono ht.above.symm (fun _ => ht.directory.1) ht.here.2

theorem Opens.spares {beside : Location → Prop} (h : Opens p l w disk)
    (hs : Directory.Spares l beside disk disk') : Opens p l w disk' :=
  h.mono hs.above hs.directory (hs.keeps h.there)

/-- A history leaves the pool where it is. -/
theorem Lodged.after (h : Lodged p s) (history : List Operation) : Lodged p (s.after history) := by
  cases h with
  | @memory db w hplace hpool =>
    -- a private database changes with every statement, and stays private
    have hm : ∃ db, (s.after history).pool = ⟨.memory db w, false⟩ := by
      refine after_invariant (P := fun t => ∃ db, t.pool = ⟨.memory db w, false⟩) ?_ ⟨db, hpool⟩ history
      rintro t old new - - ⟨db, ht⟩
      exact ⟨new, by simp only [store, ht]⟩
    obtain ⟨new, hnew⟩ := hm
    exact .memory hplace hnew
  | @file l w hplace hpool hopens =>
    obtain ⟨hpool', htwins⟩ := after_file (by rw [hpool]) hopens.there history
    exact .file hplace (hpool'.trans hpool) (hopens.twins htwins)

/-! ## Opening again -/

/-- For what can be opened again no directory has to be made. -/
theorem Opens.prepare (h : Opens p l w disk) : Session.prepare disk p = (.ok (), disk) := by
  unfold Session.prepare
  cases hq : p.parent? with
  | none => rfl
  | some q => exact Directory.makeDirectories_of_isDirectory (h.above q hq)

/-- What can be opened again is opened. -/
theorem Opens.openPath (h : Opens p l w disk) :
    Session.openPath disk p = (.ok (atFile disk l w), (atFile disk l w).disk) := by
  obtain ⟨locator, hloc, hpriv, rfl, rfl⟩ := h.located
  have hfile : openFile? disk locator =
      some (atFile disk (Directory.destination locator.file) locator.writable) :=
    openFile?_eq_some.2 ⟨h.leads, disk, rfl, .inl ⟨h.there, rfl⟩⟩
  rw [openPath_eq, h.prepare]
  simp only [h.noNul, openLocated, hloc, hpriv, hfile]
  rfl

theorem ready_ok (s : Session) (d : Disk) :
    ready (.ok s, d) = (s.migrate.1.map (fun _ => s.migrate.2), s.migrate.2.disk) := by
  unfold ready
  simp only
  rcases s.migrate with ⟨_ | _, t⟩ <;> rfl

theorem ready_eq_ok {x : Except Error Session × Disk} {d : Disk} : ready x = (.ok s, d) ↔
    ∃ s₀ d₀, x = (.ok s₀, d₀) ∧ s₀.migrate = (.ok (), s) ∧ d = s.disk := by
  constructor
  · intro h
    obtain ⟨e | s₀, d₀⟩ := x
    · cases h
    · rw [ready_ok] at h
      rcases hm : s₀.migrate with ⟨e | _, t⟩ <;> rw [hm] at h <;> cases h
      exact ⟨s₀, d₀, rfl, hm, rfl⟩
  · rintro ⟨s₀, d₀, rfl, hm, rfl⟩
    rw [ready_ok, hm]
    rfl

/-- A migration that succeeds makes the schema where it is missing. -/
theorem migrate_upgraded {t : Session} (h : s.migrate = (.ok (), t)) :
    ∃ db, s.database = .ok db ∧ t.database = .ok db.upgraded ∧ db.upgraded.version = Database.schemaVersion := by
  rcases s.migrate_cases with ⟨e, he, -⟩ | ⟨db, new, hdb, hnew, hstore⟩
  · rw [h] at he; cases he
  · rw [h] at hstore
    cases hstore
    refine ⟨db, hdb, ?_⟩
    rw [database_store hdb]
    -- the schema was there, or the tables are made now
    rcases Database.migrate_eq_ok.1 hnew with ⟨hc, rfl⟩ | ⟨rfl, rfl⟩
    · rw [Database.upgraded_of_current hc]
      exact ⟨rfl, hc⟩
    · exact ⟨rfl, rfl⟩

/-- What has been opened with its schema is up to date. -/
theorem ready_openPath_ok {d : Disk} (h : ready (openPath disk p) = (.ok s, d)) : d = s.disk ∧ Lodged p s ∧
    ∃ db, s.database = .ok db ∧ db.version = Database.schemaVersion := by
  obtain ⟨s₀, d₀, hopen, hm, rfl⟩ := ready_eq_ok.1 h
  obtain ⟨db, -, hdb, hv⟩ := migrate_upgraded hm
  have hlodged := (openPath_ok hopen).2.after [.migrate]
  rw [show s₀.after [.migrate] = s from congrArg Prod.snd hm] at hlodged
  exact ⟨rfl, hlodged, _, hdb, hv⟩

/-- A path opens a database with its schema where that is made or can be made. -/
theorem Opens.ready {db : Database} (h : Opens p l w disk) (hdb : disk.database l = .ok db)
    (hc : db.version = Database.schemaVersion ∨ db = .blank ∧ w = true) :
    ∃ t, Session.ready (Session.openPath disk p) = (.ok t, t.disk) ∧ t.pool = ⟨.file l w, false⟩ ∧
      t.database = .ok db.upgraded := by
  have htrims := atFile_trims disk l w
  -- taking away what is beside the database leaves it as it is
  have hbefore : (atFile disk l w).database = .ok db := (Disk.agree_of_trims htrims).database.symm.trans hdb
  have hok : (atFile disk l w).migrate.1 = .ok () := (migrate_ok_iff hbefore).2 ⟨rfl, hc⟩
  have hm : (atFile disk l w).migrate = (.ok (), (atFile disk l w).migrate.2) := Prod.ext hok rfl
  have hpool := (after_file (s := atFile disk l w) rfl (htrims.keeps.file l Sidecar.not_self h.there) [.migrate]).1
  obtain ⟨db', hdb', ht, -⟩ := migrate_upgraded hm
  obtain rfl : db' = db := Except.ok.inj (hdb'.symm.trans hbefore)
  exact ⟨_, ready_eq_ok.2 ⟨_, _, h.openPath, hm, rfl⟩, hpool, ht⟩

/-- Where the file is as a session has left it, so is the database. -/
theorem database_spares {db : Database} (hh : s.pool.home = .file l w) (h : s.database = .ok db)
    (hd : Directory.Spares l (Blocking l) s.disk disk) : disk.database l = .ok db := by
  simp only [database, hh] at h
  obtain ⟨c, hc, hfree, hdb⟩ := Disk.database_eq_ok.1 h
  rw [Disk.obstruction?_eq_none] at hfree
  -- a directory in the way now would have been there before
  refine Disk.database_eq_ok.2 ⟨c, hd.here _ hc, Disk.obstruction?_eq_none.2 ⟨fun hj => ?_, fun ha => ?_⟩, hdb⟩
  · exact hfree.1 (hd.noDirectory _ .journal hj)
  · exact hfree.2 (hd.noDirectory _ .ahead ha)

/-- A session on a file is resumed from every disk that has kept the file as it was. -/
theorem Opens.resumes {db : Database} (h : Opens p l w disk) (hpool : s.pool = ⟨.file l w, false⟩)
    (hd : Directory.Spares l (Blocking l) s.disk disk) (hdb : s.database = .ok db)
    (hv : db.version = Database.schemaVersion) :
    ∃ t, Session.ready (Session.openPath disk p) = (.ok t, t.disk) ∧ s.Resumes t := by
  obtain ⟨t, hready, ht, hdatabase⟩ := h.ready (database_spares (by rw [hpool]) hdb hd) (.inl hv)
  rw [Database.upgraded_of_current hv] at hdatabase
  have halike : t.Alike s := ⟨by rw [ht, hpool], by rw [ht, hpool], hdatabase.trans hdb.symm⟩
  exact ⟨t, hready, ⟨db, hdb, hdatabase, hv⟩, halike.rows, fun more => (halike.replies more).1⟩

end

end Session

end ShapeLedger.Ledger
