/-
One pool after another. While a database in a file has no pool, others may be opened, used in any way and
dropped: those that are apart from it leave its file alone, so that opening its path again goes on where the
last pool on it stopped; and they are answered as if that pool had never been used, for two disks that differ
in its file and in files beside it only stay so (`Session.Twins`).

A pool that is not apart may do away with the file: the name that is given to one database may be that of the
journal of another one.
-/
import ShapeLedger.Proofs.Ledger.Opening

namespace ShapeLedger.Ledger

open Files

/-! ## Definitions -/

/-- What may be done with a pool. -/
inductive Action where
  | perform (o : Operation)
  | setVersion (version : Int)
  | poison

/-- The answer to an action, and the session after it. -/
def Action.run (a : Action) (s : Session) : Except Error Reply × Session :=
  match a with
  | perform o => o.perform s
  | setVersion version => ((s.setVersion version).1.map (fun _ => .done), (s.setVersion version).2)
  | poison => (s.poison.1.map (fun _ => .done), s.poison.2)

/-- The answers to some actions, and the session after them. -/
def Session.act (s : Session) : List Action → List (Except Error Reply) × Session
  | [] => ([], s)
  | a :: rest => ((a.run s).1 :: ((a.run s).2.act rest).1, ((a.run s).2.act rest).2)

/-- A pool with all that is done with it until it is dropped. -/
structure Excursion where
  opening : Opening
  actions : List Action

namespace Excursion

/-- The file that the excursion is about, if it is about one. -/
def place? (x : Excursion) : Option Location := x.opening.path?.bind Ledger.place?

/-- Why the pool could not be opened, or the answers that it has given; and the disk that is left. -/
def run (x : Excursion) (disk : Disk) : Except Error (List (Except Error Reply)) × Disk :=
  match x.opening.run disk with
  | (.error e, disk) => (.error e, disk)
  | (.ok s, _) => (.ok (s.act x.actions).1, (s.act x.actions).2.disk)

/-- Excursions one after the other. -/
def runAll (disk : Disk) : List Excursion → List (Except Error (List (Except Error Reply))) × Disk
  | [] => ([], disk)
  | x :: rest => ((x.run disk).1 :: (runAll (x.run disk).2 rest).1, (runAll (x.run disk).2 rest).2)

end Excursion

/-- The excursion keeps clear of the database at `l`: its own is apart from that, and no directory has to be
made for it in the way of that. -/
structure Excursion.ClearOf (l : Location) (x : Excursion) : Prop where
  apart : ∀ m, x.place? = some m → Apart l m
  way : ∀ q k, x.opening.path? = some q → Blocking l k → ¬ Directory.OnWay q k

namespace Session

/-- The database of the session is apart from the one at `l`. -/
def AwayFrom (l : Location) (s : Session) : Prop := ∀ m w, s.pool.home = .file m w → Apart l m

/-- The same session away from the database at `l`, in which the disks may differ, and in files that are
beside it. -/
structure Twins (l : Location) (a b : Session) : Prop where
  pool : a.pool = b.pool
  away : a.AwayFrom l
  disk : Directory.Twins l (Blocking l) a.disk b.disk

/-! ## What is done elsewhere -/

section
variable {s a b : Session} {l : Location}

theorem AwayFrom.store (h : s.AwayFrom l) {db : Database} (hdb : s.database = .ok db) (new : Database) :
    (s.store new).AwayFrom l ∧ Directory.Spares l (Blocking l) s.disk (s.store new).disk := by
  cases hh : s.pool.home with
  | memory old w =>
    simp only [Session.store, hh]
    exact ⟨fun m w' hm => by simp at hm, .refl l _⟩
  | file m w =>
    have ha := h m w hh
    rw [store_file hh]
    exact ⟨h, Disk.write_spares ha.ne.symm ha.notUnder (kind?_of_database hdb hh) new⟩

theorem AwayFrom.action (h : s.AwayFrom l) (a : Action) :
    (a.run s).2.AwayFrom l ∧ Directory.Spares l (Blocking l) s.disk (a.run s).2.disk := by
  cases a with
  | perform o =>
    simp only [Action.run]
    rcases o.perform_cases s with ho | ⟨db, new, hdb, -, ho⟩ <;> rw [ho]
    · exact ⟨h, .refl l _⟩
    · exact h.store hdb new
  | setVersion version =>
    simp only [Action.run, Session.setVersion]
    rcases s.run_cases .connection (fun db => .ok ((), { db with version })) with
      ⟨e, he⟩ | ⟨db, x, new, hdb, -, hs⟩
    · rw [he]; exact ⟨h, .refl l _⟩
    · rw [hs]; exact h.store hdb new
  | poison =>
    simp only [Action.run, Session.poison]
    split <;> exact ⟨h, .refl l _⟩

theorem AwayFrom.act (h : s.AwayFrom l) (actions : List Action) :
    Directory.Spares l (Blocking l) s.disk (s.act actions).2.disk := by
  induction actions generalizing s with
  | nil => exact .refl l _
  | cons a rest ih =>
    obtain ⟨ha, hd⟩ := h.action a
    exact hd.trans (ih ha)

theorem AwayFrom.migrate (h : s.AwayFrom l) :
    s.migrate.2.AwayFrom l ∧ Directory.Spares l (Blocking l) s.disk s.migrate.2.disk := h.action (.perform .migrate)

end

end Session

namespace Session

section
variable {disk : Disk} {p : Path} {l : Location}

/-- The directories that a path needs are made on its way. -/
theorem prepare_onWay (disk : Disk) (p : Path) :
    Directory.Adds (Directory.OnWay p) disk (prepare disk p).2 := by
  unfold prepare
  cases hq : p.parent? with
  | none => exact .refl disk
  | some q => exact (Directory.makeDirectories_adds disk q).mono fun k => Directory.onWay_of_above hq

/-- An opening that is clear of the database at `l` leaves its file alone. -/
theorem openPath_spares (happart : ∀ m, Ledger.place? p = some m → Apart l m)
    (hway : ∀ k, Blocking l k → ¬ Directory.OnWay p k) :
    Directory.Spares l (Blocking l) disk (openPath disk p).2 := by
  have hprepare : Directory.Spares l (Blocking l) disk (prepare disk p).2 :=
    (prepare_onWay disk p).spares (prepare_spec disk p).1.above hway
  rcases openPath_cases disk p with ⟨e, he⟩ | ⟨s, hs, -, -, hl⟩
  · rw [he]
    exact hprepare
  · rw [hs]
    rcases openLocated_cases hl with ⟨-, w, rfl⟩ | ⟨locator, hloc, hpriv, ho⟩
    · exact hprepare
    · obtain ⟨-, e, rfl, he⟩ := openFile?_eq_some.1 ho
      have ha : Apart l (Directory.destination locator.file) := happart _ (place?_eq_some hloc hpriv)
      refine hprepare.trans (.trans ?_ ((atFile_trims e _ _).spares ha.notUnder))
      rcases he with ⟨-, rfl⟩ | ⟨hn, -, rfl⟩
      · exact .refl l _
      · exact Directory.spares_put ha.ne.symm (by rw [hn]; simp)

end

end Session

/-- An opening that is clear of the database at `l` leaves its file alone, and so does what it has opened. -/
theorem Opening.run_elsewhere (o : Opening) (disk : Disk) {l : Location}
    (happart : ∀ m, o.path?.bind Ledger.place? = some m → Apart l m)
    (hway : ∀ q k, o.path? = some q → Blocking l k → ¬ Directory.OnWay q k) :
    Directory.Spares l (Blocking l) disk (o.run disk).2 ∧
      ∀ s d, o.run disk = (.ok s, d) → s.AwayFrom l ∧ d = s.disk := by
  -- a pool on a path, as it has been opened
  have hbare {p : Path} (hp : ∀ m, Ledger.place? p = some m → Apart l m) {s : Session} {d : Disk}
      (hs : Session.openPath disk p = (.ok s, d)) : s.AwayFrom l ∧ d = s.disk := by
    obtain ⟨hd, hlodged⟩ := Session.openPath_ok hs
    refine ⟨fun m w hm => ?_, hd⟩
    cases hlodged with
    | memory _ hpool => rw [hpool] at hm; cases hm
    | file hplace hpool _ =>
      rw [hpool] at hm
      cases hm
      exact hp _ hplace
  cases o with
  | memory => exact ⟨.refl l _, fun s d hs => by cases hs; exact ⟨fun m w hm => (by cases hm), rfl⟩⟩
  | bareMemory => exact ⟨.refl l _, fun s d hs => by cases hs; exact ⟨fun m w hm => (by cases hm), rfl⟩⟩
  | bareFile p => exact ⟨Session.openPath_spares happart fun k => hway p k rfl, fun s d hs => hbare happart hs⟩
  | file p =>
    have hx : Directory.Spares l (Blocking l) disk (Session.openPath disk p).2 :=
      Session.openPath_spares happart fun k => hway p k rfl
    simp only [run]
    rcases hopen : Session.openPath disk p with ⟨e | s₀, d₀⟩
    · rw [hopen] at hx
      exact ⟨hx, fun s d hs => by cases hs⟩
    · rw [hopen] at hx
      obtain ⟨haway, rfl⟩ := hbare happart hopen
      obtain ⟨haway', hd⟩ := haway.migrate
      refine ⟨?_, fun s d hs => ?_⟩
      · rw [Session.ready_ok]
        exact hx.trans hd
      · obtain ⟨_, _, hs₀, hm, rfl⟩ := Session.ready_eq_ok.1 hs
        cases hs₀
        rw [hm] at haway'
        exact ⟨haway', rfl⟩

namespace Excursion

variable {l : Location}

theorem run_elsewhere (x : Excursion) (disk : Disk) (h : x.ClearOf l) :
    Directory.Spares l (Blocking l) disk (x.run disk).2 := by
  obtain ⟨hd, hs⟩ := x.opening.run_elsewhere disk h.apart h.way
  unfold run
  rcases hopen : x.opening.run disk with ⟨e | s, d⟩ <;> rw [hopen] at hd
  · exact hd
  · obtain ⟨haway, rfl⟩ := hs s d hopen
    exact hd.trans (haway.act x.actions)

theorem runAll_elsewhere (xs : List Excursion) (disk : Disk) (h : ∀ x ∈ xs, x.ClearOf l) :
    Directory.Spares l (Blocking l) disk (runAll disk xs).2 := by
  induction xs generalizing disk with
  | nil => exact .refl l _
  | cons x rest ih =>
    have hx := x.run_elsewhere disk (h x List.mem_cons_self)
    exact hx.trans (ih _ fun y hy => h y (List.mem_cons_of_mem _ hy))

end Excursion

/-! ## Disks that differ in one file -/

namespace Session

variable {l : Location}

/-- A file is not at the working directory itself. -/
theorem ne_nil_of_file {d : Disk} (h : d.kind? l = some (.file ())) : l ≠ [] := by
  rintro rfl
  cases h

theorem Twins.database {a b : Session} (h : Twins l a b) : a.database = b.database := by
  unfold Session.database
  rw [← h.pool]
  cases hh : a.pool.home with
  | memory db w => rfl
  | file m w => exact (Disk.agree_of_twins h.disk (h.away m w hh)).database

theorem twins_bisimulation (l : Location) : Bisimulation (Twins l) := by
  -- twins show a pool the same database, and what it stores there is stored on both disks
  refine ⟨fun h => ⟨by rw [h.pool], by rw [h.pool], h.database⟩, fun {a b} h {db} hdb new => ?_⟩
  have haway := (h.away.store hdb new).1
  cases hh : a.pool.home with
  | memory old w =>
    have hb : b.pool.home = .memory old w := by rw [← h.pool, hh]
    refine ⟨?_, haway, ?_⟩
    · simp only [store, hb, h.pool]
    · simpa only [store, hh, hb] using h.disk
  | file m w =>
    have hb : b.pool.home = .file m w := by rw [← h.pool, hh]
    have hl : l ≠ [] := ne_nil_of_file h.disk.here.1
    have hm : m ≠ [] := ne_nil_of_file (kind?_of_database hdb hh)
    refine ⟨?_, haway, ?_⟩
    · rw [store_file hh, store_file hb, h.pool]
    · rw [store_file hh, store_file hb]
      exact Disk.write_twins h.disk hl hm (h.away m w hh) new

theorem Twins.action {a b : Session} (h : Twins l a b) (x : Action) :
    (x.run a).1 = (x.run b).1 ∧ Twins l (x.run a).2 (x.run b).2 := by
  cases x with
  | perform o => exact (twins_bisimulation l).perform h o
  | setVersion version =>
    have hv : (a.setVersion version).1 = (b.setVersion version).1 ∧
        Twins l (a.setVersion version).2 (b.setVersion version).2 := (twins_bisimulation l).run h
    exact ⟨congrArg (Except.map _) hv.1, hv.2⟩
  | poison =>
    simp only [Action.run, poison, ← h.pool]
    split
    · exact ⟨rfl, h⟩
    · exact ⟨rfl, rfl, h.away, h.disk⟩

theorem Twins.act {a b : Session} (h : Twins l a b) (actions : List Action) :
    (a.act actions).1 = (b.act actions).1 ∧
      Directory.Twins l (Blocking l) (a.act actions).2.disk (b.act actions).2.disk := by
  induction actions generalizing a b with
  | nil => exact ⟨rfl, h.disk⟩
  | cons x rest ih =>
    obtain ⟨hr, hs⟩ := h.action x
    obtain ⟨hrest, hd⟩ := ih hs
    exact ⟨by rw [Session.act, Session.act, hr, hrest], hd⟩

/-- Openings that have failed for the same reason, or have opened twins; on disks that are twins. -/
inductive TwinOpenings (l : Location) :
    Except Error Session × Disk → Except Error Session × Disk → Prop where
  | error (e : Error) {d d' : Disk} (h : Directory.Twins l (Blocking l) d d') :
      TwinOpenings l (.error e, d) (.error e, d')
  | ok {a b : Session} (h : Twins l a b) : TwinOpenings l (.ok a, a.disk) (.ok b, b.disk)

section
variable {d d' : Disk} {p : Path} {m : Location}

theorem prepare_twins (h : Directory.Twins l (Blocking l) d d')
    (hway : ∀ k, Blocking l k → ¬ Directory.OnWay p k) :
    (prepare d p).1 = (prepare d' p).1 ∧ Directory.Twins l (Blocking l) (prepare d p).2 (prepare d' p).2 := by
  unfold prepare
  cases hq : p.parent? with
  | none => exact ⟨rfl, h⟩
  | some q => exact h.makeDirectories q fun k hk hs => hway k hs (Directory.onWay_of_above hq hk)

theorem leadsTo_twins (h : Directory.Twins l (Blocking l) d d') (m : Location) : leadsTo d m = leadsTo d' m := by
  rw [Bool.eq_iff_iff]
  exact ⟨leadsTo_mono h.above.symm fun _ => h.directory.1, leadsTo_mono h.above fun _ => h.directory.2⟩

/-- Pools that are made on twins are twins. -/
theorem atFile_twins (h : Directory.Twins l (Blocking l) d d') (hm : m ≠ []) (ha : Apart l m) (w : Bool) :
    Twins l (atFile d m w) (atFile d' m w) := by
  refine ⟨rfl, fun m' w' hh => ?_, ?_⟩
  · cases hh
    exact ha
  · unfold atFile
    cases w with
    | false => exact h
    | true => exact Disk.recovered_twins h (ne_nil_of_file h.here.1) hm ha

theorem openFile?_twins (h : Directory.Twins l (Blocking l) d d') {locator : Locator}
    (ha : Apart l (Directory.destination locator.file)) :
    (openFile? d locator = none ∧ openFile? d' locator = none) ∨
      ∃ a b, openFile? d locator = some a ∧ openFile? d' locator = some b ∧ Twins l a b := by
  have hentry := h.elsewhere _ ha.ne ha.notBlocking
  have hm (hno : d.entry? (Directory.destination locator.file) ≠ some .directory) :
      Directory.destination locator.file ≠ [] := by
    intro hnil
    rw [hnil] at hno
    exact hno rfl
  unfold openFile?
  simp only [← leadsTo_twins h, ← hentry]
  split
  · exact .inl ⟨rfl, rfl⟩
  · split
    · exact .inl ⟨rfl, rfl⟩
    · next hc => exact .inr ⟨_, _, rfl, rfl, atFile_twins h (hm (by rw [hc]; simp)) ha _⟩
    · next hn =>
      split
      · exact .inr ⟨_, _, rfl, rfl, atFile_twins (h.put ha.ne ha.notBlocking _) (hm (by rw [hn]; simp)) ha _⟩
      · exact .inl ⟨rfl, rfl⟩

theorem openPath_twins (h : Directory.Twins l (Blocking l) d d') (happart : ∀ m, place? p = some m → Apart l m)
    (hway : ∀ k, Blocking l k → ¬ Directory.OnWay p k) :
    TwinOpenings l (openPath d p) (openPath d' p) := by
  -- the directories are made in both or in neither; then both openings look at the same entry
  obtain ⟨hmade, hd⟩ := prepare_twins h hway
  rw [openPath_eq, openPath_eq]
  generalize prepare d p = x at hmade hd
  generalize prepare d' p = y at hmade hd
  obtain ⟨⟨x, d⟩, ⟨y, d'⟩⟩ := x, y
  obtain rfl : x = y := hmade
  cases x with
  | error e => exact .error _ hd
  | ok _ =>
    simp only
    cases nulPosition? p.toString with
    | some n => exact .error _ hd
    | none =>
      unfold openLocated
      cases hloc : Locator.ofPath p with
      | error fault => exact .error _ hd
      | ok locator =>
        simp only
        cases hpriv : locator.isPrivate with
        | true => exact .ok ⟨rfl, fun m w hm => (by cases hm), hd⟩
        | false =>
          have ha : Apart l (Directory.destination locator.file) := happart _ (place?_eq_some hloc hpriv)
          rcases openFile?_twins hd ha with ⟨ha, hb⟩ | ⟨a, b, ha, hb, hab⟩ <;> simp only [ha, hb]
          · exact .error _ hd
          · exact .ok hab

theorem ready_twins {x y : Except Error Session × Disk} (h : TwinOpenings l x y) :
    TwinOpenings l (ready x) (ready y) := by
  cases h with
  | error e hd => exact .error e hd
  | @ok a b hab =>
    have hm : a.migrate.1 = b.migrate.1 ∧ Twins l a.migrate.2 b.migrate.2 := (twins_bisimulation l).run hab
    rw [ready_ok, ready_ok, ← hm.1]
    cases a.migrate.1 with
    | error e => exact .error e hm.2.disk
    | ok _ => exact .ok hm.2

end

end Session

theorem Opening.run_twins (o : Opening) {l : Location} {d d' : Disk} (h : Directory.Twins l (Blocking l) d d')
    (happart : ∀ m, o.path?.bind Ledger.place? = some m → Apart l m)
    (hway : ∀ q k, o.path? = some q → Blocking l k → ¬ Directory.OnWay q k) :
    Session.TwinOpenings l (o.run d) (o.run d') := by
  cases o with
  | memory => exact .ok ⟨rfl, fun m w hm => (by cases hm), h⟩
  | bareMemory => exact .ok ⟨rfl, fun m w hm => (by cases hm), h⟩
  | bareFile p => exact Session.openPath_twins h happart fun k => hway p k rfl
  | file p => exact Session.ready_twins (Session.openPath_twins h happart fun k => hway p k rfl)

namespace Excursion

variable {l : Location} {d d' : Disk}

theorem run_twins (x : Excursion) (h : Directory.Twins l (Blocking l) d d') (hx : x.ClearOf l) :
    (x.run d).1 = (x.run d').1 ∧ Directory.Twins l (Blocking l) (x.run d).2 (x.run d').2 := by
  have ho := x.opening.run_twins h hx.apart hx.way
  unfold run
  generalize x.opening.run d = y at ho
  generalize x.opening.run d' = z at ho
  cases ho with
  | error e hd => exact ⟨rfl, hd⟩
  | ok hab =>
    obtain ⟨hr, hd⟩ := hab.act x.actions
    exact ⟨congrArg Except.ok hr, hd⟩

theorem runAll_twins (xs : List Excursion) (h : Directory.Twins l (Blocking l) d d') (hx : ∀ x ∈ xs, x.ClearOf l) :
    (runAll d xs).1 = (runAll d' xs).1 := by
  induction xs generalizing d d' with
  | nil => rfl
  | cons x rest ih =>
    obtain ⟨hr, hd⟩ := x.run_twins h (hx x List.mem_cons_self)
    rw [runAll, runAll, hr, ih hd fun y hy => hx y (List.mem_cons_of_mem _ hy)]

end Excursion

/-! ## Opening again -/

theorem Ordinary.locator {p : Path} (h : Ordinary p) : Locator.ofPath p = .ok (.ofFile p) := by
  simp only [Locator.ofPath, h.plain]
  rfl

theorem Locator.writable_ofFile (p : Path) : (Locator.ofFile p).writable = true := by
  simp [writable, ofFile]

theorem Ordinary.isPrivate {p : Path} (h : Ordinary p) : (Locator.ofFile p).isPrivate = false := by
  simp [Locator.isPrivate, Locator.isNameless, Locator.ofFile, h.written, h.stored]

theorem Ordinary.place? {p : Path} (h : Ordinary p) : Ledger.place? p = some (Directory.destination p) :=
  place?_eq_some h.locator h.isPrivate

namespace Session

/-- A pool on a file is opened, used and dropped, and then others are that keep clear of it. Then its path is
opened again, with success and where the pool has stopped; and the others are answered as if it had not been
used. -/
theorem reopened_resumes {disk d : Disk} {p : Path} {s : Session} (hp : Ordinary p)
    (opened : ready (openPath disk p) = (.ok s, d)) (history : List Operation) (others : List Excursion)
    (clear : ∀ x ∈ others, x.ClearOf (Directory.destination p)) :
    (∃ later, ready (openPath (Excursion.runAll (s.after history).disk others).2 p) = (.ok later, later.disk) ∧
      Resumes (s.after history) later) ∧
    (Excursion.runAll (s.after history).disk others).1 = (Excursion.runAll s.disk others).1 := by
  obtain ⟨rfl, hlodged, db₀, hdb₀, hv₀⟩ := ready_openPath_ok opened
  obtain ⟨db, hdb, hv⟩ := after_keeps (fun _ _ hmove => hmove.version) hdb₀ hv₀ history
  cases hlodged with
  | memory hnone _ =>
    rw [hp.place?] at hnone
    cases hnone
  | @file l w hplace hpool hopens =>
    obtain rfl : Directory.destination p = l := Option.some.inj (hp.place?.symm.trans hplace)
    obtain ⟨hpool', htwins⟩ := after_file (by rw [hpool]) hopens.there history
    refine ⟨?_, Excursion.runAll_twins others htwins.symm clear⟩
    -- the others have left the file alone, and the way to it
    have hspares := Excursion.runAll_elsewhere others (s.after history).disk clear
    exact ((hopens.twins htwins).spares hspares).resumes (hpool'.trans hpool) hspares hdb hv

/-- A pool on the file `a.db` with a suffix to its name that adds a user, then one on `a.db`, and then one that
looks for the user. -/
def besideVisits (suffix : String) : List Excursion :=
  let p : Path := ⟨.none, ["a.db" ++ suffix]⟩
  [⟨.file p, [.perform (.create (.user ⟨"ada"⟩ "1"))]⟩, ⟨.file ⟨.none, ["a.db"]⟩, []⟩,
    ⟨.file p, [.perform (.getUser 1)]⟩]

/-- A database in use, and beside it changes written ahead that are left over. -/
def withChanges : Disk :=
  (Directory.empty.put ["a.db"] (.file (.database .fresh))).put ["a.db-wal"] (.file (.bytes [1]))

/-- Without keeping clear nothing is sure. A database that has the name of a file beside another one is gone
when that is opened, for each of the three names; and a directory that has been made under the name of its
journal keeps a database from being opened again. -/
theorem lost_beside :
    (∀ suffix ∈ ["", "-journal", "-wal", "-shm"], Ordinary ⟨.none, ["a.db" ++ suffix]⟩) ∧
    (∀ suffix ∈ ["-journal", "-wal", "-shm"], place? ⟨.none, ["a.db" ++ suffix]⟩ ≠ place? ⟨.none, ["a.db"]⟩) ∧
    (∀ x ∈ [(Directory.empty, "-journal"), (Directory.empty, "-wal"), (withChanges, "-shm")],
      (Excursion.runAll x.1 (besideVisits x.2)).1 =
        [.ok [.ok (.row (.user ⟨1, "ada", "1"⟩))], .ok [], .ok [.error (.notFound .user 1)]]) ∧
    place? ⟨.none, ["a.db-journal", "b.db"]⟩ ≠ place? ⟨.none, ["a.db"]⟩ ∧
    (Excursion.runAll .empty
      [⟨.file ⟨.none, ["a.db"]⟩, []⟩, ⟨.file ⟨.none, ["a.db-journal", "b.db"]⟩, []⟩,
        ⟨.file ⟨.none, ["a.db"]⟩, []⟩]).1 =
      [.ok [], .ok [], .error (.migration .unusable)] := by
  refine ⟨?_, by decide +kernel, ?_, by decide +kernel, by decide +kernel⟩
  · simp only [List.forall_mem_cons, List.not_mem_nil, false_implies, implies_true, and_true]
    exact ⟨⟨by decide +kernel, by decide +kernel, by decide +kernel⟩,
      ⟨by decide +kernel, by decide +kernel, by decide +kernel⟩,
      ⟨by decide +kernel, by decide +kernel, by decide +kernel⟩,
      ⟨by decide +kernel, by decide +kernel, by decide +kernel⟩⟩
  · simp only [List.forall_mem_cons, List.not_mem_nil, false_implies, implies_true, and_true]
    exact ⟨by decide +kernel, by decide +kernel, by decide +kernel⟩

/-- The path of an empty file opens it. -/
theorem opens_emptyFile :
    Opens ⟨.none, ["a.db"]⟩ ["a.db"] true (Directory.empty.put ["a.db"] (.file (.bytes []))) := by
  refine ⟨by decide +kernel, fun q hq => ?_, ?_, by decide +kernel, rfl⟩
  · obtain rfl : q = ⟨.none, []⟩ := Option.some.inj (hq.symm.trans (by decide +kernel))
    exact .inl (by decide +kernel)
  · exact ⟨.ofFile ⟨.none, ["a.db"]⟩, by decide +kernel⟩

theorem ready_emptyFile : ∃ s,
    ready (openPath (Directory.empty.put ["a.db"] (.file (.bytes []))) ⟨.none, ["a.db"]⟩) = (.ok s, s.disk) := by
  have hblank : Disk.database (Directory.empty.put ["a.db"] (.file (.bytes []))) ["a.db"] = .ok .blank := rfl
  obtain ⟨s, hs, -⟩ := opens_emptyFile.ready hblank (.inr ⟨rfl, rfl⟩)
  exact ⟨s, hs⟩

/-- Pools on a private database and on another file, the second of which is left unusable. -/
def elsewhere : List Excursion :=
  [⟨.memory, [.perform (.create (.user ⟨"ada"⟩ "4"))]⟩,
    ⟨.bareFile ⟨.none, ["b.db"]⟩, [.setVersion 7, .perform .migrate, .poison, .perform (.getUser 1)]⟩,
    ⟨.file ⟨.none, ["b.db"]⟩, []⟩]

theorem elsewhere_clear : ∀ x ∈ elsewhere, x.ClearOf ["a.db"] := by
  have hplace : ∀ x ∈ elsewhere, x.place? = none ∨ x.place? = some ["b.db"] := by decide +kernel
  have hpath : ∀ x ∈ elsewhere, x.opening.path? = none ∨ x.opening.path? = some ⟨.none, ["b.db"]⟩ := by
    decide +kernel
  have hway : ∀ k, Blocking ["a.db"] k → ¬ Directory.OnWay ⟨.none, ["b.db"]⟩ k := by
    intro k hk
    cases hk <;> decide +kernel
  refine fun x hx => ⟨fun m hm => ?_, fun q k hq hk => ?_⟩
  · rcases hplace x hx with hn | hb
    · rw [hn] at hm
      cases hm
    · rw [hb] at hm
      cases hm
      exact ⟨by decide, by decide +kernel, by decide +kernel⟩
  · rcases hpath x hx with hn | hb
    · rw [hn] at hq
      cases hq
    · rw [hb] at hq
      cases hq
      exact hway k hk

/-- An empty file gets a user, a refused namesake and an expense, while pools elsewhere come and go. -/
theorem reopened_resumes_elsewhere : ∃ s d, Ordinary ⟨.none, ["a.db"]⟩ ∧
    ready (openPath (Directory.empty.put ["a.db"] (.file (.bytes []))) ⟨.none, ["a.db"]⟩) = (.ok s, d) ∧
    (∀ x ∈ elsewhere, x.ClearOf (Directory.destination ⟨.none, ["a.db"]⟩)) ∧
    ∀ history, history = [.create (.user ⟨"ada"⟩ "1"), .insert (.user ⟨"ada"⟩ "2"),
        .create (.expense ⟨.ofNat 5, some "tea", 1⟩ "3")] →
      (∃ later, ready (openPath (Excursion.runAll (s.after history).disk elsewhere).2 ⟨.none, ["a.db"]⟩) =
          (.ok later, later.disk) ∧ Resumes (s.after history) later) ∧
        (Excursion.runAll (s.after history).disk elsewhere).1 = (Excursion.runAll s.disk elsewhere).1 := by
  have hp : Ordinary ⟨.none, ["a.db"]⟩ := ⟨by decide +kernel, by decide, by decide +kernel⟩
  obtain ⟨s, opened⟩ := ready_emptyFile
  exact ⟨s, s.disk, hp, opened, elsewhere_clear,
    fun history _ => reopened_resumes hp opened history elsewhere elsewhere_clear⟩

end Session

end ShapeLedger.Ledger
