/-
What a run does to the working directory. Only a server changes it, and no run removes anything but files beside
the database of a server. A server that listens on the database of an ordinary path, with nothing beside that,
leaves what was there, the files of its database and of its log, and the directories on the way to them; each of
its steps adds its own, whatever the step before has added. A log may not have the name of the journal of the
database, for then it is gone when the database has been made.
-/
import ShapeLedger.Proofs.Program.Start

namespace ShapeLedger

open CommandLine Files Ledger

namespace Program

/-! ## Definitions -/

/-- Neither a journal of the database of a plan nor changes written ahead are there, nor is the log to be in
one of these places. -/
structure Uncrowded (plan : ServePlan) (d : Disk) : Prop where
  noneBeside : d.NoneBeside (Directory.destination plan.database)
  log : ∀ w, plan.log = some w →
    Directory.destination (logPlace w) ≠ journalOf (Directory.destination plan.database) ∧
      -- the lines that are written to the log would be taken for changes
      Directory.destination (logPlace w) ≠ aheadOf (Directory.destination plan.database)

/-- A server has come from the one disk to the other: exactly its files and the directories on the way to them
have been added, and only its files have been written. -/
structure Started (plan : ServePlan) (d e : Disk) : Prop where
  directories : ∀ l, e.kind? l = some .directory ↔
    d.kind? l = some .directory ∨ Directory.Through plan.database l ∨
      ∃ w, plan.log = some w ∧ Directory.Through (logPlace w) l
  files : ∀ l, e.kind? l = some (.file ()) ↔
    d.kind? l = some (.file ()) ∨ l = Directory.destination plan.database ∨
      ∃ w, plan.log = some w ∧ l = Directory.destination (logPlace w)
  others : ∀ l x, d.entry? l = some x → l ≠ Directory.destination plan.database →
    (∀ w, plan.log = some w → l ≠ Directory.destination (logPlace w)) → e.entry? l = some x
  database : ∃ db, d.databaseAt (Directory.destination plan.database) = .ok db ∧
    e.database (Directory.destination plan.database) = .ok db.upgraded
  journal : e.kind? (journalOf (Directory.destination plan.database)) = none
  ahead : e.kind? (aheadOf (Directory.destination plan.database)) = none

/-- The files that a run may remove: those beside the database of its server. -/
def MayGo (i : Input) (k : Location) : Prop := ∃ config args settings,
  CommandLine.parse i.words = .ok ⟨config, .serve args⟩ ∧ loadSettings i config = .ok settings ∧
    Session.BesidePlace (servePlan args settings).database k

/-- What a run does to the working directory, for each of its outcomes. -/
structure Framed (i : Input) : Prop where
  kept : Directory.Keeps (MayGo i) i.disk (run i).2
  refused : ∀ r, CommandLine.parse i.words = .error r → (run i).2 = i.disk
  unloaded : ∀ invocation e, CommandLine.parse i.words = .ok invocation →
    loadSettings i invocation.config = .error e → (run i).2 = i.disk
  analyzed : ∀ config args, CommandLine.parse i.words = .ok ⟨config, .analyze args⟩ → (run i).2 = i.disk
  served : ∀ config args settings, CommandLine.parse i.words = .ok ⟨config, .serve args⟩ →
    loadSettings i config = .ok settings → (run i).1.exitCode = 0 →
    Ordinary (servePlan args settings).database → Uncrowded (servePlan args settings) i.disk →
    Started (servePlan args settings) i.disk (run i).2

/-! ## One step -/

section
variable {log : Option Path} {d m e : Disk} {l : Location}

/-- What the log adds, if there is one. -/
structure AddsLog (log : Option Path) (d m : Disk) : Prop where
  directories : ∀ l, m.kind? l = some .directory ↔
    d.kind? l = some .directory ∨ ∃ w, log = some w ∧ Directory.Through (logPlace w) l
  files : ∀ l, m.kind? l = some (.file ()) ↔
    d.kind? l = some (.file ()) ∨ ∃ w, log = some w ∧ l = Directory.destination (logPlace w)
  others : ∀ l x, d.entry? l = some x → (∀ w, log = some w → l ≠ Directory.destination (logPlace w)) →
    m.entry? l = some x
  databases : ∀ l, m.kind? l ≠ some .directory → m.databaseAt l = d.databaseAt l

theorem OpensLog.adds (h : OpensLog d log m) (hlog : ∀ w, log = some w → w.WellSpelled) : AddsLog log d m := by
  cases h with
  | unlogged => constructor <;> simp
  | @logged w _ hopen =>
    have hplaced := openLog_placed (hlog w rfl) hopen
    constructor
    · intro l
      rw [hplaced.kind?_directory]
      simp
    · intro l
      rw [hplaced.kind?_file]
      simp
    · intro l x hx hne
      exact hplaced.entry?_of_ne (hne w rfl) hx
    · intro l hl
      exact openLog_databaseAt hopen hl

/-- The log first, and then the database. -/
theorem AddsLog.started {plan : ServePlan} {s : Session} (h : AddsLog plan.log d m)
    (hp : Ordinary plan.database) (hspelled : plan.database.WellSpelled) (hfree : Uncrowded plan d)
    (hready : Session.ready (Session.openPath m plan.database) = (.ok s, e)) : Started plan d e := by
  -- the log has left the places beside the database alone
  have hfree' : m.NoneBeside (Directory.destination plan.database) := by
    constructor
    · rw [Ne, h.files]
      rintro (hf | ⟨w, hw, hl⟩)
      · exact hfree.noneBeside.journal hf
      · exact (hfree.log w hw).1 hl.symm
    · rw [Ne, h.files]
      rintro (hf | ⟨w, hw, hl⟩)
      · exact hfree.noneBeside.ahead hf
      · exact (hfree.log w hw).2 hl.symm
  obtain ⟨hplaced, db, hbefore, hafter⟩ := Session.ready_placed hp hspelled hfree' hready
  obtain ⟨-, -, hclear, -⟩ := Disk.database_eq_ok.1 hafter
  rw [Disk.obstruction?_eq_none] at hclear
  have hnone {k : Location} (hne : k ≠ Directory.destination plan.database) (hm : m.kind? k ≠ some (.file ()))
      (he : e.entry? k ≠ some .directory) : e.kind? k = none := by
    cases hk : e.kind? k with
    | none => rfl
    | some kind =>
      cases kind with
      | directory => exact absurd (Directory.kind?_eq_directory.1 hk) he
      | file => exact absurd (hplaced.kind?_file.1 hk) (by simp [hm, hne])
  constructor
  · intro l
    rw [hplaced.kind?_directory, h.directories, or_assoc]
    exact or_congr_right or_comm
  · intro l
    rw [hplaced.kind?_file, h.files, or_assoc]
    exact or_congr_right or_comm
  · intro l x hx hdatabase hlog
    exact hplaced.entry?_of_ne hdatabase (h.others l x hx hlog)
  · refine ⟨db, ?_, hafter⟩
    rw [← hbefore]
    refine (h.databases _ fun hk => ?_).symm
    rcases hplaced.before with hb | hb <;> rw [hk] at hb <;> cases hb
  · exact hnone Sidecar.journal.ne hfree'.journal hclear.1
  · exact hnone Sidecar.ahead.ne hfree'.ahead hclear.2

end

/-! ## Runs -/

section
variable {i : Input} {args : ServeArgs} {settings : Settings}

/-- A server removes nothing but files beside its database, however far it comes. -/
theorem serve_keeps : Directory.Keeps (Session.BesidePlace (servePlan args settings).database) i.disk
    (serve i args settings).2 := by
  have hstart (disk : Disk) : Directory.Keeps (Session.BesidePlace (servePlan args settings).database) disk
      (startServer i disk (servePlan args settings)).2 := by
    have hready := Session.ready_keeps disk (servePlan args settings).database
    unfold startServer
    generalize Session.ready (Session.openPath disk (servePlan args settings).database) = opened at hready
    obtain ⟨_ | _, _⟩ := opened <;> exact hready
  simp only [serve]
  split
  · exact hstart i.disk
  · next w _ =>
    have hlog := openLog_extends i.disk w
    split
    · next hopen =>
      rw [hopen] at hlog
      exact hlog.keeps
    · next hopen =>
      rw [hopen] at hlog
      exact hlog.keeps.trans (hstart _)

end

/-- Arguments that are refused, settings that cannot be loaded and analyses leave the working directory as it
was; a server adds to it what it needs, where its log and other files are not in the way. -/
theorem run_framed (i : Input) : Framed i := by
  have hrefused (r : Refusal) (h : CommandLine.parse i.words = .error r) : (run i).2 = i.disk := by
    simp only [run, h]
  have hunloaded (invocation : Invocation) (e : Settings.Error) (h : CommandLine.parse i.words = .ok invocation)
      (he : loadSettings i invocation.config = .error e) : (run i).2 = i.disk := by
    simp only [run, h, he]
  have hanalyzed (config : Option Path) (args : AnalyzeArgs)
      (h : CommandLine.parse i.words = .ok ⟨config, .analyze args⟩) : (run i).2 = i.disk := by
    cases hload : loadSettings i config with
    | error e => exact hunloaded _ e h hload
    | ok settings => simp only [run, h, hload]
  -- one part for each thing that a run can come to, the first for all of them
  constructor
  · cases h : CommandLine.parse i.words with
    | error r =>
      rw [hrefused r h]
      exact .refl i.disk
    | ok invocation =>
      obtain ⟨config, command⟩ := invocation
      cases command with
      | analyze args =>
        rw [hanalyzed config args h]
        exact .refl i.disk
      | serve args =>
        cases hload : loadSettings i config with
        | error e =>
          rw [hunloaded _ e h hload]
          exact .refl i.disk
        | ok settings =>
          rw [run_of_serve h hload]
          exact serve_keeps.mono fun k hk => ⟨config, args, settings, h, hload, hk⟩
  · exact hrefused
  · exact hunloaded
  · exact hanalyzed
  · intro config args settings asked loaded hexit hordinary hfree
    obtain ⟨hdatabase, hlog⟩ := servePlan_wellSpelled asked loaded
    obtain ⟨disk, s, hopens, hready, -⟩ := serve_success (run_of_serve asked loaded).symm hexit
    exact (hopens.adds hlog).started hordinary hdatabase hfree hready

/-- A server whose database is two directories down, one of which is there, and whose log is in a third. -/
def nested : Input where
  words := ["serve", "--database", "a/b/x.db", "--log", "--log-file", "c/y.log"]
  stdin := []
  disk := (Directory.empty.put ["a"] .directory).put ["a", "z"] (.file (.bytes []))
  environment := {}

def nestedArgs : ServeArgs := ⟨none, none, some (.ofString "a/b/x.db"), true, some (.ofString "c/y.log")⟩

theorem run_framed_nested : (run nested).1.exitCode = 0 ∧
    Started (servePlan nestedArgs .standard) nested.disk (run nested).2 ∧
    nested.disk.kind? ["a", "b"] = none ∧ (run nested).2.kind? ["a", "b"] = some .directory := by
  have hexit : (run nested).1.exitCode = 0 := by decide +kernel
  have hfree : Uncrowded (servePlan nestedArgs .standard) nested.disk := by
    refine ⟨⟨by decide +kernel, by decide +kernel⟩, fun w hw => ?_⟩
    obtain rfl : Path.ofString "c/y.log" = w := Option.some.inj (Eq.trans (by decide +kernel) hw)
    exact ⟨by decide +kernel, by decide +kernel⟩
  have hstarted : Started (servePlan nestedArgs .standard) nested.disk (run nested).2 := by
    refine (run_framed nested).served none nestedArgs .standard ?_ ?_ hexit ?_ hfree
    · decide +kernel
    · decide +kernel
    · constructor <;> decide +kernel
  refine ⟨hexit, hstarted, by decide +kernel, (hstarted.directories ["a", "b"]).2 (.inr (.inl ?_))⟩
  exact ⟨["a", "b"], by decide +kernel, by decide +kernel, by decide +kernel⟩

/-- A server whose log has the name of the journal of its database. -/
def crowded : Input where
  words := ["serve", "--database", "a.db", "--log", "--log-file", "a.db-journal"]
  stdin := []
  disk := .empty
  environment := {}

def crowdedArgs : ServeArgs := ⟨none, none, some (.ofString "a.db"), true, some (.ofString "a.db-journal")⟩

/-- The log has been opened, and is gone when the server listens. -/
theorem log_goes_with_journal :
    CommandLine.parse crowded.words = .ok ⟨none, .serve crowdedArgs⟩ ∧
    loadSettings crowded none = .ok .standard ∧ (run crowded).1.exitCode = 0 ∧
    Ordinary (servePlan crowdedArgs .standard).database ∧
    crowded.disk.NoneBeside (Directory.destination (servePlan crowdedArgs .standard).database) ∧
    (servePlan crowdedArgs .standard).log = some (.ofString "a.db-journal") ∧
    (openLog crowded.disk (.ofString "a.db-journal")).2.kind? ["a.db-journal"] = some (.file ()) ∧
    (run crowded).2.kind? ["a.db-journal"] = none :=
  ⟨by decide +kernel, by decide +kernel, by decide +kernel,
    ⟨by decide +kernel, by decide +kernel, by decide +kernel⟩, ⟨by decide +kernel, by decide +kernel⟩,
    by decide +kernel, by decide +kernel, by decide +kernel⟩

end Program

end ShapeLedger
