/-
Where a log goes that has no name of its own. It is beside the database, under the standard name, however the
path of the database is spelled; so it is another file, unless the database has the standard name itself. Then
the log is opened in the file of the database.
-/
import ShapeLedger.Proofs.Files.Siblings
import ShapeLedger.Proofs.Program.Start

namespace ShapeLedger

open CommandLine Files Ledger

namespace Program

/-! ## Definitions -/

/-- The path of a log is beside that of a database with the file name `n`. -/
structure Beside (database : Path) (n : String) (w : Path) : Prop where
  parent : w.parent? = database.parent?
  fileName : w.fileName? = some "jsonsage.log"
  same : w.Same database ↔ n = "jsonsage.log"
  /-- It is the same with the files, where the database is not given as a URI. -/
  file : Ordinary database →
    (place? database = some (Directory.destination (logPlace w)) ↔ n = "jsonsage.log")

/-- The server has opened its log, and then its database in the same file. -/
def SharesFile (i : Input) (plan : ServePlan) : Prop :=
  ∃ w disk s writable, plan.log = some w ∧ openLog i.disk w = (.ok (), disk) ∧
    Session.ready (Session.openPath disk plan.database) = (.ok s, (run i).2) ∧
    s.pool.home = .file (Directory.destination (logPlace w)) writable

/-! ## The path -/

section
variable {t n : String}

theorem beside_withFileName (hn : (Path.ofString t).fileName? = some n) :
    Beside (.ofString t) n ((Path.ofString t).withFileName logName) := by
  obtain ⟨hparent, hname⟩ := Path.withFileName_parts hn isName_logName (by decide)
  obtain ⟨q, hq, hnames, -⟩ := Path.above_of_fileName? hn
  have hspelled := Path.wellSpelled_ofString t
  refine ⟨hparent, hname, ?_, fun hordinary => ?_⟩
  · rw [Path.same_iff_of_parent? (hparent.trans hq) hq hname hn]
    exact eq_comm
  · -- the database is in the same directory, under its own name
    have hdestination : Directory.destination (.ofString t) =
        (Directory.destination (.ofString t)).dropLast ++ [n] := by
      rw [Directory.destination, hnames, List.foldl_append, List.foldl_cons, List.foldl_nil,
        Directory.descend, if_neg (hspelled.isName hn).2, List.dropLast_concat]
    rw [hordinary.place?, destination_beside hspelled hn, Option.some.injEq]
    constructor
    · intro hsame
      rw [hdestination, List.dropLast_concat] at hsame
      exact List.singleton_inj.1 (List.append_cancel_left hsame)
    · rintro rfl
      exact hdestination

end

/-! ## The file -/

section
variable {i : Input} {config : Option Path} {args : ServeArgs} {settings : Settings} {w : Path}

/-- The file of the log is that of the database just where the path of the database leads there. -/
theorem sharesFile_iff (asked : CommandLine.parse i.words = .ok ⟨config, .serve args⟩)
    (loaded : loadSettings i config = .ok settings) (hexit : (run i).1.exitCode = 0)
    (hw : (servePlan args settings).log = some w) : SharesFile i (servePlan args settings) ↔
      place? (servePlan args settings).database = some (Directory.destination (logPlace w)) := by
  obtain ⟨disk, s, hlog, hready, -⟩ := serve_success (run_of_serve asked loaded).symm hexit
  rw [hw] at hlog
  cases hlog with
  | logged hopen =>
    obtain ⟨-, hlodged, -⟩ := Session.ready_openPath_ok hready
    have hhome : (∃ writable, s.pool.home = .file (Directory.destination (logPlace w)) writable) ↔
        place? (servePlan args settings).database = some (Directory.destination (logPlace w)) := by
      cases hlodged with
      | memory hplace hpool => simp [hplace, hpool]
      | file hplace hpool _ => simp [hplace, hpool]
    rw [← hhome]
    constructor
    · rintro ⟨w', disk', s', writable, hw', hopen', hready', hfile⟩
      cases hw.symm.trans hw'
      cases hopen.symm.trans hopen'
      cases hready.symm.trans hready'
      exact ⟨writable, hfile⟩
    · rintro ⟨writable, hfile⟩
      exact ⟨w, disk, s, writable, hw, hopen, hready, hfile⟩

/-- A log without a name is beside the database that the server opens, and in its file just where that has the
standard name of a log. -/
theorem log_beside {t n : String} (hlog : args.log = true) (hunnamed : args.logFile = none)
    (hdatabase : (servePlan args settings).database = .ofString t)
    (hn : (servePlan args settings).database.fileName? = some n) :
    ∃ w, (servePlan args settings).log = some w ∧ Beside (servePlan args settings).database n w ∧
      ∀ i config, CommandLine.parse i.words = .ok ⟨config, .serve args⟩ →
        loadSettings i config = .ok settings → (run i).1.exitCode = 0 →
        (SharesFile i (servePlan args settings) ↔
          place? (servePlan args settings).database = some (Directory.destination (logPlace w))) := by
  have hw : (servePlan args settings).log = some ((servePlan args settings).database.withFileName logName) := by
    simp only [servePlan, logPath, hlog, hunnamed]
    rfl
  refine ⟨_, hw, ?_, fun i config asked loaded hexit => sharesFile_iff asked loaded hexit hw⟩
  rw [hdatabase] at hn ⊢
  exact beside_withFileName hn

end

/-- A log beside a database that is spelled with slashes and dots to spare. -/
def spelled : Input := ⟨["serve", "--log", "--database", "./data//./x.db"], [], .empty, {}⟩

def spelledArgs : ServeArgs := ⟨none, none, some (.ofString "./data//./x.db"), true, none⟩

theorem log_beside_spelled :
    CommandLine.parse spelled.words = .ok ⟨none, .serve spelledArgs⟩ ∧
    loadSettings spelled none = .ok .standard ∧ (run spelled).1.exitCode = 0 ∧
    Ordinary (.ofString "./data//./x.db") ∧
    ∃ w, (servePlan spelledArgs .standard).log = some w ∧
      Beside (.ofString "./data//./x.db") "x.db" w ∧
      ∀ i config, CommandLine.parse i.words = .ok ⟨config, .serve spelledArgs⟩ →
        loadSettings i config = .ok .standard → (run i).1.exitCode = 0 →
        (SharesFile i (servePlan spelledArgs .standard) ↔
          place? (.ofString "./data//./x.db") = some (Directory.destination (logPlace w))) := by
  have hordinary : Ordinary (.ofString "./data//./x.db") :=
    ⟨by decide +kernel, by decide +kernel, by decide +kernel⟩
  refine ⟨by decide +kernel, by decide +kernel, by decide +kernel, hordinary, ?_⟩
  exact log_beside (t := "./data//./x.db") rfl rfl rfl (by decide +kernel)

/-- A log beside a database with the standard name of a log. -/
def namesake : Input := ⟨["serve", "--log", "--database", "jsonsage.log"], [], .empty, {}⟩

def namesakeArgs : ServeArgs := ⟨none, none, some (.ofString "jsonsage.log"), true, none⟩

/-- The same database, given as a URI. -/
def locatedNamesake : Input := ⟨["serve", "--log", "--database", "file:jsonsage.log"], [], .empty, {}⟩

def locatedArgs : ServeArgs := ⟨none, none, some (.ofString "file:jsonsage.log"), true, none⟩

/-- A log may be at the very path of the database, and it may be in the file of the database at another path. -/
theorem log_shares :
    (CommandLine.parse namesake.words = .ok ⟨none, .serve namesakeArgs⟩ ∧
      loadSettings namesake none = .ok .standard ∧
      (servePlan namesakeArgs .standard).database.fileName? = some "jsonsage.log" ∧
      (servePlan namesakeArgs .standard).log =
        some (servePlan namesakeArgs .standard).database ∧
      (run namesake).1.exitCode = 0 ∧ SharesFile namesake (servePlan namesakeArgs .standard)) ∧
    (CommandLine.parse locatedNamesake.words = .ok ⟨none, .serve locatedArgs⟩ ∧
      loadSettings locatedNamesake none = .ok .standard ∧
      (servePlan locatedArgs .standard).database.fileName? = some "file:jsonsage.log" ∧
      (servePlan locatedArgs .standard).log = some (.ofString "jsonsage.log") ∧
      (run locatedNamesake).1.exitCode = 0 ∧
      SharesFile locatedNamesake (servePlan locatedArgs .standard)) := by
  have asked : CommandLine.parse namesake.words = .ok ⟨none, .serve namesakeArgs⟩ := by decide +kernel
  have loaded : loadSettings namesake none = .ok .standard := by decide +kernel
  have hexit : (run namesake).1.exitCode = 0 := by decide +kernel
  have hlog : (servePlan namesakeArgs .standard).log =
      some (servePlan namesakeArgs .standard).database := by decide +kernel
  have located : CommandLine.parse locatedNamesake.words = .ok ⟨none, .serve locatedArgs⟩ := by decide +kernel
  have loadedLocated : loadSettings locatedNamesake none = .ok .standard := by decide +kernel
  have hexitLocated : (run locatedNamesake).1.exitCode = 0 := by decide +kernel
  have hlogLocated : (servePlan locatedArgs .standard).log = some (.ofString "jsonsage.log") := by
    decide +kernel
  constructor
  · refine ⟨asked, loaded, by decide +kernel, hlog, hexit, ?_⟩
    exact (sharesFile_iff asked loaded hexit hlog).2 (by decide +kernel)
  · refine ⟨located, loadedLocated, by decide +kernel, hlogLocated, hexitLocated, ?_⟩
    exact (sharesFile_iff located loadedLocated hexitLocated hlogLocated).2 (by decide +kernel)

end Program

end ShapeLedger
