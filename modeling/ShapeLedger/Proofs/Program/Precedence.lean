/-
Which of several settings a server runs with. An option of the command line goes before everything else; for
the database, the environment goes before the settings file; what nobody gives is standard. The log and the
database are opened where the plan that comes of this says, and the banner shows the same plan.
-/
import ShapeLedger.Proofs.Program.Start

namespace ShapeLedger

open CommandLine Files Ledger

namespace Program

/-! ## Definitions -/

/-- The file of a log: the one that is named, or one of the standard name, where the name that is given leads
from or beside the database. -/
inductive LogFile (args : ServeArgs) (database : Path) : Location → Prop where
  | named {w : Path} {n : String} (given : args.logFile = some w) (name : w.fileName? = some n) :
      LogFile args database (Directory.destination w)
  | unnamed {w : Path} (given : args.logFile = some w) (name : w.fileName? = none) :
      LogFile args database (Directory.destination (logDirectory w) ++ ["jsonsage.log"])
  | beside (given : args.logFile = none) (ordinary : Ordinary database) :
      LogFile args database ((Directory.destination database).dropLast ++ ["jsonsage.log"])

/-- The server of a run listens: on the disk that the log has been opened on, if there is one, this session
has been opened at the database of the plan, and the banner shows what is in the plan. -/
structure Listens (i : Input) (args : ServeArgs) (plan : ServePlan) (disk : Disk) (s : Session) : Prop where
  opened : Session.ready (Session.openPath disk plan.database) = (.ok s, (run i).2)
  home : Ordinary plan.database → s.pool = ⟨.file (Directory.destination plan.database) true, false⟩
  shown : (run i).1 = .success (Terminal.banner i.style plan.host plan.port plan.database.toString)
  unlogged : args.log = false → disk = i.disk
  logged : args.log = true → args.logFile.isSome = true ∨ Ordinary plan.database →
    ∃ l, LogFile args plan.database l ∧
      (∀ k, disk.kind? k = some (.file ()) ↔ i.disk.kind? k = some (.file ()) ∨ k = l) ∧
      -- a log in a place beside the database may be gone by then
      (¬ Session.BesidePlace plan.database l → (run i).2.kind? l = some (.file ()))

/-- The plan of a server where a settings file gives `g`. -/
structure Settled (i : Input) (config : Option Path) (args : ServeArgs) (g : Settings.Given)
    (plan : ServePlan) : Prop where
  host : plan.host = (args.host.or g.host).getD "127.0.0.1"
  port : plan.port = (args.port.or g.port).getD 5000
  bodyLimit : plan.bodyLimit = g.bodyLimit.getD (1024 * 1024)
  database : plan.database = ((args.database.or
    (Settings.fromVariable i.environment.database)).or g.database).getD (.ofString "jsonsage.db")
  /-- The environment has no say in where to listen or in how long a body may be. -/
  anywhere : ∀ environment settings, loadSettings { i with environment } config = .ok settings →
    (servePlan args settings).host = plan.host ∧ (servePlan args settings).port = plan.port ∧
      (servePlan args settings).bodyLimit = plan.bodyLimit
  /-- Where another file is named, that of the standard name may hold anything, or be missing. -/
  otherwise : ∀ p, config = some p → Directory.destination p ≠ ["jsonsage.toml"] →
    i.disk.entry? ["jsonsage.toml"] ≠ some .directory →
    ∀ disk : Disk, (∀ k ≠ ["jsonsage.toml"], disk.entry? k = i.disk.entry? k) →
      ∃ settings, loadSettings { i with disk } config = .ok settings ∧ servePlan args settings = plan
  listens : (run i).1.exitCode = 0 → ∃ disk s, Listens i args plan disk s

/-! ## The log -/

section
variable {i : Input} {config : Option Path} {args : ServeArgs} {settings : Settings}

/-- The log of a plan is at the end of its path. -/
theorem logFile_of_log {w : Path} (hw : w.WellSpelled) (hlog : (servePlan args settings).log = some w)
    (h : args.logFile.isSome = true ∨
      Ordinary (servePlan args settings).database ∧ (servePlan args settings).database.WellSpelled ∧
        ∃ n, (servePlan args settings).database.fileName? = some n) :
    LogFile args (servePlan args settings).database (Directory.destination (logPlace w)) := by
  simp only [servePlan, logPath] at hlog
  split at hlog <;> cases hlog
  -- the option names the log, or it stands beside the database
  cases hgiven : args.logFile with
  | some p =>
    rw [hgiven] at hw
    replace hw : p.WellSpelled := hw
    show LogFile args _ (Directory.destination (logPlace p))
    cases hn : p.fileName? with
    | some n =>
      rw [destination_logPlace_of_fileName? hw hn]
      exact .named hgiven hn
    | none =>
      rw [destination_logPlace hw, hn]
      exact .unnamed hgiven hn
  | none =>
    rcases h with hsome | ⟨hordinary, hspelled, n, hn⟩
    · rw [hgiven] at hsome
      cases hsome
    · show LogFile args _ (Directory.destination
        (logPlace ((servePlan args settings).database.withFileName logName)))
      rw [destination_beside hspelled hn]
      exact .beside hgiven hordinary

theorem listens_of_success (asked : CommandLine.parse i.words = .ok ⟨config, .serve args⟩)
    (loaded : loadSettings i config = .ok settings) (hexit : (run i).1.exitCode = 0) :
    ∃ disk s, Listens i args (servePlan args settings) disk s := by
  obtain ⟨hspelled, hlogSpelled⟩ := servePlan_wellSpelled asked loaded
  obtain ⟨disk, s, hlog, hready, hshown⟩ :=
    serve_success (run_of_serve asked loaded).symm hexit
  obtain ⟨-, hlodged, -⟩ := Session.ready_openPath_ok hready
  refine ⟨disk, s, hready, fun hp => (Session.lodged_ordinary hp hlodged).1, hshown, ?_, ?_⟩
  · intro hno
    have hnone : (servePlan args settings).log = none := by
      simp [servePlan, logPath, hno]
    rw [hnone] at hlog
    cases hlog
    rfl
  · intro hyes hplace
    obtain ⟨w, hw⟩ : ∃ w, (servePlan args settings).log = some w := by
      simp [servePlan, logPath, hyes]
    rw [hw] at hlog
    cases hlog with
    | logged hopen =>
      have hplaced := openLog_placed (hlogSpelled w hw) hopen
      -- the database is opened behind the log, and keeps all files but those beside it
      have hkeeps := Session.ready_keeps disk (servePlan args settings).database
      rw [hready] at hkeeps
      refine ⟨_, logFile_of_log (hlogSpelled w hw) hw ?_, fun k => hplaced.kind?_file,
        fun hk => hkeeps.file _ hk hplaced.file⟩
      rcases hplace with hgiven | hp
      · exact .inl hgiven
      · obtain ⟨-, n, -, -, -, hn, -⟩ := ((Session.lodged_ordinary hp hlodged).2.placed hspelled).above
        exact .inr ⟨hp, hspelled, n, hn⟩

/-! ## The plan -/

/-- The settings of a server that are loaded are settled by what the settings file gives. -/
theorem servePlan_settled (asked : CommandLine.parse i.words = .ok ⟨config, .serve args⟩)
    (loaded : loadSettings i config = .ok settings) :
    ∃ g, (∀ g', Settings.Source i.disk config g' ↔ g' = g) ∧
      Settled i config args g (servePlan args settings) := by
  obtain ⟨g, hg, hserver, hdatabase⟩ := Settings.load_eq_ok loaded
  refine ⟨g, fun g' => ⟨fun hg' => hg'.unique hg, fun he => he ▸ hg⟩, ?_⟩
  have hlisten {t : Settings} (ht : t.server =
      ⟨g.host.getD "127.0.0.1", g.port.getD 5000, g.bodyLimit.getD (1024 * 1024)⟩) :
      (servePlan args t).host = (args.host.or g.host).getD "127.0.0.1" ∧
        (servePlan args t).port = (args.port.or g.port).getD 5000 ∧
        (servePlan args t).bodyLimit = g.bodyLimit.getD (1024 * 1024) := by
    refine ⟨?_, ?_, ?_⟩
    · show args.host.getD t.server.host = _
      rw [ht]
      cases args.host <;> rfl
    · show args.port.getD t.server.port = _
      rw [ht]
      cases args.port <;> rfl
    · show t.server.bodyLimit = _
      rw [ht]
  obtain ⟨hhost, hport, hlimit⟩ := hlisten hserver
  constructor
  · exact hhost
  · exact hport
  · exact hlimit
  · show args.database.getD settings.database = _
    rw [hdatabase]
    cases args.database <;> rfl
  · intro environment t ht
    obtain ⟨g', hg', hserver', -⟩ := Settings.load_eq_ok ht
    obtain rfl := hg'.unique hg
    obtain ⟨hhost', hport', hlimit'⟩ := hlisten hserver'
    exact ⟨hhost'.trans hhost.symm, hport'.trans hport.symm, hlimit'.trans hlimit.symm⟩
  -- the file of the standard name is not looked at then
  · rintro p rfl hp hthere disk hsame
    exact ⟨settings, Settings.load_elsewhere hsame hthere hp loaded, rfl⟩
  · exact listens_of_success asked loaded

end

/-- A server with something to say from all sides: two options, a settings file and the environment. -/
def layered : Input where
  words := ["--config", "c.toml", "serve", "--database", "a/b.db", "--log"]
  stdin := []
  disk := Directory.empty.put ["c.toml"] (.file (.bytes (Utf8.encode
    "[server]\nhost = \"::1\"\nport = 80\n[database]\npath = \"c.db\"\n")))
  environment := { database := some "e.db" }

def layeredArgs : ServeArgs := ⟨none, none, some (.ofString "a/b.db"), true, none⟩

def layeredSettings : Settings := ⟨⟨"::1", 80, 1024 * 1024⟩, .ofString "e.db"⟩

theorem servePlan_settled_layered :
    CommandLine.parse layered.words = .ok ⟨some (.ofString "c.toml"), .serve layeredArgs⟩ ∧
    loadSettings layered (some (.ofString "c.toml")) = .ok layeredSettings ∧
    (run layered).1.exitCode = 0 ∧ Ordinary (servePlan layeredArgs layeredSettings).database ∧
    ∃ g, (∀ g', Settings.Source layered.disk (some (.ofString "c.toml")) g' ↔ g' = g) ∧
      Settled layered (some (.ofString "c.toml")) layeredArgs g (servePlan layeredArgs layeredSettings) := by
  have asked : CommandLine.parse layered.words = .ok ⟨some (.ofString "c.toml"), .serve layeredArgs⟩ := by
    decide +kernel
  have loaded : loadSettings layered (some (.ofString "c.toml")) = .ok layeredSettings := by decide +kernel
  have hordinary : Ordinary (servePlan layeredArgs layeredSettings).database :=
    ⟨by decide +kernel, by decide +kernel, by decide +kernel⟩
  exact ⟨asked, loaded, by decide +kernel, hordinary, servePlan_settled asked loaded⟩

/-- A log with a name that leads up, which is no file name. -/
def upward : Input := ⟨["serve", "--database", "x.db", "--log", "--log-file", ".."], [], .empty, {}⟩

/-- A log beside a database that is given as a URI. -/
def located : Input :=
  ⟨["serve", "--database", "file:data/x.db", "--log"], [], Directory.empty.put ["data"] .directory, {}⟩

/-- A log that is named is not always where the name leads, and one that is not named is not always beside the
file of the database. -/
theorem log_strays :
    ((∃ args, CommandLine.parse upward.words = .ok ⟨none, .serve args⟩ ∧ args.log = true ∧
        args.logFile = some (.ofString "..")) ∧
      (run upward).1.exitCode = 0 ∧
      (run upward).2.kind? (Directory.destination (.ofString "..")) = some .directory ∧
      upward.disk.kind? ["jsonsage.log"] = none ∧
      (run upward).2.kind? ["jsonsage.log"] = some (.file ())) ∧
    ((∃ args, CommandLine.parse located.words = .ok ⟨none, .serve args⟩ ∧ args.log = true ∧
        args.logFile = none ∧ args.database = some (.ofString "file:data/x.db")) ∧
      (run located).1.exitCode = 0 ∧
      place? (.ofString "file:data/x.db") = some ["data", "x.db"] ∧
      (run located).2.kind? ["data", "jsonsage.log"] = none ∧
      (run located).2.kind? ["file:data", "jsonsage.log"] = some (.file ())) := by
  refine ⟨⟨⟨⟨none, none, some (.ofString "x.db"), true, some (.ofString "..")⟩, ?_⟩, ?_⟩,
    ⟨⟨none, none, some (.ofString "file:data/x.db"), true, none⟩, ?_⟩, ?_⟩ <;>
  decide +kernel

end Program

end ShapeLedger
