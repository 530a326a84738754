/-
How a server starts. It opens the log, if there is to be one, and then the database, and each of them is a
file that is placed at the end of its path: directories are made on the way to it, and nothing else changes.
-/
import ShapeLedger.Proofs.CommandLine.Paths
import ShapeLedger.Proofs.Ledger.Replacement
import ShapeLedger.Proofs.Program.Settings
import ShapeLedger.Program

namespace ShapeLedger

open CommandLine Files Ledger

/-! ## Definitions -/

/-- The database at a location: a new one where nothing is. -/
def Ledger.Disk.databaseAt (disk : Disk) (l : Location) : Except Trouble Database :=
  match disk.entry? l with
  | none => .ok .blank
  | some (.file c) => c.database?
  | some .directory => .error .notADatabase

namespace Program

/-- The path of the file of a log: it ends in a file name even where the path of the log does not. -/
def logPlace (w : Path) : Path := (logDirectory w).join (w.fileName?.getD logName)

/-- A log is opened where one is asked for. -/
inductive OpensLog (disk : Disk) : Option Path → Disk → Prop where
  | unlogged : OpensLog disk none disk
  | logged {w : Path} {e : Disk} (opened : openLog disk w = (.ok (), e)) : OpensLog disk (some w) e

end Program

/-! ## The database -/

namespace Ledger.Session

section
variable {disk d : Disk} {p : Path} {s : Session}

/-- Whether a database gets ready or not, nothing is taken away but files beside it. -/
theorem ready_keeps (disk : Disk) (p : Path) :
    Directory.Keeps (BesidePlace p) disk (ready (openPath disk p)).2 := by
  have hopen := openPath_keeps disk p
  rcases openPath_cases disk p with ⟨e, he⟩ | ⟨s, hs, -⟩
  · rw [he] at hopen ⊢
    exact hopen
  · obtain ⟨-, hlodged⟩ := openPath_ok hs
    rw [hs] at hopen ⊢
    rw [ready_ok]
    refine hopen.trans ?_
    rcases s.migrate_cases with ⟨e, he, -⟩ | ⟨db, new, hdb, -, hstore⟩
    · rw [he]
      exact .refl s.disk
    · rw [hstore]
      cases hlodged with
      | memory _ hpool =>
        simp only [store, hpool]
        exact .refl s.disk
      | file hplace hpool _ =>
        have hh := congrArg Pool.home hpool
        rw [store_file hh]
        exact (Disk.write_keeps (kind?_of_database hdb hh) new).mono fun k hk => ⟨_, hplace, hk⟩

/-- The directories that a path needs are added on its way, and are all there then. -/
theorem prepare_adds (hw : p.WellSpelled) (hnames : p.names ≠ []) (hmade : (prepare disk p).1 = .ok ()) :
    Directory.Adds (Directory.Through p) disk (prepare disk p).2 ∧
      ∀ l, Directory.Through p l → Directory.entry? (prepare disk p).2 l = some .directory := by
  obtain ⟨init, n, hn⟩ := (List.eq_nil_or_concat' p.names).resolve_left hnames
  obtain ⟨q, hq, rfl, hstart, -⟩ := Path.above_of_names hn
  have hway (l : Location) : Directory.Through p l ↔ Directory.OnWay q l :=
    Directory.through_iff_onWay hn hstart
  constructor
  · have hmake : prepare disk p = disk.makeDirectories q := by
      rw [prepare, hq]
    rw [hmake]
    exact (Directory.makeDirectories_adds disk q).mono fun l => (hway l).2
  · intro l hl
    rcases (prepare_spec disk p).2 hmade q hq with he | hd
    · -- the path above is empty: the way is the place where it starts
      obtain ⟨ns, hns, rfl⟩ := (hway l).1 hl
      rw [(hw.parent? hq).names_of_isEmpty he] at hns
      rw [List.prefix_nil.1 hns]
      exact if_pos (Directory.isAround_start q)
    · exact Directory.isDirectory_onWay hd ((hway l).1 hl)

/-- A file that is opened with a database in it has held that before directories were added. -/
theorem openFile?_databaseAt {here : Location → Prop} {e : Disk} {locator : Locator} {db : Database}
    (h : Directory.Adds here disk e) (ho : openFile? e locator = some s) (hdb : s.database = .ok db) :
    disk.databaseAt (Directory.destination locator.file) = .ok db := by
  obtain ⟨-, f, rfl, hfile⟩ := openFile?_eq_some.1 ho
  -- taking away what is beside the file leaves it as it is
  replace hdb : f.database (Directory.destination locator.file) = .ok db :=
    (Disk.agree_of_trims (atFile_trims f _ locator.writable)).database.trans hdb
  obtain ⟨c, hc, -, hcontents⟩ := Disk.database_eq_ok.1 hdb
  rcases hfile with ⟨-, rfl⟩ | ⟨hn, -, rfl⟩
  · rcases h (Directory.destination locator.file) with hsame | ⟨-, hdir, -⟩
    · rw [Disk.databaseAt, ← hsame, hc]
      exact hcontents
    · rw [hc] at hdir
      cases hdir
  · have ha : Directory.isAround (Directory.destination locator.file) = false :=
      Directory.isAround_of_entry? (by rw [hn]; simp)
    rw [Directory.entry?_put ha] at hc
    cases hc
    have hbefore : disk.entry? (Directory.destination locator.file) = none := by
      rcases h (Directory.destination locator.file) with hsame | ⟨hnone, -, -⟩
      · rw [← hsame, hn]
      · exact hnone
    rw [Disk.databaseAt, hbefore]
    exact hcontents

/-- A path that opens a file has a name at its end, and leads through directories. -/
theorem Opens.placed {w : Bool} (hw : p.WellSpelled) (h : Opens p (Directory.destination p) w disk) :
    Directory.Placed p disk disk := by
  have hnames : p.names ≠ [] := by
    intro hnil
    have hthere := h.there
    rw [Directory.kind?_eq_directory.2 (if_pos (Directory.isAround_destination hnil))] at hthere
    cases hthere
  have hprepare := h.prepare
  obtain ⟨-, hthrough⟩ := prepare_adds hw hnames (congrArg Prod.fst hprepare)
  rw [hprepare] at hthrough
  exact ⟨h.there, hthrough, fun _ _ => .inl rfl, .inr h.there⟩

/-- The pool that an ordinary path has opened is on the file at its end, and may change it. -/
theorem lodged_ordinary (hp : Ordinary p) (h : Lodged p s) :
    s.pool = ⟨.file (Directory.destination p) true, false⟩ ∧ Opens p (Directory.destination p) true s.disk := by
  cases h with
  | memory hnone _ =>
    rw [hp.place?] at hnone
    cases hnone
  | file hplace hpool hopens =>
    obtain ⟨locator, hloc, -, hl, hw⟩ := hopens.located
    obtain rfl : locator = .ofFile p := Except.ok.inj (hloc.symm.trans hp.locator)
    obtain rfl := hl
    obtain rfl := (Locator.writable_ofFile p).symm.trans hw
    exact ⟨hpool, hopens⟩

/-- The file that an ordinary path has opened has been placed at its end, and holds what it held before, where
no file has been beside it. -/
theorem openPath_placed {db : Database} (hp : Ordinary p) (hw : p.WellSpelled)
    (hfree : disk.NoneBeside (Directory.destination p)) (h : openPath disk p = (.ok s, d))
    (hdb : s.database = .ok db) : Directory.Placed p disk s.disk ∧ s.disk.NoneBeside (Directory.destination p) ∧
      disk.databaseAt (Directory.destination p) = .ok db := by
  rcases openPath_cases disk p with ⟨e, he⟩ | ⟨t, ht, hmade, -, hl⟩
  · rw [h] at he
    cases he
  rw [h] at ht
  cases ht
  rcases openLocated_cases hl with ⟨hnone, -⟩ | ⟨locator, hloc, -, ho⟩
  · rw [hp.place?] at hnone
    cases hnone
  obtain rfl : locator = .ofFile p := Except.ok.inj (hloc.symm.trans hp.locator)
  obtain ⟨-, hopens⟩ := lodged_ordinary hp (openPath_ok h).2
  have hnames : p.names ≠ [] := by
    obtain ⟨q, n, -, -, hn, -⟩ := (hopens.placed hw).above
    rw [hn]
    simp
  obtain ⟨hadds, hthrough⟩ := prepare_adds hw hnames hmade
  have hdatabase := openFile?_databaseAt hadds ho hdb
  obtain ⟨-, e, rfl, hfile⟩ := openFile?_eq_some.1 ho
  have hfree' : e.NoneBeside (Directory.destination p) := by
    have hmade : Disk.NoneBeside (prepare disk p).2 (Directory.destination p) := hfree.adds hadds
    rcases hfile with ⟨-, rfl⟩ | ⟨-, -, rfl⟩
    · exact hmade
    · exact hmade.put _
  -- nothing has to be taken away when the pool is made
  have hsame : (atFile e (Directory.destination (Locator.ofFile p).file) (Locator.ofFile p).writable).disk = e := by
    rw [Locator.writable_ofFile]
    exact hfree'.recovered
  rw [hsame]
  exact ⟨Directory.placed_of_put hadds hthrough (hfile.imp_right fun hn => ⟨hn.1, hn.2.2⟩), hfree', hdatabase⟩

/-- With its schema brought up to date, the database at the end of an ordinary path is the only thing there
that has changed, where no file has been beside it. -/
theorem ready_placed (hp : Ordinary p) (hw : p.WellSpelled) (hfree : disk.NoneBeside (Directory.destination p))
    (h : ready (openPath disk p) = (.ok s, d)) : Directory.Placed p disk d ∧
      ∃ db, disk.databaseAt (Directory.destination p) = .ok db ∧
        d.database (Directory.destination p) = .ok db.upgraded := by
  obtain ⟨t, d₀, hopen, hm, rfl⟩ := ready_eq_ok.1 h
  obtain ⟨-, hlodged⟩ := openPath_ok hopen
  obtain ⟨hpool, -⟩ := lodged_ordinary hp hlodged
  have hh : t.pool.home = .file (Directory.destination p) true := by rw [hpool]
  obtain ⟨db, hdb, hs, -⟩ := migrate_upgraded hm
  obtain ⟨hplaced, hfree', hbefore⟩ := openPath_placed hp hw hfree hopen hdb
  rcases t.migrate_cases with ⟨e, he, -⟩ | ⟨db', new, -, -, hstore⟩
  · rw [hm] at he
    cases he
  · rw [hm] at hstore
    cases hstore
    rw [store_file hh] at hs ⊢
    simp only [database, hh] at hs
    refine ⟨hplaced.rewritten (Disk.kind?_of_database hs) fun l hl => ?_, db, hbefore, hs⟩
    exact Disk.entry?_write hfree'.journal hl new

end

end Ledger.Session

namespace Program

/-! ## The log -/

section
variable {w p : Path} {n : String} {disk e : Disk}

theorem logDirectory_wellSpelled (hw : w.WellSpelled) : (logDirectory w).WellSpelled := by
  have hhere : (Path.ofString ".").WellSpelled := Path.wellSpelled_ofString "."
  unfold logDirectory
  split
  · next q hq =>
    split
    · exact hhere
    · exact hw.parent? hq
  · exact hhere

theorem isName_logName : Path.IsName logName := ⟨by decide, by decide⟩

theorem isName_getD (hw : w.WellSpelled) :
    Path.IsName (w.fileName?.getD logName) ∧ w.fileName?.getD logName ≠ ".." := by
  cases hn : w.fileName? with
  | none => exact ⟨isName_logName, by decide⟩
  | some n => exact hw.isName hn

theorem destination_logPlace (hw : w.WellSpelled) : Directory.destination (logPlace w) =
    Directory.destination (logDirectory w) ++ [w.fileName?.getD logName] :=
  (logDirectory_wellSpelled hw).destination_join (isName_getD hw).1 (isName_getD hw).2

/-- Where the path of a log ends in a file name, the log is there. -/
theorem destination_logPlace_of_fileName? (hw : w.WellSpelled) (hn : w.fileName? = some n) :
    Directory.destination (logPlace w) = Directory.destination w := by
  obtain ⟨q, hq, hnames, hstart⟩ := Path.above_of_fileName? hn
  have hdirectory : Directory.destination (logDirectory w) = Directory.destination q := by
    unfold logDirectory
    simp only [hq]
    split
    · next he =>
      have hread : q.toString = "" := String.isEmpty_iff.1 he
      rw [Directory.destination, Directory.destination, (hw.parent? hq).start_eq,
        (hw.parent? hq).names_of_isEmpty he, hread]
      rfl
    · rfl
  rw [destination_logPlace hw, hdirectory, hn, Directory.destination, Directory.destination, hnames, hstart,
    List.foldl_append]
  exact (if_neg (hw.isName hn).2).symm

/-- Beside a path that ends in a file name, the log goes where that file is. -/
theorem destination_beside (hp : p.WellSpelled) (hn : p.fileName? = some n) :
    Directory.destination (logPlace (p.withFileName logName)) = (Directory.destination p).dropLast ++ [logName] := by
  obtain ⟨q, hq, hnames, hstart⟩ := Path.above_of_fileName? hn
  have hjoin : p.withFileName logName = q.join logName := by
    unfold Path.withFileName
    rw [hn, hq]
  have hspelled : (q.join logName).WellSpelled := Path.wellSpelled_ofString _
  have hfile : (q.join logName).fileName? = some logName := by
    obtain ⟨-, -, -, -, hfile⟩ := Path.above_of_names ((hp.parent? hq).names_join isName_logName)
    rw [hfile]
    exact if_neg (by decide)
  have hdrop : (Directory.destination p).dropLast = Directory.destination q := by
    rw [Directory.destination, hnames, ← hstart, List.foldl_append, List.foldl_cons, List.foldl_nil,
      Directory.descend, if_neg (hp.isName hn).2, List.dropLast_concat]
    rfl
  rw [hjoin, destination_logPlace_of_fileName? hspelled hfile,
    (hp.parent? hq).destination_join isName_logName (by decide), hdrop]

/-- Whether a log is opened or not, all that is there stays as it is. -/
theorem openLog_extends (disk : Disk) (w : Path) : disk.Extends (openLog disk w).2 := by
  have hmake := (Directory.makeDirectories_spec disk (logDirectory w)).1
  unfold openLog
  simp only
  split
  · exact hmake
  · next e he =>
    obtain ⟨-, ⟨-, rfl⟩ | ⟨hn, rfl⟩⟩ := Directory.openToAppend_eq_ok he
    · exact hmake
    · exact hmake.trans (Directory.extends_put hn _)

theorem openLog_eq_ok (h : openLog disk w = (.ok (), e)) :
    (disk.makeDirectories (logDirectory w)).2.openToAppend (logPlace w) (.bytes []) = .ok e := by
  unfold openLog at h
  simp only at h
  split at h
  · cases h
  · next f hf =>
    cases h
    exact hf

theorem openLog_placed (hw : w.WellSpelled) (h : openLog disk w = (.ok (), e)) :
    Directory.Placed (logPlace w) disk e := by
  have hspelled := logDirectory_wellSpelled hw
  obtain ⟨hname, -⟩ := isName_getD hw
  refine Directory.placed_of_openToAppend ?_ (openLog_eq_ok h)
  refine (Directory.makeDirectories_adds disk (logDirectory w)).mono fun l => ?_
  exact (Directory.through_iff_onWay (hspelled.names_join hname) (hspelled.start_join hname).symm).2

/-- A log that is made where a database is to be is a new database. -/
theorem openLog_databaseAt {l : Location} (h : openLog disk w = (.ok (), e))
    (hl : e.kind? l ≠ some .directory) : e.databaseAt l = disk.databaseAt l := by
  have hadds := Directory.makeDirectories_adds disk (logDirectory w)
  have hopen := openLog_eq_ok h
  generalize (disk.makeDirectories (logDirectory w)).2 = made at hopen hadds
  -- the directories that have been made are not at `l`
  have hmade (hk : made.entry? l ≠ some .directory) : Disk.databaseAt made l = disk.databaseAt l := by
    rcases hadds l with hsame | ⟨-, hd, -⟩
    · rw [Disk.databaseAt, Disk.databaseAt, hsame]
    · exact absurd hd hk
  obtain ⟨-, ⟨-, rfl⟩ | ⟨hn, rfl⟩⟩ := Directory.openToAppend_eq_ok hopen
  · exact hmade fun hk => hl (Directory.kind?_eq_directory.2 hk)
  · by_cases hplace : l = Directory.destination (logPlace w)
    · have ha : Directory.isAround (Directory.destination (logPlace w)) = false :=
        Directory.isAround_of_entry? (by rw [hn]; simp)
      rw [← hplace] at hn ha
      rw [← hmade (by rw [hn]; simp), Disk.databaseAt, Disk.databaseAt, ← hplace, Directory.entry?_put ha, hn]
      rfl
    · have hput := Directory.entry?_put_of_ne hplace (d := made) (.file (.bytes []))
      have hk : made.entry? l ≠ some .directory := by
        intro hd
        exact hl (Directory.kind?_eq_directory.2 (hput.trans hd))
      rw [← hmade hk, Disk.databaseAt, Disk.databaseAt, hput]

end

/-! ## The server -/

section
variable {i : Input} {config : Option Path} {args : ServeArgs} {settings : Settings}

theorem run_of_serve (asked : CommandLine.parse i.words = .ok ⟨config, .serve args⟩)
    (loaded : loadSettings i config = .ok settings) : run i = serve i args settings := by
  unfold run
  simp only [asked, loaded]

theorem startServer_success {disk d : Disk} {plan : ServePlan} {o : Outcome}
    (h : startServer i disk plan = (o, d)) (hexit : o.exitCode = 0) : ∃ s,
    Session.ready (Session.openPath disk plan.database) = (.ok s, d) ∧
      o = .success (Terminal.banner i.style plan.host plan.port plan.database.toString) := by
  unfold startServer at h
  split at h
  · -- the database cannot be opened
    cases h
    cases hexit
  · next s _ hready =>
    cases h
    exact ⟨s, hready, rfl⟩

/-- A server that listens has opened its log and then its database, and has shown its banner. -/
theorem serve_success {d : Disk} {o : Outcome} (h : serve i args settings = (o, d)) (hexit : o.exitCode = 0) :
    ∃ disk s, OpensLog i.disk (servePlan args settings).log disk ∧
      Session.ready (Session.openPath disk (servePlan args settings).database) = (.ok s, d) ∧
      o = .success (Terminal.banner i.style (servePlan args settings).host (servePlan args settings).port
        (servePlan args settings).database.toString) := by
  simp only [serve] at h
  split at h
  · next hlog =>
    obtain ⟨s, hs, hb⟩ := startServer_success h hexit
    exact ⟨i.disk, s, hlog ▸ .unlogged, hs, hb⟩
  · next w hlog =>
    split at h
    · -- the log cannot be opened
      cases h
      cases hexit
    · next disk hopen =>
      obtain ⟨s, hs, hb⟩ := startServer_success h hexit
      exact ⟨disk, s, hlog ▸ .logged hopen, hs, hb⟩

/-- The paths that a server uses can be read off their spelling, wherever they come from. -/
theorem servePlan_wellSpelled (asked : CommandLine.parse i.words = .ok ⟨config, .serve args⟩)
    (loaded : loadSettings i config = .ok settings) : (servePlan args settings).database.WellSpelled ∧
      ∀ w, (servePlan args settings).log = some w → w.WellSpelled := by
  obtain ⟨-, hdatabase, hlogFile⟩ := parse_read asked
  have hread {o : Option Path} (ho : IsRead o) {p : Path} (hp : o = some p) : p.WellSpelled := by
    obtain ⟨text, -, rfl⟩ := ho p hp
    exact Path.wellSpelled_ofString text
  constructor
  · show (args.database.getD settings.database).WellSpelled
    -- from the command line, the environment, the settings file, or by default
    cases hd : args.database with
    | some p => exact hread hdatabase hd
    | none =>
      obtain ⟨g, hg, -, hsettings⟩ := Settings.load_eq_ok loaded
      show settings.database.WellSpelled
      rw [hsettings]
      cases hv : Settings.fromVariable i.environment.database with
      | some p =>
        obtain ⟨text, -, ht⟩ := Option.bind_eq_some_iff.1 hv
        split at ht <;> cases ht
        exact Path.wellSpelled_ofString text
      | none =>
        cases hgiven : g.database with
        | some p =>
          obtain ⟨text, rfl⟩ := hg.database hgiven
          exact Path.wellSpelled_ofString text
        | none => exact Path.wellSpelled_ofString "jsonsage.db"
  · intro w hw
    simp only [servePlan, logPath] at hw
    split at hw <;> cases hw
    cases hl : args.logFile with
    | some p => exact hread hlogFile hl
    | none =>
      show Path.WellSpelled (Path.withFileName _ _)
      unfold Path.withFileName
      split <;> exact Path.wellSpelled_ofString _

end

end Program

end ShapeLedger
