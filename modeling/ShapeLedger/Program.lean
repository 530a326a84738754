/-
The program as a function: from the words of its command line, its input, the working directory and
the environment to what it prints and what it leaves behind.

Lines of a log are left out, in the file that is opened for them and on the output, where only a variable of
the environment could ask for them. A server listens wherever it is told to, and is interrupted at once.
-/
import ShapeLedger.Analysis.Document
import ShapeLedger.CommandLine.Parse
import ShapeLedger.Json.Printer
import ShapeLedger.Ledger.Pool
import ShapeLedger.Settings
import ShapeLedger.Terminal.Summary

namespace ShapeLedger

open CommandLine Files Json Ledger

/-- The variables of the environment that a run reads: one names the database, the other forces colours. The
rest is taken to be unset, `RUST_LOG` above all, which could ask for lines of a log between those that a run
prints. -/
structure Program.Environment where
  database : Option String := none
  colours : Option String := none

/-- What a run is given. -/
structure Program.Input where
  words : List String
  stdin : Bytes
  disk : Disk
  environment : Environment

structure Program.Outcome where
  exitCode : Nat
  stdout : String
  stderr : String
deriving DecidableEq, Repr

namespace Program

namespace Outcome

def success (stdout : String) : Outcome := ⟨0, stdout, ""⟩

/-- The causes of a failure: alone on its line, or one a line with numbers. -/
def causeLines : List String → String
  | [cause] => "    " ++ cause ++ "\n"
  | causes =>
    String.join
      (causes.zipIdx.map (fun (cause, n) => "    " ++ toString n ++ ": " ++ cause ++ "\n"))

/-- A failure with what caused it, the nearest cause first. -/
def failure (message : String) (causes : List String) : Outcome :=
  ⟨1, "", "Error: " ++ message ++ "\n" ++
    if causes.isEmpty then "" else "\nCaused by:\n" ++ causeLines causes⟩

/-- The program broke off. -/
def broken : Outcome := ⟨101, "", "The log file cannot be opened.\n"⟩

def ofRefusal (r : Refusal) : Outcome :=
  if r.isAnswer then ⟨r.exitCode, r.text, ""⟩ else ⟨r.exitCode, "", r.text⟩

end Outcome

/-- The variable that names the database. -/
def databaseVariable : String := "JSONSAGE_DATABASE"

/-- The variable that forces colours. -/
def colourVariable : String := "CLICOLOR_FORCE"

def Input.style (i : Input) : Terminal.Style := .ofForce i.environment.colours

/-! ## Analysis -/

/-- How many brackets may be open inside one another. -/
def depthLimit : Nat := 127

/-- The file to analyze: none is when no file is named, or `-`. -/
def inputFile (file : Option Path) : Option Path := file.filter (fun p => p.toString ≠ "-")

/-- The text to analyze, from a file or from the standard input. -/
def readInput (i : Input) (file : Option Path) : Except Outcome String :=
  match inputFile file with
  | some p =>
    (i.disk.readText p).mapError (fun e => .failure ("Failed to read " ++ p.toString) [e.text])
  | none =>
    match Utf8.decode? i.stdin with
    | some text => .ok text
    | none => .error (.failure "Failed to read stdin" [FileError.text .notText])

def analyze (i : Input) (args : AnalyzeArgs) : Outcome :=
  match readInput i args.file with
  | .error outcome => outcome
  | .ok text =>
    match Json.parse (some depthLimit) (Utf8.encode text) with
    | .error e => .failure "Invalid JSON format" [e.message]
    | .ok v =>
      let report := Report.of v
      .success (if args.json then report.toJson.indented ++ "\n"
        else Terminal.summary i.style report)

/-! ## Server -/

/-- The settings of a server after its options. -/
structure ServePlan where
  host : String
  port : UInt16
  bodyLimit : Nat
  database : Path
  log : Option Path
deriving DecidableEq, Repr

/-- The file name of a log that is not named. -/
def logName : String := "jsonsage.log"

/-- Where the log goes, if there is one: the file named, or one beside the database. -/
def logPath (args : ServeArgs) (settings : Settings) : Option Path :=
  if args.log then
    some (args.logFile.getD ((args.database.getD settings.database).withFileName logName))
  else none

/-- Options win over settings. -/
def servePlan (args : ServeArgs) (settings : Settings) : ServePlan where
  host := args.host.getD settings.server.host
  port := args.port.getD settings.server.port
  bodyLimit := settings.server.bodyLimit
  database := args.database.getD settings.database
  log := logPath args settings

/-- The directory that a log is written in. -/
def logDirectory (p : Path) : Path :=
  match p.parent? with
  | some q => if q.isEmpty then .ofString "." else q
  | none => .ofString "."

/-- Opens a log, with the directories that it needs, which may fail to be made without harm. -/
def openLog (disk : Disk) (p : Path) : Except FileError Unit × Disk :=
  let (_, disk) := disk.makeDirectories (logDirectory p)
  let place := (logDirectory p).join (p.fileName?.getD logName)
  match disk.openToAppend place (.bytes []) with
  | .error e => (.error e, disk)
  | .ok disk => (.ok (), disk)

/-- Opens the database and shows the banner; the server then listens until it is interrupted. -/
def startServer (i : Input) (disk : Disk) (plan : ServePlan) : Outcome × Disk :=
  match Session.ready (Session.openPath disk plan.database) with
  | (.error e, disk) =>
    (.failure ("Failed to open database " ++ plan.database.toString) e.chain, disk)
  | (.ok _, disk) =>
    (.success (Terminal.banner i.style plan.host plan.port plan.database.toString), disk)

def serve (i : Input) (args : ServeArgs) (settings : Settings) : Outcome × Disk :=
  let plan := servePlan args settings
  match plan.log with
  | none => startServer i i.disk plan
  | some p =>
    match openLog i.disk p with
    | (.error _, disk) => (.broken, disk)
    | (.ok (), disk) => startServer i disk plan

/-! ## Runs -/

/-- The settings of a run, which are loaded before anything else is done. -/
def loadSettings (i : Input) (named : Option Path) : Except Settings.Error Settings :=
  Settings.load i.disk named i.environment.database

/-- What a run prints, and the working directory after it. -/
def run (i : Input) : Outcome × Disk :=
  match CommandLine.parse i.words with
  | .error r => (.ofRefusal r, i.disk)
  | .ok invocation =>
    match loadSettings i invocation.config with
    | .error e => (.failure e.message (e.chain.drop 1), i.disk)
    | .ok settings =>
      match invocation.command with
      | .analyze args => (analyze i args, i.disk)
      | .serve args => serve i args settings

/-! ## What a run looks at -/

/-- The files that a command line reads, the settings first. -/
def filesRead (words : List String) : List Path :=
  match CommandLine.parse words with
  | .error _ => []
  | .ok invocation =>
    invocation.config.getD Settings.standardFile ::
      match invocation.command with
      | .analyze args => (inputFile args.file).toList
      | .serve _ => []

/-- Whether a command line reads the standard input. -/
def readsStdin (words : List String) : Bool :=
  match CommandLine.parse words with
  | .ok ⟨_, .analyze args⟩ => (inputFile args.file).isNone
  | _ => false

end Program

end ShapeLedger
