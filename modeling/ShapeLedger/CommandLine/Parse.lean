/-
From the words of a command line to the command. Words are read from left to right. An option that
needs a value waits for the next word; the value that it gets is looked at only when the next option
or operand is met, or at the end. A command on the line takes all the words behind it, and the
options before it are settled last.
-/
import ShapeLedger.CommandLine.Refusal
import ShapeLedger.Files.Path
import ShapeLedger.Power

namespace ShapeLedger.CommandLine

/-! ## Commands -/

structure ServeArgs where
  port : Option UInt16
  host : Option String
  database : Option Path
  log : Bool
  logFile : Option Path
deriving DecidableEq, Repr

structure AnalyzeArgs where
  file : Option Path
  json : Bool
deriving DecidableEq, Repr

inductive Command where
  | analyze (args : AnalyzeArgs)
  | serve (args : ServeArgs)
deriving DecidableEq, Repr

/-- What a command line asks for. -/
structure Invocation where
  config : Option Path
  command : Command
deriving DecidableEq, Repr

/-! ## Values -/

/-- Digits read into a 64-bit integer from the left; the first thing wrong decides. -/
def readDigits (negative : Bool) (n : Int) : List Char → Except PortFault Int
  | [] => .ok n
  | c :: cs =>
    if !c.isDigit then .error .invalidDigit
    else
      let d : Int := c.toNat - 0x30
      let n := if negative then n * 10 - d else n * 10 + d
      if n < -twoPow 63 then .error .tooSmall
      else if twoPow 63 ≤ n then .error .tooLarge
      else readDigits negative n cs

def readSigned : List Char → Except PortFault Int
  | [] => .error .empty
  | '-' :: cs => if cs.isEmpty then .error .invalidDigit else readDigits true 0 cs
  | '+' :: cs => if cs.isEmpty then .error .invalidDigit else readDigits false 0 cs
  | cs => readDigits false 0 cs

def readPort (s : String) : Except PortFault UInt16 :=
  match readSigned s.toList with
  | .error e => .error e
  | .ok n => if 0 ≤ n && n < twoPow 16 then .ok (UInt16.ofNat n.toNat) else .error (.outOfRange n)

/-! ## Options -/

/-- The options and the operand met so far at one level. -/
structure Matches where
  config : Option Path
  port : Option UInt16
  host : Option String
  database : Option Path
  log : Bool
  logFile : Option Path
  file : Option Path
  json : Bool
deriving DecidableEq, Repr

namespace Matches

def blank : Matches := ⟨none, none, none, none, false, none, none, false⟩

/-- A path as the value of an option; it must not be empty. -/
def path (a : Arg) (before : Option Path) (value : String) (set : Path → Matches) :
    Except Refusal Matches :=
  if before.isSome then .error (.repeated a)
  else if value.isEmpty then .error (.missingValue a)
  else .ok (set (.ofString value))

/-- Gives an option its value. No option may be given twice. -/
def setValue (m : Matches) (a : Arg) (value : String) : Except Refusal Matches :=
  match a with
  | .config => path a m.config value (fun p => { m with config := some p })
  | .database => path a m.database value (fun p => { m with database := some p })
  | .logFile => path a m.logFile value (fun p => { m with logFile := some p })
  | .file => path a m.file value (fun p => { m with file := some p })
  | .host =>
    if m.host.isSome then .error (.repeated a) else .ok { m with host := some value }
  | .port =>
    if m.port.isSome then .error (.repeated a)
    else
      match readPort value with
      | .error fault => .error (.invalidPort value fault)
      | .ok n => .ok { m with port := some n }
  | .log | .json | .help | .version => .ok m

/-- Sets an option that takes no value; those for help and version end the reading. -/
def setFlag (m : Matches) (l : Level) (a : Arg) : Except Refusal Matches :=
  match a with
  | .help => .error (.help (.level l))
  | .version => .error (.version l)
  | .log => if m.log then .error (.repeated a) else .ok { m with log := true }
  | .json => if m.json then .error (.repeated a) else .ok { m with json := true }
  | .config | .port | .host | .database | .logFile | .file => .ok m

end Matches

/-! ## Words -/

/-- The state of a level: what has been settled; the option that was met last with the value it got,
if it got one; whether the word `--` has been met. -/
structure Scan where
  settled : Matches
  pending : Option (Arg × Option String)
  operandsOnly : Bool
deriving DecidableEq, Repr

namespace Scan

def start : Scan := ⟨.blank, none, false⟩

/-- Looks at the value of the option that was met last. -/
def settle (s : Scan) : Except Refusal Scan :=
  match s.pending with
  | none => .ok s
  | some (a, none) => .error (.missingValue a)
  | some (a, some value) =>
    (s.settled.setValue a value).map (fun m => { s with settled := m, pending := none })

/-- Whether the next word is the value of an option. -/
def awaits (s : Scan) : Bool := s.pending.any (fun p => p.2.isNone)

/-- An option with a value attached to it, or waiting for the next word. -/
def valued (s : Scan) (a : Arg) (attached : Option String) : Except Refusal Scan := do
  let s ← s.settle
  match attached with
  | none => return { s with pending := some (a, none) }
  | some value => return { s with settled := ← s.settled.setValue a value }

def flag (s : Scan) (l : Level) (a : Arg) : Except Refusal Scan := do
  let s ← s.settle
  return { s with settled := ← s.settled.setFlag l a }

/-- A word with two hyphens, from behind them. -/
def long (s : Scan) (l : Level) (word : List Char) : Except Refusal Scan :=
  let name := String.ofList (word.takeWhile (· ≠ '='))
  let attached :=
    match word.dropWhile (· ≠ '=') with
    | [] => none
    | _ :: value => some (String.ofList value)
  match l.long? name with
  | none => .error (.unknownArgument ("--" ++ name))
  | some a =>
    if a.takesValue then s.valued a attached
    else
      match attached with
      | none => s.flag l a
      | some value => .error (.unneededValue value a)

/-- The letters behind one hyphen. The rest of the word behind an option that takes a value is that
value, an equals sign in front of it left out. -/
def letters (s : Scan) (l : Level) : List Char → Except Refusal Scan
  | [] => .ok s
  | c :: cs =>
    match l.short? c with
    | none => .error (.unknownArgument (String.ofList ['-', c]))
    | some a =>
      if a.takesValue then
        match cs with
        | [] => s.valued a none
        | '=' :: value => s.valued a (some (String.ofList value))
        | value => s.valued a (some (String.ofList value))
      else
        match s.flag l a with
        | .error e => .error e
        | .ok s => s.letters l cs

/-- Whether the operand of the level has been met. -/
def hasOperand (s : Scan) : Bool :=
  s.settled.file.isSome || s.pending.any (fun p => p.1 = .file)

/-- A word that is no option. -/
def operand (s : Scan) (l : Level) (word : String) : Except Refusal Scan :=
  match l.operand? with
  | some a =>
    if s.hasOperand then .error (.unknownArgument word)
    else s.settle.map (fun s => { s with pending := some (a, some word) })
  | none =>
    if l = .top && !(s.operandsOnly && isCommand word) then .error (.unknownCommand word)
    else .error (.unknownArgument word)

/-- One word. -/
def word (s : Scan) (l : Level) (w : String) : Except Refusal Scan :=
  if s.operandsOnly then s.operand l w
  else
    match w.toList with
    | ['-', '-'] => .ok { s with operandsOnly := true }
    | '-' :: '-' :: cs => s.long l cs
    | '-' :: c :: cs => s.letters l (c :: cs)
    | _ =>
      match s.pending with
      | some (a, none) => .ok { s with pending := some (a, some w) }
      | _ => s.operand l w

end Scan

/-! ## Levels -/

/-- All words behind a command. -/
def readCommand (l : Level) (s : Scan) : List String → Except Refusal Matches
  | [] => s.settle.map (·.settled)
  | w :: ws =>
    match s.word l w with
    | .error e => .error e
    | .ok s => readCommand l s ws

/-- The page that the words behind `help` ask for; commands have none of their own. -/
def helpPage : List String → Refusal
  | [] => .help (.level .top)
  | w :: ws =>
    match Level.ofName? w, ws with
    | some l, [] => .help (.level l)
    | some _, v :: _ => .unknownCommand v
    | none, [] => if w = helpCommand then .help .help else .unknownCommand w
    | none, v :: _ => .unknownCommand (if w = helpCommand then v else w)

/-- The words up to a command, the command, and the words behind it. -/
def readTop (s : Scan) : List String → Except Refusal (Scan × Option (Level × List String))
  | [] => .ok (s, none)
  | w :: ws =>
    let command := if s.operandsOnly || s.awaits then none else Level.ofName? w
    match command with
    | some l => .ok (s, some (l, ws))
    | none =>
      if !s.operandsOnly && !s.awaits && w = helpCommand then .error (helpPage ws)
      else
        match s.word .top w with
        | .error e => .error e
        | .ok s => readTop s ws

/-- The command that the options of its level make. -/
def Matches.command (m : Matches) : Level → Option Command
  | .top => none
  | .analyze => some (.analyze ⟨m.file, m.json⟩)
  | .serve => some (.serve ⟨m.port, m.host, m.database, m.log, m.logFile⟩)

/-- What the words of a line ask for. The settings file named behind the command wins over the one
named before it. -/
def parse (words : List String) : Except Refusal Invocation := do
  let (before, command) ← readTop .start words
  match command with
  | some (l, behind) =>
    let m ← readCommand l .start behind
    let before ← before.settle
    match m.command l with
    | some c => return ⟨m.config <|> before.settled.config, c⟩
    | none => throw .noCommand
  | none =>
    let before ← before.settle
    if before.settled.config.isSome then throw .noCommand else throw .nothingAsked

end ShapeLedger.CommandLine
