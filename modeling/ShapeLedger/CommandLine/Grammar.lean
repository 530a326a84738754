/-
The command line: its commands, and the options that each of them takes.
-/

namespace ShapeLedger.CommandLine

/-- Where on the line a word stands: before any command, or behind one. -/
inductive Level where
  | top
  | analyze
  | serve
deriving DecidableEq, Repr

/-- The options, and the one operand. -/
inductive Arg where
  | config
  | port
  | host
  | database
  | log
  | logFile
  | json
  | help
  | version
  | file
deriving DecidableEq, Repr

namespace Arg

/-- The name behind two hyphens; the operand has none. -/
def long? : Arg → Option String
  | config => some "config"
  | port => some "port"
  | host => some "host"
  | database => some "database"
  | log => some "log"
  | logFile => some "log-file"
  | json => some "json"
  | help => some "help"
  | version => some "version"
  | file => none

/-- The letter behind one hyphen. -/
def short? : Arg → Option Char
  | config => some 'c'
  | help => some 'h'
  | version => some 'V'
  | _ => none

/-- What stands for the value in messages, where there is one. -/
def placeholder? : Arg → Option String
  | config => some "CONFIG"
  | port => some "PORT"
  | host => some "HOST"
  | database => some "DATABASE"
  | logFile => some "LOG_FILE"
  | file => some "FILE"
  | log | json | help | version => none

def takesValue (a : Arg) : Bool := a.placeholder?.isSome

/-- The option as messages show it. -/
def shown (a : Arg) : String :=
  match a.long?, a.placeholder? with
  | some name, none => "--" ++ name
  | some name, some value => "--" ++ name ++ " <" ++ value ++ ">"
  | none, value => "[" ++ value.getD "" ++ "]"

end Arg

namespace Level

/-- The options that may stand at a level. -/
def options : Level → List Arg
  | top => [.config, .help, .version]
  | analyze => [.json, .config, .help, .version]
  | serve => [.port, .host, .database, .log, .logFile, .config, .help, .version]

def operand? : Level → Option Arg
  | analyze => some .file
  | top | serve => none

def long? (l : Level) (name : String) : Option Arg := l.options.find? (fun a => a.long? = some name)

def short? (l : Level) (letter : Char) : Option Arg :=
  l.options.find? (fun a => a.short? = some letter)

/-- The command that a word names. -/
def ofName? (name : String) : Option Level :=
  if name = "serve" then some serve else if name = "analyze" then some analyze else none

end Level

/-- The word that asks for help in place of a command. -/
def helpCommand : String := "help"

/-- Whether a word is a command, the one for help among them. -/
def isCommand (word : String) : Bool := (Level.ofName? word).isSome || word = helpCommand

end ShapeLedger.CommandLine
