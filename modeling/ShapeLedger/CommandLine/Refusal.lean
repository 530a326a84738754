/-
Why a command line does not lead to a command: it asks for a page, or it is wrong.
-/
import ShapeLedger.CommandLine.Help

namespace ShapeLedger.CommandLine

/-- Why a text is no port. -/
inductive PortFault where
  | empty
  | invalidDigit
  | tooLarge
  | tooSmall
  | outOfRange (n : Int)
deriving DecidableEq, Repr

def PortFault.text : PortFault → String
  | empty => "cannot parse integer from empty string"
  | invalidDigit => "invalid digit found in string"
  | tooLarge => "number too large to fit in target type"
  | tooSmall => "number too small to fit in target type"
  | outOfRange n => toString n ++ " is not in 0..=65535"

/-- Why a command line asks for nothing to be done: it is wrong, or asks for something to be shown. -/
inductive Refusal where
  | help (page : Page)
  | version (level : Level)
  | nothingAsked
  | noCommand
  | unknownCommand (word : String)
  | unknownArgument (word : String)
  | missingValue (arg : Arg)
  | unneededValue (value : String) (arg : Arg)
  | repeated (arg : Arg)
  | invalidPort (value : String) (fault : PortFault)
deriving DecidableEq, Repr

namespace Refusal

/-- The page or the complaint. -/
def text : Refusal → String
  | help page => page.text
  | version level => versionText level
  | nothingAsked => (Page.level .top).text
  | noCommand => "error: '" ++ programName ++ "' requires a subcommand but one was not provided\n"
  | unknownCommand word => "error: unrecognized subcommand '" ++ word ++ "'\n"
  | unknownArgument word => "error: unexpected argument '" ++ word ++ "' found\n"
  | missingValue arg =>
    "error: a value is required for '" ++ arg.shown ++ "' but none was supplied\n"
  | unneededValue value arg =>
    "error: unexpected value '" ++ value ++ "' for '" ++ arg.shown ++
      "' found; no more were expected\n"
  | repeated arg => "error: the argument '" ++ arg.shown ++ "' cannot be used multiple times\n"
  | invalidPort value fault =>
    "error: invalid value '" ++ value ++ "' for '" ++ Arg.port.shown ++ "': " ++ fault.text ++ "\n"

/-- Whether the line asked for what it gets. -/
def isAnswer : Refusal → Bool
  | help _ | version _ => true
  | _ => false

def exitCode (r : Refusal) : Nat := if r.isAnswer then 0 else 2

end Refusal

end ShapeLedger.CommandLine
