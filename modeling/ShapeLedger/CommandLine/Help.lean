/-
What the program says about itself.
-/
import ShapeLedger.CommandLine.Grammar

namespace ShapeLedger.CommandLine

/-- A page of help: that of a level, or that of the command for help. -/
inductive Page where
  | level (l : Level)
  | help
deriving DecidableEq, Repr

def programName : String := "jsonsage"

def versionNumber : String := "0.1.0"

/-- The name of a level in its version line. -/
def Level.fullName : Level → String
  | top => programName
  | analyze => programName ++ "-analyze"
  | serve => programName ++ "-serve"

def versionText (l : Level) : String := l.fullName ++ " " ++ versionNumber ++ "\n"

def lines (ls : List String) : String := String.join (ls.map (· ++ "\n"))

def Page.text : Page → String
  | level .top => lines [
    "JsonSage - JSON structure analysis and a tiny expense ledger",
    "",
    "Usage: jsonsage [OPTIONS] <COMMAND>",
    "",
    "Commands:",
    "  serve    Start the HTTP API server",
    "  analyze  Analyze a JSON document locally",
    "  help     Print this message or the help of the given subcommand(s)",
    "",
    "Options:",
    "  -c, --config <CONFIG>  Path to config file (defaults to ./jsonsage.toml when present)",
    "  -h, --help             Print help",
    "  -V, --version          Print version"]
  | level .analyze => lines [
    "Analyze a JSON document locally",
    "",
    "Usage: jsonsage analyze [OPTIONS] [FILE]",
    "",
    "Arguments:",
    "  [FILE]  JSON file to analyze (reads stdin when omitted or \"-\")",
    "",
    "Options:",
    "  -c, --config <CONFIG>  Path to config file (defaults to ./jsonsage.toml when present)",
    "      --json             Print the raw result as JSON",
    "  -h, --help             Print help",
    "  -V, --version          Print version"]
  | level .serve => lines [
    "Start the HTTP API server",
    "",
    "Usage: jsonsage serve [OPTIONS]",
    "",
    "Options:",
    "  -c, --config <CONFIG>      Path to config file (defaults to ./jsonsage.toml when present)",
    "      --port <PORT>          Port to listen on",
    "      --host <HOST>          Host to bind to",
    "      --database <DATABASE>  SQLite database file",
    "      --log                  Also write logs to a file",
    "      --log-file <LOG_FILE>  Log file path (defaults to jsonsage.log next to the database)",
    "  -h, --help                 Print help",
    "  -V, --version              Print version"]
  | help => lines [
    "Print this message or the help of the given subcommand(s)",
    "",
    "Usage: jsonsage help [COMMAND]...",
    "",
    "Arguments:",
    "  [COMMAND]...  Print help for the subcommand(s)"]

end ShapeLedger.CommandLine
