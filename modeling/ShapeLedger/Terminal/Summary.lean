/-
A report as a few lines for a reader at a terminal, and the banner of the server.
-/
import ShapeLedger.Analysis.Report
import ShapeLedger.Terminal.Style

namespace ShapeLedger.Terminal

/-- A line with a name in front; there is none for an empty list. -/
def labelled (s : Style) (name value : String) : String :=
  s.paint [.bold] name ++ ": " ++ value ++ "\n"

def listed (s : Style) (name : String) (values : List String) : String :=
  if values.isEmpty then "" else labelled s name (", ".intercalate values)

def shapeLines (s : Style) : Shape → String
  | .object keys =>
    labelled s "Properties" (toString keys.length) ++ listed s "Keys" keys
  | .array length sample =>
    labelled s "Length" (toString length) ++ listed s "Sample types" (sample.map Kind.label)
  | .scalar => ""

def insightLines (s : Style) (insights : List Insight) : String :=
  if insights.isEmpty then s.paint [.dim] "No insights." ++ "\n"
  else
    "\n" ++ s.paint [.bold] "Insights" ++ "\n" ++
      String.join (insights.map (fun i => "  " ++ s.paint [.yellow] "•" ++ " " ++ i.text ++ "\n"))

def summary (s : Style) (r : Report) : String :=
  labelled s "Type" (s.paint [.cyan] r.kind.label) ++ shapeLines s r.shape ++
    insightLines s r.insights

/-- What the server shows when it is about to listen. -/
def banner (s : Style) (host : String) (port : UInt16) (database : String) : String :=
  "\n  " ++ s.paint [.bold, .cyan] "JsonSage" ++ " " ++ s.paint [.bold] "API Server" ++ "\n\n" ++
    "  " ++ s.paint [.green] "API" ++ "       http://" ++ host ++ ":" ++ toString port.toNat ++
    "/api\n" ++
    "  " ++ s.paint [.green] "Database" ++ "  " ++ database ++ "\n\n" ++
    "  " ++ s.paint [.dim] "Ctrl+C to stop" ++ "\n\n"

end ShapeLedger.Terminal
