/-
Why a ledger operation fails. An error has a kind, whose words open its message, and a detail.
-/
import ShapeLedger.Files.Directory
import ShapeLedger.Ledger.Locator

namespace ShapeLedger.Ledger

/-- The rules that a stored row has to keep. -/
inductive Rule where
  | amountPresent
  | usernameLength
  | descriptionLength
  | usernameUnique
  | userExists
deriving DecidableEq, Repr

def Rule.text : Rule → String
  | amountPresent => "NOT NULL constraint failed: expenses.amount"
  | usernameLength => "CHECK constraint failed: length(username) <= 80"
  | descriptionLength =>
    "CHECK constraint failed: description IS NULL OR length(description) <= 200"
  | usernameUnique => "UNIQUE constraint failed: users.username"
  | userExists => "FOREIGN KEY constraint failed"

/-- What is looked up by its id. -/
inductive Subject where
  | user
  | expense
deriving DecidableEq, Repr

namespace Subject

def label : Subject → String
  | user => "User"
  | expense => "Expense"

/-- The table that holds its rows. -/
def table : Subject → String
  | user => "users"
  | expense => "expenses"

end Subject

/-- What keeps a store from answering at all. -/
inductive Trouble where
  | noTable (subject : Subject)
  | cannotOpen (path : String)
  | nulInPath (position : Nat)
  | notADatabase
  | unusableUri (fault : UriFault)
  | readOnly
  /-- A directory is where a file has to be made or opened. -/
  | blocked
  | unreadableJournal
  /-- Changes written ahead cannot be taken away. -/
  | lastingChanges
deriving DecidableEq, Repr

namespace Trouble

def text : Trouble → String
  | noTable subject => "no such table: " ++ subject.table
  | cannotOpen path => "unable to open database file: " ++ path
  | nulInPath position => "nul byte found in provided data at position: " ++ toString position
  | notADatabase => "file is not a database"
  | unusableUri fault => fault.text
  | readOnly => "attempt to write a readonly database"
  | blocked => "unable to open database file"
  | unreadableJournal | lastingChanges => "disk I/O error"

/-- The code of a failure that has none of its own. -/
def generalFailure : String := "Error code 1: SQL error or missing database"

/-- The failure underneath, where the store reports one by a code. -/
def cause? : Trouble → Option String
  | noTable _ => some generalFailure
  | cannotOpen _ => some "Error code 14: Unable to open the database file"
  | nulInPath position =>
    some ("nul byte found in provided data at position: " ++ toString position)
  | notADatabase => some "Error code 26: File opened that is not a database file"
  | unusableUri (.modeNotAllowed _) => some "Error code 3: Access permission denied"
  | unusableUri _ => some generalFailure
  | readOnly => some "Error code 8: Attempt to write a readonly database"
  | blocked => some "Error code 14: Unable to open the database file"
  | unreadableJournal => some "Error code 266: Error reading from disk"
  | lastingChanges => some "Error code 2570: Error deleting file"

end Trouble

/-- Why the schema cannot be brought up to date. -/
inductive Misfit where
  | schemaPresent
  | unusable
  | tooFarAhead
deriving DecidableEq, Repr

def Misfit.text : Misfit → String
  | schemaPresent | unusable => "rusqlite_migrate error: RusqliteError"
  | tooFarAhead => "rusqlite_migrate error: MigrationDefinition(DatabaseTooFarAhead)"

inductive ErrorKind where
  | connection
  | notFound
  | constraint
  | migration
  | io
  | poisoned
deriving DecidableEq, Repr

/-- The message of an error of this kind; a poisoned lock has no details. -/
def ErrorKind.message (detail : String) : ErrorKind → String
  | connection => "Database connection error: " ++ detail
  | notFound => "Not found: " ++ detail
  | constraint => "Constraint violation: " ++ detail
  | migration => "Migration error: " ++ detail
  | io => "IO error: " ++ detail
  | poisoned => "Database lock poisoned"

inductive Error where
  | connection (trouble : Trouble)
  | notFound (subject : Subject) (id : Int)
  | constraint (rule : Rule)
  | migration (misfit : Misfit)
  | io (cause : Files.FileError)
  | poisoned
deriving DecidableEq, Repr

namespace Error

def kind : Error → ErrorKind
  | connection _ => .connection
  | notFound _ _ => .notFound
  | constraint _ => .constraint
  | migration _ => .migration
  | io _ => .io
  | poisoned => .poisoned

def detail : Error → String
  | connection trouble => trouble.text
  | notFound subject id => subject.label ++ ": " ++ toString id
  | constraint rule => rule.text
  | migration misfit => misfit.text
  | io cause => cause.text
  | poisoned => ""

def message (e : Error) : String := e.kind.message e.detail

/-- The message and, below it, those of the failures that caused it. -/
def chain (e : Error) : List String :=
  e.message ::
    match e with
    | connection trouble => trouble.text :: trouble.cause?.toList
    | io cause => [cause.text]
    | _ => []

end Error

end ShapeLedger.Ledger
