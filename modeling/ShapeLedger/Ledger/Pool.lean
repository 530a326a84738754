/-
Databases in use. A pool guards one database, private or in a file of the working directory, by a
lock; an operation that breaks off under the lock poisons it, and from then on every operation on
the pool fails. What a pool does to a database in a file shows in that file at once, and what is left
over beside the file is taken away when the pool is made, as if it were looked at then.
-/
import ShapeLedger.Ledger.Disk

namespace ShapeLedger.Ledger

open Files

/-- Where the database of a pool is kept. -/
inductive Home where
  | memory (db : Database) (writable : Bool)
  | file (location : Location) (writable : Bool)

/-- Whether the database may be changed. -/
def Home.writable : Home → Bool
  | memory _ writable => writable
  | file _ writable => writable

structure Pool where
  home : Home
  poisoned : Bool

/-- A pool, and the working directory that its file is in. -/
structure Session where
  disk : Disk
  pool : Pool

namespace Session

/-! ## Operations -/

/-- The database behind the pool. -/
def database (s : Session) : Except Trouble Database :=
  match s.pool.home with
  | .memory db _ => .ok db
  | .file l _ => s.disk.database l

/-- The session with another database behind the pool. -/
def store (s : Session) (db : Database) : Session :=
  match s.pool.home with
  | .memory _ writable => { s with pool := { s.pool with home := .memory db writable } }
  | .file l _ => { s with disk := s.disk.write l db }

/-- Whether an operation with this outcome gets as far as changing the database: a broken rule shows
only then, and an operation may have nothing to change. -/
def reachesRows {α : Type} (db : Database) : Database.Outcome α → Bool
  | .error (.constraint _) => true
  | .error _ => false
  | .ok (_, changed) => changed ≠ db

/-- Runs an operation under the lock; only one that succeeds changes the database. What trouble with
the file means is for the operation to say. -/
def run {α : Type} (s : Session) (failing : Trouble → Error)
    (op : Database → Database.Outcome α) : Except Error α × Session :=
  if s.pool.poisoned then (.error .poisoned, s)
  else
    match s.database with
    | .error trouble => (.error (failing trouble), s)
    | .ok db =>
      if !s.pool.home.writable && reachesRows db (op db) then (.error (failing .readOnly), s)
      else
        match op db with
        | .error e => (.error e, s)
        | .ok (a, db) => (.ok a, s.store db)

def insertUser (s : Session) (u : NewUser) (now : String) : Except Error Int × Session :=
  s.run .connection (·.insertUser u now)

def insertExpense (s : Session) (x : NewExpense) (now : String) : Except Error Int × Session :=
  s.run .connection (·.insertExpense x now)

/-- Runs an operation that reads only. -/
def look {α : Type} (s : Session) (op : Database → Except Error α) : Except Error α :=
  if s.pool.poisoned then .error .poisoned
  else
    match s.database with
    | .error trouble => .error (.connection trouble)
    | .ok db => op db

def getUser (s : Session) (id : Int) : Except Error User := s.look (·.getUser id)

def getExpense (s : Session) (id : Int) : Except Error Expense := s.look (·.getExpense id)

/-- Inserts a user, and reads the row back; the lock is taken anew for that. -/
def createUser (s : Session) (u : NewUser) (now : String) : Except Error User × Session :=
  match s.insertUser u now with
  | (.error e, s) => (.error e, s)
  | (.ok id, s) => (s.getUser id, s)

/-- Inserts an expense, and reads the row back; the lock is taken anew for that. -/
def createExpense (s : Session) (x : NewExpense) (now : String) :
    Except Error Expense × Session :=
  match s.insertExpense x now with
  | (.error e, s) => (.error e, s)
  | (.ok id, s) => (s.getExpense id, s)

/-- All rows of both tables. -/
def rows (s : Session) : Except Error (List User × List Expense) :=
  s.look (fun db =>
    match db.need .user with
    | .error e => .error e
    | .ok t => .ok (t.users.rows, t.expenses.rows))

def migrate (s : Session) : Except Error Unit × Session :=
  s.run (fun _ => .migration .unusable) (·.migrate)

/-- Sets the version of the schema, whatever the schema is. -/
def setVersion (s : Session) (version : Int) : Except Error Unit × Session :=
  s.run .connection (fun db => .ok ((), { db with version }))

/-- An operation that breaks off under the lock. -/
def poison (s : Session) : Except Error Unit × Session :=
  if s.pool.poisoned then (.error .poisoned, s)
  else (.ok (), { s with pool := { s.pool with poisoned := true } })

/-! ## Opening -/

/-- A pool on a new private database without a schema. -/
def openMemory (disk : Disk) : Session := ⟨disk, ⟨.memory .blank true, false⟩⟩

/-- The greatest length, in bytes, of the path from the root of the file system to the journal of a
database. -/
def pathLimit : Nat := 512

/-- The bytes of names with a slash in front of each of them. -/
def lengthOf (names : List String) : Nat := names.foldr (fun n length => 1 + n.utf8ByteSize + length) 0

/-- Whether all the directories that lead to a location exist, and no name and no path is too long. -/
def leadsTo (disk : Disk) (l : Location) : Bool :=
  (List.range l.length).all (fun n => disk.isDirectoryAt (l.take n)) &&
  l.all (fun n => n.utf8ByteSize ≤ Directory.nameLimit) &&
  lengthOf (disk.fromRoot (journalOf l)) ≤ pathLimit

/-- A pool on the file at a location. Where the database may be changed, what is left over beside it goes. -/
def atFile (disk : Disk) (l : Location) (writable : Bool) : Session :=
  ⟨if writable then disk.recovered l else disk, ⟨.file l writable, false⟩⟩

/-- Opens a database file, making an empty one if there is none and the access allows that. -/
def openFile? (disk : Disk) (locator : Locator) : Option Session :=
  let l := Directory.destination locator.file
  if !leadsTo disk l then none
  else
    match disk.entry? l with
    | some .directory => none
    | some (.file _) => some (atFile disk l locator.writable)
    | none =>
      if locator.access = .create then
        some (atFile (disk.put l (.file (.bytes []))) l locator.writable)
      else none

/-- The index of the first NUL byte of a text. -/
def nulPosition? (s : String) : Option Nat :=
  let before := s.toList.takeWhile (· ≠ '\x00')
  if before.length < s.toList.length then some (String.ofList before).utf8ByteSize else none

/-- Opens what a path stands for, which may be private. -/
def openLocated (disk : Disk) (p : Path) : Except Trouble Session :=
  match Locator.ofPath p with
  | .error fault => .error (.unusableUri fault)
  | .ok locator =>
    if locator.isPrivate then .ok ⟨disk, ⟨.memory .blank locator.writable, false⟩⟩
    else
      match openFile? disk locator with
      | some s => .ok s
      | none => .error (.cannotOpen p.toString)

/-- Makes the directories that a path needs, and opens its database. A failure leaves the
directories made so far. -/
def openPath (disk : Disk) (p : Path) : Except Error Session × Disk :=
  let (made, disk) : Except FileError Unit × Disk :=
    match p.parent? with
    | none => (.ok (), disk)
    | some q => disk.makeDirectories q
  match made with
  | .error e => (.error (.io e), disk)
  | .ok () =>
    match nulPosition? p.toString with
    | some n => (.error (.connection (.nulInPath n)), disk)
    | none =>
      match openLocated disk p with
      | .error trouble => (.error (.connection trouble), disk)
      | .ok s => (.ok s, s.disk)

/-- A new session with its schema up to date; a failure leaves the disk as far as it was made. -/
def ready (opened : Except Error Session × Disk) : Except Error Session × Disk :=
  match opened with
  | (.error e, disk) => (.error e, disk)
  | (.ok s, _) =>
    match s.migrate with
    | (.error e, s) => (.error e, s.disk)
    | (.ok (), s) => (.ok s, s.disk)

/-- A session on a private database with the schema. -/
def inMemory (disk : Disk) : Session := ⟨disk, ⟨.memory .fresh true, false⟩⟩

end Session

end ShapeLedger.Ledger
