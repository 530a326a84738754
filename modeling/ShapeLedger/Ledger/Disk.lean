/-
The files of a working directory, some of which may be databases.

Beside a database there may be a journal and a log of changes to come, under its own name with a suffix.
Files of these names belong to the database: the first look at it takes away those that are left over, and
a change to it takes away the journal. None of them is taken to hold changes that are still to be made or to
be taken back, so what was in them is lost.
-/
import ShapeLedger.Ledger.Database
import ShapeLedger.Text.Utf8

namespace ShapeLedger.Ledger

open Files

/-- What a file holds: bytes, or a database. -/
inductive Contents where
  | bytes (b : List UInt8)
  | database (db : Database)

abbrev Disk := Directory Contents

/-- The database that a file holds: an empty file is a new one. -/
def Contents.database? : Contents → Except Trouble Database
  | .database db => .ok db
  | .bytes [] => .ok .blank
  | .bytes (_ :: _) => .error .notADatabase

def Contents.isEmpty : Contents → Bool
  | .database _ => false
  | .bytes b => b.isEmpty

/-- Whether a file starts with a zero byte, as a journal does that is not to be used any more. -/
def Contents.isSpent : Contents → Bool
  | .database _ => false
  | .bytes b => b.head? = some 0

/-- The text that a file holds. -/
def Contents.text? : Contents → Except FileError String
  | .database _ => .error .notText
  | .bytes b =>
    match Utf8.decode? b with
    | some s => .ok s
    | none => .error .notText

/-! ## Files beside a database -/

/-- The location beside a file whose name is longer by a suffix. -/
def beside (l : Location) (suffix : String) : Location := l.dropLast ++ [l.getLast?.getD "" ++ suffix]

/-- Where the journal of a database is while a change is made. -/
def journalOf (l : Location) : Location := beside l "-journal"

/-- Where changes to a database are written ahead. -/
def aheadOf (l : Location) : Location := beside l "-wal"

/-- Where the index of the changes written ahead is. -/
def indexOf (l : Location) : Location := beside l "-shm"

namespace Disk

/-- Whether there is a file with something in it. -/
def holdsData (disk : Disk) (l : Location) : Bool :=
  match disk.entry? l with
  | some (.file c) => !c.isEmpty
  | _ => false

/-- Why the database at a location cannot be used, where a directory has the name of its journal or of its
changes written ahead. -/
def obstruction? (disk : Disk) (l : Location) : Option Trouble :=
  if disk.isDirectoryAt (journalOf l) then
    some (if disk.holdsData l then .unreadableJournal else .blocked)
  else if disk.isDirectoryAt (aheadOf l) then
    some (if disk.holdsData l then .blocked else .lastingChanges)
  else none

/-- The database in the file at a location. -/
def database (disk : Disk) (l : Location) : Except Trouble Database :=
  match disk.entry? l with
  | some (.file c) =>
    match disk.obstruction? l with
    | some trouble => .error trouble
    | none => c.database?
  | _ => .error .notADatabase

/-- Whether a journal is left over. An empty one is none yet, and one that is spent may stay beside a database
that has something in it. -/
def hasStaleJournal (disk : Disk) (l : Location) : Bool :=
  match disk.entry? (journalOf l) with
  | some (.file c) => !c.isEmpty && !(disk.holdsData l && c.isSpent)
  | _ => false

/-- Removes a journal that is left over. -/
def dropJournal (disk : Disk) (l : Location) : Disk :=
  if disk.hasStaleJournal l then disk.removeFile (journalOf l) else disk

/-- Removes changes written ahead that are left over, with their index where they have been looked at. -/
def dropAhead (disk : Disk) (l : Location) : Disk :=
  if disk.holdsData (aheadOf l) then
    let rest := disk.removeFile (aheadOf l)
    if disk.holdsData l then rest.removeFile (indexOf l) else rest
  else disk

/-- What is left when a database has been looked at that may be changed. -/
def recovered (disk : Disk) (l : Location) : Disk :=
  match disk.obstruction? l with
  | some _ => disk
  | none => (disk.dropJournal l).dropAhead l

/-- Writes a database unless it is there already. The journal that is made for that is removed at the end. -/
def write (disk : Disk) (l : Location) (db : Database) : Disk :=
  if (disk.database l).toOption = some db then disk
  else (disk.put l (.file (.database db))).removeFile (journalOf l)

/-! ## Files -/

/-- The text of the file at a path. -/
def readText (disk : Disk) (p : Path) : Except FileError String :=
  match Directory.read disk p with
  | .error e => .error e
  | .ok c => c.text?

/-- A working directory with files of these names and bytes. -/
def ofFiles (files : List (String × List UInt8)) : Disk :=
  Directory.ofFiles (files.map (fun (name, b) => (name, .bytes b)))

end Disk

end ShapeLedger.Ledger
