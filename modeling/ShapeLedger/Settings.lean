/-
The settings of the program: where to listen, how long a body may be, where the ledger is kept. A
settings file may set some of them, and need not exist unless it is asked for by name.
-/
import ShapeLedger.Ledger.Disk
import ShapeLedger.Mismatch
import ShapeLedger.Toml.Document

namespace ShapeLedger

open Files Toml

structure Settings.Server where
  host : String
  port : UInt16
  bodyLimit : Nat
deriving DecidableEq, Repr

structure Settings where
  server : Settings.Server
  database : Path
deriving DecidableEq, Repr

namespace Settings

def standardServer : Server := ⟨"127.0.0.1", 5000, 1024 * 1024⟩

/-- The settings where nothing else is said. -/
def standard : Settings := ⟨standardServer, .ofString "jsonsage.db"⟩

/-! ## Values -/

/-- An item as a complaint names it. -/
def found : Item → Found
  | .text s => .text s
  | .integer n => .integer n
  | .real x => .real x
  | .boolean b => .boolean b
  | .moment => .map
  | .array _ => .sequence
  | .table _ _ => .map
  | .tables _ => .sequence

abbrev Read (α : Type) := Except Mismatch α

def wrongType {α : Type} (expected : String) (item : Item) : Read α :=
  .error (.invalidType (found item) expected)

def readText : Item → Read String
  | .text s => .ok s
  | item => wrongType "a string" item

def readPath : Item → Read Path
  | .text s => .ok (.ofString s)
  | item => wrongType "path string" item

def readPort : Item → Read UInt16
  | .integer n =>
    if 0 ≤ n && n < twoPow 16 then .ok (UInt16.ofNat n.toNat)
    else .error (.invalidValue (.integer n) "u16")
  | item => wrongType "u16" item

def readSize : Item → Read Nat
  | .integer n => if 0 ≤ n then .ok n.toNat else .error (.invalidValue (.integer n) "usize")
  | item => wrongType "usize" item

/-! ## Sections -/

/-- A section: how messages name it, its keys in order, and how each is set. -/
structure Section (σ : Type) where
  title : String
  keys : List String
  set : σ → String → Item → Read σ

/-- Sets keys one after the other; the first that fails decides. -/
def Section.setAll {σ : Type} (form : Section σ) (start : σ) (pairs : List (String × Item)) :
    Read σ :=
  pairs.foldlM (fun s (key, item) => form.set s key item) start

/-- A section is a table, or an array of the values of its keys in order, which may be short or too
long. -/
def Section.read {σ : Type} (form : Section σ) (start : σ) : Item → Read σ
  | .table _ members => form.setAll start members
  | .array elements => form.setAll start (form.keys.zip elements)
  | .tables elements => form.setAll start (form.keys.zip (elements.map (.table .header ·)))
  | .moment => .ok start
  | item => wrongType form.title item

/-- Keys that the section does not have are passed over. -/
def serverSection : Section Server where
  title := "struct ServerConfig"
  keys := ["host", "port", "body_limit"]
  set s key item :=
    if key = "host" then (readText item).map (fun host => { s with host })
    else if key = "port" then (readPort item).map (fun port => { s with port })
    else if key = "body_limit" then (readSize item).map (fun bodyLimit => { s with bodyLimit })
    else .ok s

def databaseSection : Section Path where
  title := "struct DatabaseConfig"
  keys := ["path"]
  set s key item := if key = "path" then readPath item else .ok s

def setSection (s : Settings) (key : String) (item : Item) : Read Settings :=
  if key = "server" then (serverSection.read standardServer item).map ({ s with server := · })
  else if key = "database" then
    (databaseSection.read standard.database item).map ({ s with database := · })
  else .ok s

/-- The settings of a document: what it leaves out is standard. -/
def ofMembers (members : Members) : Read Settings :=
  members.foldlM (fun s (key, item) => setSection s key item) standard

/-! ## Files -/

/-- Why a settings file is of no use. -/
inductive Cause where
  | unreadable (e : FileError)
  | malformed
  | mismatch (m : Mismatch)
deriving DecidableEq, Repr

structure Error where
  path : Path
  cause : Cause
deriving DecidableEq, Repr

namespace Error

def message (e : Error) : String :=
  (match e.cause with
    | .unreadable _ => "Failed to read config file "
    | .malformed | .mismatch _ => "Invalid config file ") ++ e.path.toString

/-- The mismatch in words. -/
def mismatchText (m : Mismatch) : String := m.text Binary64.plainNotation

/-- The message and the cause below it. -/
def chain (e : Error) : List String :=
  [e.message,
    match e.cause with
    | .unreadable f => f.text
    | .malformed => "TOML parse error"
    | .mismatch m => "TOML parse error: " ++ mismatchText m]

end Error

def parse (text : String) : Except Cause Settings :=
  match document? text with
  | none => .error .malformed
  | some members => (ofMembers members).mapError .mismatch

def readFile (disk : Ledger.Disk) (p : Path) : Except Error Settings :=
  match disk.readText p with
  | .error e => .error ⟨p, .unreadable e⟩
  | .ok text => (parse text).mapError (⟨p, ·⟩)

/-- The file that is read, if it exists, when none is named. -/
def standardFile : Path := .ofString "jsonsage.toml"

/-- The settings of the named file, or of the standard one, or the standard settings. A database
from the environment takes the place of the one in the file unless it is empty. -/
def load (disk : Ledger.Disk) (named : Option Path) (database : Option String) :
    Except Error Settings :=
  let loaded :=
    match named with
    | some p => readFile disk p
    | none =>
      if Directory.holds disk standardFile then readFile disk standardFile else .ok standard
  match loaded with
  | .error e => .error e
  | .ok s =>
    match database with
    | none => .ok s
    | some path => if path.isEmpty then .ok s else .ok { s with database := .ofString path }

end Settings

end ShapeLedger
