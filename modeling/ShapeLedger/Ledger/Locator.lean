/-
What a text says of the place of a database. It is the path of a file; or, when it starts with
`file:`, a URI, whose percent signs stand for bytes, whose host is empty or `localhost`, and whose
query may narrow what is done with the file.
-/
import ShapeLedger.Files.Path
import ShapeLedger.Power
import ShapeLedger.Text.Ascii
import ShapeLedger.Text.Utf8

namespace ShapeLedger.Ledger

/-! ## Access -/

/-- What may be done with the file of a database; `memory` stands for no file at all. -/
inductive Access where
  | readOnly
  | readWrite
  | create
  | memory
deriving DecidableEq, Repr

namespace Access

def ofName? (name : String) : Option Access :=
  if name = "ro" then some readOnly
  else if name = "rw" then some readWrite
  else if name = "rwc" then some create
  else if name = "memory" then some memory
  else none

def rank : Access → Nat
  | readOnly => 0
  | readWrite => 1
  | create => 2
  | memory => 3

/-- Whether one access may be narrowed to another; what is in no file is always allowed. -/
def allows (a asked : Access) : Bool := asked = memory || asked.rank ≤ a.rank

end Access

/-! ## URIs -/

/-- Why a URI leads to no database. -/
inductive UriFault where
  | host (name : String)
  | unknownMode (kind value : String)
  | modeNotAllowed (value : String)
  | unknownSystem (name : String)
deriving DecidableEq, Repr

def UriFault.text : UriFault → String
  | host name => "invalid uri authority: " ++ name
  | unknownMode kind value => "no such " ++ kind ++ " mode: " ++ value
  | modeNotAllowed value => "access mode not allowed: " ++ value
  | unknownSystem name => "no such vfs: " ++ name

/-- The place of a database: whether its file is taken never to change, and whether the system that is
asked for keeps it in memory under the name of the file. -/
structure Locator where
  file : Path
  access : Access
  immutable : Bool
  volatile : Bool
deriving DecidableEq, Repr

namespace Locator

/-- Any access to a file. -/
def ofFile (p : Path) : Locator := ⟨p, .create, false, false⟩

/-- Whether no file is named, or none is to be used. -/
def isNameless (l : Locator) : Bool :=
  l.access = .memory || l.file.isEmpty || l.file.toString = ":memory:"

/-- Whether nothing of the database is kept in a file. -/
def isPrivate (l : Locator) : Bool := l.isNameless || l.volatile

/-- Whether the database may be changed. -/
def writable (l : Locator) : Bool := l.access ≠ .readOnly && (l.isNameless || !l.immutable)

/-- The bytes up to a separator, and those behind it. -/
def cut (separator : UInt8) (s : List UInt8) : List UInt8 × List UInt8 :=
  (s.takeWhile (· ≠ separator), (s.dropWhile (· ≠ separator)).drop 1)

/-- The pieces between ampersands. -/
def splitOptions : List UInt8 → List (List UInt8)
  | [] => [[]]
  | b :: r =>
    if b = 0x26 then [] :: splitOptions r
    else
      match splitOptions r with
      | [] => [[b]]
      | s :: ss => (b :: s) :: ss

/-- A percent sign with two hexadecimal digits stands for a byte; a zero byte ends the part. -/
def unescape : List UInt8 → List UInt8
  | [] => []
  | [b] => [b]
  | [b, c] => [b, c]
  | b :: c :: d :: r =>
    match Ascii.hexValue? c, Ascii.hexValue? d with
    | some high, some low =>
      if b = 0x25 then
        if 16 * high + low = 0 then [] else UInt8.ofNat (16 * high + low) :: unescape r
      else b :: unescape (c :: d :: r)
    | _, _ => b :: unescape (c :: d :: r)

/-- A part of a URI. One that would be no UTF-8 is left as it is written. -/
def partText (s : List UInt8) : String :=
  match Utf8.decode? (unescape s) with
  | some text => text
  | none => String.ofList (Utf8.decodePrefix s).1

/-- The options of a query; those without a name are passed over. -/
def options (query : List UInt8) : List (String × String) :=
  ((splitOptions query).map (fun o => (partText (cut 0x3D o).1, partText (cut 0x3D o).2))).filter
    (fun o => !o.1.isEmpty)

/-- Follows one option. -/
def follow (l : Locator) (name value : String) : Except UriFault Locator :=
  if name = "mode" then
    match Access.ofName? value with
    | none => .error (.unknownMode "access" value)
    | some a =>
      if l.access.allows a then .ok { l with access := a } else .error (.modeNotAllowed value)
  else if name = "cache" && value ≠ "shared" && value ≠ "private" then
    .error (.unknownMode "cache" value)
  else .ok l

/-- The file systems that a URI may ask for. -/
def systems : List String := ["unix", "unix-none", "unix-dotfile", "unix-excl", "memdb"]

/-- The system whose files are in memory. -/
def volatileSystem : String := "memdb"

/-- The lowest byte of a number that begins a text, where the number has 32 bits. -/
def leadingByte (value : String) : Nat :=
  let digits := value.toList.takeWhile Char.isDigit
  let n := Nat.ofDigitChars 10 digits 0
  if n < twoPow 31 then n % 256 else 0

/-- Whether an option is switched on: by a word, or by a number other than zero. -/
def isOn (value : String) : Bool :=
  match value.toList with
  | [] => false
  | c :: _ =>
    if c.isDigit then leadingByte value ≠ 0 else value.toLower ∈ ["on", "yes", "true"]

/-- The locator of a file with the options of a query. Of several systems the last one counts. -/
def ofQuery (file : String) (opts : List (String × String)) : Except UriFault Locator :=
  match opts.foldlM (fun l (name, value) => follow l name value) (ofFile (.ofString file)) with
  | .error e => .error e
  | .ok l =>
    let system := opts.reverse.lookup "vfs"
    match system.filter (· ∉ systems) with
    | some name => .error (.unknownSystem name)
    | none =>
      .ok { l with
        immutable := ((opts.lookup "immutable").map isOn).getD false
        volatile := system = some volatileSystem }

/-- The host between two slashes and the next one, and what follows it from that slash on. -/
def splitHost : List UInt8 → List UInt8 × List UInt8
  | 0x2F :: 0x2F :: r => (r.takeWhile (· ≠ 0x2F), r.dropWhile (· ≠ 0x2F))
  | s => ([], s)

/-- The locator of a URI, from behind its scheme. A fragment at its end is dropped. -/
def ofUri (s : List UInt8) : Except UriFault Locator :=
  let (host, r) := splitHost s
  if host ≠ [] && host ≠ Utf8.encode "localhost" then
    .error (.host (String.ofList (Utf8.decodePrefix host).1))
  else
    let (target, _) := cut 0x23 r
    let (file, query) := cut 0x3F target
    ofQuery (partText file) (options query)

def ofPath (p : Path) : Except UriFault Locator :=
  let s := p.toString
  if s.startsWith "file:" then ofUri ((Utf8.encode s).drop 5) else .ok (ofFile p)

end Locator

end ShapeLedger.Ledger
