/-
A directory with all that is in it, and what the operations of a file system do to it.

A location is the list of names from the working directory to an entry. Names that lead out of the
working directory are kept as `..`, and a location that starts at the root of the file system starts
with `/`; the directories out there are taken to exist, and to hold nothing else.
-/
import ShapeLedger.Files.Path

namespace ShapeLedger.Files

inductive FileError where
  | notFound
  | alreadyThere
  | notADirectory
  | isADirectory
  | nameTooLong
  | nulInName
  | notText
deriving DecidableEq, Repr

def FileError.text : FileError → String
  | notFound => "No such file or directory (os error 2)"
  | alreadyThere => "File exists (os error 17)"
  | notADirectory => "Not a directory (os error 20)"
  | isADirectory => "Is a directory (os error 21)"
  | nameTooLong => "File name too long (os error 36)"
  | nulInName => "file name contained an unexpected NUL byte"
  | notText => "stream did not contain valid UTF-8"

abbrev Location := List String

inductive Entry (α : Type) where
  | file (contents : α)
  | directory

/-- A working directory: the names that lead to it from the root of the file system, and the location of
each entry in it. -/
structure Directory (α : Type) where
  above : List String
  entries : List (Location × Entry α)

namespace Directory

variable {α : Type}

def empty : Directory α := ⟨[], []⟩

/-! ## Locations -/

/-- The location that a name leads to. -/
def descend (here : Location) (name : String) : Location :=
  if name = ".." then
    match here.getLast? with
    | none => [".."]
    | some last =>
      if last = ".." then here ++ [".."] else if last = "/" then here else here.dropLast
  else here ++ [name]

/-- Whether a location is the working directory or one of those around it. -/
def isAround (l : Location) : Bool := l.all (fun n => n = ".." || n = "/")

def entry? (d : Directory α) (l : Location) : Option (Entry α) :=
  if isAround l then some .directory else d.entries.lookup l

/-- Whether a directory is at a location. -/
def isDirectoryAt (d : Directory α) (l : Location) : Bool :=
  match d.entry? l with
  | some .directory => true
  | _ => false

/-- The names that lead to a location from the root of the file system. -/
def fromRoot (d : Directory α) (l : Location) : List String :=
  if l.head? = some "/" then l.tail
  else
    let ups := (l.takeWhile (· = "..")).length
    d.above.take (d.above.length - ups) ++ l.drop ups

/-- The greatest length of a name, and of a path, in bytes. -/
def nameLimit : Nat := 255
def pathLimit : Nat := 4095

/-- Follows names, each from a directory that exists. -/
def walk (d : Directory α) (here : Location) : List String → Except FileError Location
  | [] => .ok here
  | n :: ns =>
    match d.entry? here with
    | none => .error .notFound
    | some (.file _) => .error .notADirectory
    | some .directory =>
      if nameLimit < n.utf8ByteSize then .error .nameTooLong else d.walk (descend here n) ns

/-- Where a path starts. -/
def start (p : Path) : Location := if p.lead = .root then ["/"] else []

/-- Where a path leads if nothing stands in its way: `..` takes back the name before it. -/
def destination (p : Path) : Location := p.names.foldl descend (start p)

/-- The location of a path: all but its last name must lead through directories. -/
def locate (d : Directory α) (p : Path) : Except FileError Location :=
  if p.toString.toList.contains '\x00' then .error .nulInName
  else if p.isEmpty then .error .notFound
  else if pathLimit < p.toString.utf8ByteSize then .error .nameTooLong
  else d.walk (start p) p.names

/-! ## Reading -/

def read (d : Directory α) (p : Path) : Except FileError α :=
  match d.locate p with
  | .error e => .error e
  | .ok l =>
    match d.entry? l with
    | none => .error .notFound
    | some .directory => .error .isADirectory
    | some (.file c) => if p.namesDirectory then .error .notADirectory else .ok c

def isDirectory (d : Directory α) (p : Path) : Bool :=
  match d.locate p with
  | .error _ => false
  | .ok l =>
    match d.entry? l with
    | some .directory => true
    | _ => false

/-- Whether a path leads to an entry of either kind. -/
def holds (d : Directory α) (p : Path) : Bool :=
  match d.read p with
  | .ok _ => true
  | .error _ => d.isDirectory p

/-! ## Writing -/

/-- Replaces the entry at a location, or adds it. -/
def put (d : Directory α) (l : Location) (e : Entry α) : Directory α :=
  { d with entries := (l, e) :: d.entries.filter (fun x => x.1 ≠ l) }

/-- Removes the file at a location; a directory there stays. -/
def removeFile (d : Directory α) (l : Location) : Directory α :=
  match d.entry? l with
  | some (.file _) => { d with entries := d.entries.filter (fun x => x.1 ≠ l) }
  | _ => d

def makeDirectory (d : Directory α) (p : Path) : Except FileError (Directory α) :=
  match d.locate p with
  | .error e => .error e
  | .ok l =>
    match d.entry? l with
    | some _ => .error .alreadyThere
    | none => .ok (d.put l .directory)

/-- Makes a directory unless it is there already. -/
def ensureDirectory (d : Directory α) (p : Path) : Except FileError (Directory α) :=
  match d.makeDirectory p with
  | .ok d => .ok d
  | .error e => if d.isDirectory p then .ok d else .error e

/-- Makes a directory with all of its parents. Those made before a failure stay. -/
def makeDirectories (d : Directory α) (p : Path) : Except FileError Unit × Directory α :=
  if p.isEmpty then (.ok (), d)
  else
    match d.ensureDirectory p with
    | .ok d => (.ok (), d)
    | .error .notFound =>
      match _up : p.parent? with
      | none => (.error .notFound, d)
      | some q =>
        match d.makeDirectories q with
        | (.error e, d) => (.error e, d)
        | (.ok (), d) =>
          match d.ensureDirectory p with
          | .ok d => (.ok (), d)
          | .error e => (.error e, d)
    | .error e => (.error e, d)
termination_by p.height
decreasing_by exact Path.parent?_height _up

/-- Opens a file to be written at its end; a missing one is made with the given contents. -/
def openToAppend (d : Directory α) (p : Path) (fresh : α) : Except FileError (Directory α) :=
  match d.locate p with
  | .error e => .error e
  | .ok l =>
    match d.entry? l with
    | some .directory => .error .isADirectory
    | some (.file _) => if p.namesDirectory then .error .notADirectory else .ok d
    | none => if p.namesDirectory then .error .isADirectory else .ok (d.put l (.file fresh))

/-! ## Listing -/

/-- Adds the directories that lead to a location, and the entry there. -/
def plant (d : Directory α) (before : Location) : Location → Entry α → Directory α
  | [], _ => d
  | [n], e => d.put (before ++ [n]) e
  | n :: m :: ns, e =>
    let here := before ++ [n]
    let d := match d.entry? here with
      | some _ => d
      | none => d.put here .directory
    d.plant here (m :: ns) e

/-- A directory of the given files; a name that ends in a slash gives a directory. -/
def ofFiles (files : List (String × α)) : Directory α :=
  files.foldl
    (fun d (name, contents) =>
      let p := Path.ofString name
      if p.namesDirectory then
        match d.entry? p.names with
        | some _ => d
        | none => d.plant [] p.names .directory
      else d.plant [] p.names (.file contents))
    empty

/-- How an entry is listed. -/
def lineOf : Location × Entry α → String
  | (l, .file _) => "/".intercalate l
  | (l, .directory) => "/".intercalate l ++ "/"

/-- The entries inside the working directory, in the order of their spelling. -/
def listing (d : Directory α) : List String :=
  ((d.entries.filter (fun x => x.1.head? ≠ some ".." && x.1.head? ≠ some "/")).map lineOf).mergeSort
    (fun a b => a ≤ b)

end Directory

end ShapeLedger.Files
