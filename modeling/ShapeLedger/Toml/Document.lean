/-
Values and whole settings documents.
-/
import ShapeLedger.Toml.Number

namespace ShapeLedger.Toml

/-! ## Values -/

abbrev ValueReader := Chars → Option (Item × Chars)

/-- The elements of an array, from behind its bracket or a comma, after those in `done`, newest
first; `steps` bounds how many there are. A comma may follow the last one. -/
def elements? (value : ValueReader) : Nat → List Item → Chars → Option (Item × Chars)
  | 0, _, _ => none
  | steps + 1, done, s =>
    match skipGap false s with
    | ']' :: r => some (.array done.reverse, r)
    | t => do
      let (item, r) ← value t
      match skipGap false r with
      | ',' :: u => elements? value steps (item :: done) u
      | ']' :: u => some (.array (item :: done).reverse, u)
      | _ => none

/-- A key with its path, an equals sign and a value. -/
def pair? (value : ValueReader) (s : Chars) : Option ((List String × String × Item) × Chars) := do
  let (path, r) ← keyPath? pathLimit s
  match path.reverse, r with
  | key :: before, '=' :: t =>
    let (item, u) ← value (skipBlanks t)
    return ((before.reverse, key, item), u)
  | _, _ => none

/-- The pairs between braces, from behind the opening one or a comma. -/
def pairs? (value : ValueReader) : Nat → Members → Chars → Option (Item × Chars)
  | 0, _, _ => none
  | steps + 1, members, s => do
    let ((path, key, item), r) ← pair? value s
    let members ← members.assign .header path key item
    match skipBlanks r with
    | ',' :: t => pairs? value steps members t
    | '}' :: t => some (.table .braces members, t)
    | _ => none

def braced? (value : ValueReader) (s : Chars) : Option (Item × Chars) :=
  match skipBlanks s with
  | '}' :: r => some (.table .braces [], r)
  | _ => pairs? value (s.length + 1) [] s

/-- A word that stands for a value. -/
def word? : Chars → Option (Item × Chars)
  | 't' :: 'r' :: 'u' :: 'e' :: r => some (.boolean true, r)
  | 'f' :: 'a' :: 'l' :: 's' :: 'e' :: r => some (.boolean false, r)
  | _ => none

/-- A value without brackets. -/
def scalarValue? (s : Chars) : Option (Item × Chars) :=
  match s with
  | '"' :: _ | '\x27' :: _ => (string? s).map (fun (t, r) => (.text (String.ofList t), r))
  | 't' :: _ | 'f' :: _ => word? s
  | _ =>
    match moment? s with
    | some rest => rest.map (.moment, ·)
    | none => number? s

/-- The number of brackets that may be open inside one another. -/
def depthLimit : Nat := 79

/-- A value with at most so many brackets open inside one another. -/
def value? : Nat → ValueReader
  | 0, s =>
    match s with
    | '[' :: _ | '{' :: _ => none
    | _ => scalarValue? s
  | depth + 1, s =>
    match s with
    | '[' :: r => elements? (value? depth) (r.length + 1) [] r
    | '{' :: r => braced? (value? depth) r
    | _ => scalarValue? s

/-! ## Documents -/

/-- A document as far as it has been read: its tables, and the one that pairs go into, with its
path and whether it is an element of an array of tables. The path is empty before the first
header. -/
structure Draft where
  root : Members
  path : List String
  inArray : Bool
  current : Members

namespace Draft

def blank : Draft := ⟨[], [], false, []⟩

/-- A path cut before its last key. -/
def split? (path : List String) : Option (List String × String) :=
  match path.reverse with
  | [] => none
  | key :: before => some (before.reverse, key)

/-- Puts the current table into its place. -/
def close? (d : Draft) : Option Members :=
  match split? d.path with
  | none => some d.current
  | some (before, key) => do
    let (root, _) ← d.root.within .passed .header before (fun _ members =>
      match d.inArray, members.lookup key with
      | true, some (.tables elements) =>
        some (members.set key (.tables (elements ++ [d.current])), ())
      | false, none => some (members ++ [(key, .table .header d.current)], ())
      | _, _ => none)
    return root

/-- Starts the table of a header; one that was named only on the way to other headers moves to the
end. -/
def startTable? (d : Draft) (path : List String) : Option Draft := do
  let root ← d.close?
  let (before, key) ← split? path
  let (root, current) ← root.within .passed .header before (fun _ members =>
    match members.lookup key with
    | none => some (members, [])
    | some (.table .passed inner) => some (members.without key, inner)
    | some _ => none)
  return ⟨root, path, false, current⟩

/-- Starts one more element of an array of tables. -/
def startElement? (d : Draft) (path : List String) : Option Draft := do
  let root ← d.close?
  let (before, key) ← split? path
  let (root, _) ← root.within .passed .header before (fun _ members =>
    match members.lookup key with
    | none => some (members ++ [(key, .tables [])], ())
    | some (.tables _) => some (members, ())
    | some _ => none)
  return ⟨root, path, true, []⟩

def assign? (d : Draft) (path : List String) (key : String) (item : Item) : Option Draft := do
  return { d with current := ← d.current.assign .header path key item }

end Draft

/-- A header, from its first bracket on. -/
def header? (d : Draft) (s : Chars) : Option (Draft × Chars) :=
  match s with
  | '[' :: '[' :: r => do
    match ← keyPath? pathLimit r with
    | (path, ']' :: ']' :: t) => return (← d.startElement? path, t)
    | _ => none
  | '[' :: r => do
    match ← keyPath? pathLimit r with
    | (path, ']' :: t) => return (← d.startTable? path, t)
    | _ => none
  | _ => none

/-- One header, pair, comment or line end, and the rest of its line. -/
def line? (d : Draft) (s : Chars) : Option (Draft × Chars) :=
  match s with
  | '[' :: _ => do
    let (d, r) ← header? d s
    return (d, ← endLine? r)
  | '#' :: _ => (endLine? s).map (d, ·)
  | '\n' :: _ | '\r' :: _ => (newline? s).map (d, ·)
  | _ => do
    let ((path, key, item), r) ← pair? (value? depthLimit) s
    return (← d.assign? path key item, ← endLine? r)

/-- The lines of a document; `steps` bounds how many there are. -/
def lines? : Nat → Draft → Chars → Option Members
  | 0, _, _ => none
  | steps + 1, d, s =>
    match skipBlanks s with
    | [] => d.close?
    | c :: r => do
      let (d, t) ← line? d (c :: r)
      lines? steps d t

/-- The top table of a document; a byte order mark may stand in front of it. -/
def document? (text : String) : Option Members :=
  let s := match text.toList with
    | '\ufeff' :: r => r
    | s => s
  lines? (s.length + 1) .blank s

end ShapeLedger.Toml
