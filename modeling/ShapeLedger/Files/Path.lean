/-
Paths as they are written. A path keeps its spelling, so that it can be shown again; its parent and
its file name leave out the segments that say nothing, which are the empty one and `.`.
-/

namespace ShapeLedger

/-- What a path starts with: nothing, `.` as its first segment, or `/`. -/
inductive Path.Lead where
  | none
  | here
  | root
deriving DecidableEq, Repr

/-- A path: how it starts, and the segments between the slashes that follow. -/
structure Path where
  lead : Path.Lead
  segments : List String
deriving DecidableEq, Repr

namespace Path

/-! ## Spelling -/

def Lead.text : Lead → List Char
  | none => []
  | here => ['.']
  | root => ['/']

/-- The pieces between slashes; there is one more of them than there are slashes. -/
def splitSlash : List Char → List (List Char)
  | [] => [[]]
  | c :: cs =>
    if c = '/' then [] :: splitSlash cs
    else
      match splitSlash cs with
      | [] => [[c]]
      | s :: ss => (c :: s) :: ss

def joinSlash : List (List Char) → List Char
  | [] => []
  | [s] => s
  | s :: t :: ts => s ++ '/' :: joinSlash (t :: ts)

/-- How a path starts, and its characters after that. -/
def readLead : List Char → Lead × List Char
  | '/' :: cs => (.root, cs)
  | ['.'] => (.here, [])
  | '.' :: '/' :: cs => (.here, '/' :: cs)
  | cs => (.none, cs)

def ofString (s : String) : Path :=
  let (lead, rest) := readLead s.toList
  ⟨lead, (splitSlash rest).map String.ofList⟩

def toString (p : Path) : String :=
  String.ofList (p.lead.text ++ joinSlash (p.segments.map String.toList))

def isEmpty (p : Path) : Bool := p.toString.isEmpty

/-! ## Parts -/

/-- A segment that leads nowhere else. -/
def isSilent (segment : String) : Bool := segment = "" || segment = "."

/-- The segments in reverse, from the last one that says something. -/
def trail (segments : List String) : List String := segments.reverse.dropWhile isSilent

/-- The name that the path ends in, unless that is `..`. -/
def fileName? (p : Path) : Option String :=
  match trail p.segments with
  | [] => none
  | last :: _ => if last = ".." then none else some last

def parent? (p : Path) : Option Path :=
  match trail p.segments with
  | [] => if p.lead = .here then some ⟨.none, []⟩ else none
  | _ :: before => some ⟨p.lead, (before.dropWhile isSilent).reverse⟩

/-- The path with one more segment. -/
def join (p : Path) (name : String) : Path :=
  let s := p.toString
  ofString (if s.isEmpty || s.endsWith "/" then s ++ name else s ++ "/" ++ name)

/-- The path with another file name; a path without one gets it behind its end. -/
def withFileName (p : Path) (name : String) : Path :=
  match p.fileName?, p.parent? with
  | some _, some q => q.join name
  | _, _ => p.join name

/-- The names to follow, `..` among them. -/
def names (p : Path) : List String := p.segments.filter (fun s => !isSilent s)

/-- Whether the path is spelled as that of a directory: it ends in a slash or in `.`. -/
def namesDirectory (p : Path) : Bool :=
  match p.segments.getLast? with
  | some s => isSilent s
  | none => false

/-- How many steps up a path has left. -/
def height (p : Path) : Nat := p.segments.length + if p.lead = .here then 1 else 0

theorem length_dropWhile_le {α : Type} (f : α → Bool) (xs : List α) :
    (xs.dropWhile f).length ≤ xs.length := (List.dropWhile_suffix f).length_le

theorem parent?_height {p q : Path} (h : p.parent? = some q) : q.height < p.height := by
  unfold parent? at h
  split at h
  · split at h
    · next hl => cases h; simp [height, hl]
    · cases h
  · next last before ht =>
    cases h
    have h1 := length_dropWhile_le isSilent p.segments.reverse
    have h2 := length_dropWhile_le isSilent before
    unfold trail at ht
    rw [ht, List.length_cons, List.length_reverse] at h1
    simp only [height, List.length_reverse]
    omega

/-- The paths that lead to a path, the outermost first, and the path itself. -/
def lineage (p : Path) : List Path :=
  match _up : p.parent? with
  | none => [p]
  | some q => q.lineage ++ [p]
termination_by p.height
decreasing_by exact parent?_height _up

end Path

end ShapeLedger
