/-
Media types as a content type header gives them: a type, a subtype with a suffix behind its last
plus sign, and parameters, which are checked and dropped.
-/

namespace ShapeLedger.Web

/-- A media type in lower case. -/
structure MediaType where
  type : String
  subtype : String
  suffix : Option String
deriving DecidableEq, Repr

namespace MediaType

def isTokenChar (c : Char) : Bool := c.isAlphanum || "!#$%&'*+-.^_`|~".toList.contains c

/-- What may stand between the quotes of a parameter. -/
def isQuotedChar (c : Char) : Bool := 31 < c.toNat && c.toNat ≠ 127

/-- Where a reader of parameters is: before a name, in it, before a value, in it, before or in a
quoted value, or behind its closing quote. -/
inductive Place where
  | beforeName
  | inName
  | beforeValue
  | inValue
  | beforeQuoted
  | inQuoted
  | afterQuoted
deriving DecidableEq, Repr

/-- The place after one more character. A quote right behind the opening one belongs to
the value. -/
def Place.next? (c : Char) : Place → Option Place
  | beforeName => if c = ' ' then some beforeName else if isTokenChar c then some inName else none
  | inName => if c = '=' then some beforeValue else if isTokenChar c then some inName else none
  | beforeValue =>
    if c = '"' then some beforeQuoted else if isTokenChar c then some inValue else none
  | inValue => if c = ';' then some beforeName else if isTokenChar c then some inValue else none
  | beforeQuoted => if isQuotedChar c then some inQuoted else none
  | inQuoted => if c = '"' then some afterQuoted else if isQuotedChar c then some inQuoted else none
  | afterQuoted => if c = ';' then some beforeName else if c = ' ' then some afterQuoted else none

/-- Whether the parameters may end here. -/
def Place.isEnd : Place → Bool
  | beforeName | beforeValue | inValue | afterQuoted => true
  | inName | beforeQuoted | inQuoted => false

/-- Whether the characters behind the first semicolon are parameters. -/
def areParameters (cs : List Char) : Bool :=
  (cs.foldlM (fun (place : Place) c => place.next? c) Place.beforeName).any Place.isEnd

/-- A subtype cut at its last plus sign, unless that is its first character. -/
def splitSuffix (cs : List Char) : List Char × Option (List Char) :=
  let suffix := (cs.reverse.takeWhile (· ≠ '+')).reverse
  let before := cs.take (cs.length - suffix.length - 1)
  if before.isEmpty || suffix.length = cs.length then (cs, none) else (before, some suffix)

def lower (cs : List Char) : String := String.ofList (cs.map Char.toLower)

def parse? (s : String) : Option MediaType :=
  let type := s.toList.takeWhile isTokenChar
  match s.toList.dropWhile isTokenChar with
  | '/' :: rest =>
    let subtype := rest.takeWhile isTokenChar
    let wellFormed :=
      match rest.dropWhile isTokenChar with
      | [] => true
      | ';' :: parameters => !subtype.isEmpty && areParameters parameters
      | _ => false
    if type.isEmpty || !wellFormed then none
    else
      let (before, suffix) := splitSuffix subtype
      some ⟨lower type, lower before, suffix.map lower⟩
  | _ => none

/-- Whether the type is that of JSON text, or of a format made on top of it. -/
def isJson (m : MediaType) : Bool :=
  m.type = "application" && (m.subtype = "json" || m.suffix = some "json")

end MediaType

end ShapeLedger.Web
