/-
Requests as the server receives them.
-/
import ShapeLedger.Json.Error
import ShapeLedger.Text.Utf8
import ShapeLedger.Web.MediaType

namespace ShapeLedger.Web

open Json

structure Request where
  method : String
  uri : String
  headers : List (String × Bytes)
  body : Bytes

namespace Request

/-- The characters of a target up to its query or fragment. -/
def untilQuery (cs : List Char) : List Char := cs.takeWhile (fun c => c ≠ '?' && c ≠ '#')

/-- What follows `://` in a target, if it has that. -/
def afterScheme? : List Char → Option (List Char)
  | [] => none
  | c :: cs =>
    match c, cs with
    | ':', '/' :: '/' :: rest => some rest
    | _, _ => afterScheme? cs

/-- The path of the target. With a scheme in front it starts behind the host, and is `/` when
nothing stands there; a host on its own has none. -/
def path (r : Request) : String :=
  match r.uri.toList with
  | '/' :: cs => String.ofList ('/' :: untilQuery cs)
  | '*' :: cs => String.ofList ('*' :: untilQuery cs)
  | cs =>
    match afterScheme? cs with
    | none => ""
    | some rest =>
      match (untilQuery rest).dropWhile (· ≠ '/') with
      | [] => "/"
      | path => String.ofList path

/-- The value of the first header of a name, in lower case. -/
def header? (r : Request) (name : String) : Option Bytes :=
  (r.headers.find? (fun h => h.1.toLower = name)).map (·.2)

/-- The media type of the body; the header must be made of tabs and visible characters alone. -/
def mediaType? (r : Request) : Option MediaType := do
  let value ← r.header? "content-type"
  if value.all (fun b => b = Ascii.tab || (Ascii.space ≤ b && b < 0x7F)) then
    MediaType.parse? (← Utf8.decode? value)
  else none

def hasJson (r : Request) : Bool := r.mediaType?.any MediaType.isJson

end Request

end ShapeLedger.Web
