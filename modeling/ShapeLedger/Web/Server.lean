/-
The server: four routes over a ledger.
-/
import ShapeLedger.Analysis.Document
import ShapeLedger.Json.Discard
import ShapeLedger.Ledger.Pool
import ShapeLedger.Web.Body
import ShapeLedger.Web.Response

namespace ShapeLedger.Web

open Json Ledger

/-! ## Routes -/

inductive Route where
  | analyze
  | links
  | users
  | expenses
deriving DecidableEq, Repr

namespace Route

def all : List Route := [analyze, links, users, expenses]

def path : Route → String
  | analyze => "/api/analyze"
  | links => "/api/links"
  | users => "/api/users"
  | expenses => "/api/expenses"

def ofPath? (path : String) : Option Route := all.find? (fun r => r.path = path)

/-- The methods that a route answers. -/
def methods : Route → List String
  | links => ["GET", "HEAD"]
  | analyze | users | expenses => ["POST"]

def allow (r : Route) : String := ",".intercalate r.methods

end Route

/-! ## Handlers -/

/-- Nothing was sent to look at. -/
def noData : Response := .badRequest "No JSON data provided"

def invalidJson (e : Json.Error) : Response := .badRequest ("Invalid JSON format: " ++ e.message)

/-- The value to look at: the member `json` of the object that the body is. -/
def submitted (body : Bytes) : Except Response Value :=
  if body.all Ascii.isBlank then .error noData
  else
    match Document.decode body with
    | .error e => .error (invalidJson e)
    | .ok (.object members) =>
      match Members.get? "json" members with
      | some v => .ok v
      | none => .error noData
    | .ok _ => .error noData

/-- The texts that are decoded for the analysis of a body: the body unless it is blank, and the string that
it submits. -/
def decodedTexts (body : Bytes) : List Bytes :=
  if body.all Ascii.isBlank then []
  else
    body ::
      match submitted body with
      | .ok (.text s) => [Utf8.encode s]
      | _ => []

/-- Analyzes what the body submits; a string is decoded first, once. -/
def analyze (limit : Nat) (r : Request) : Response :=
  if r.exceeds limit then .text 413 "text/plain; charset=utf-8" tooLongText
  else
    match submitted r.body with
    | .error refusal => refusal
    | .ok v =>
      match Document.embedded v with
      | .error e => invalidJson e
      | .ok v => .success "JSON analysis completed" (Report.of v).toJson

def links : Response :=
  .json 200 (.object [
    ("npm_package", .text "https://www.npmjs.com/settings/zhanghongping/packages"),
    ("github_repo", .text "https://github.com/hongping1963-source/json-sage-workflow")])

def created (message : String) (id : Int) : Response :=
  .json 201 (.object [("message", .text message), ("id", .number (.integer id))])

/-- Runs an operation of the ledger on the record in the body. -/
def record {σ α β : Type} (form : Form σ α)
    (operate : Session → α → Except Ledger.Error β × Session)
    (answer : β → Response) (limit : Nat) (s : Session) (r : Request) : Response × Session :=
  match readBody form limit r with
  | .error e => (.internal e.text, s)
  | .ok a =>
    match operate s a with
    | (.error e, s) => (.ledgerFailure e.message, s)
    | (.ok b, s) => (answer b, s)

/-! ## Server -/

structure Server where
  session : Session
  bodyLimit : Nat

namespace Server

/-- A body may have a mebibyte unless the settings say otherwise. -/
def defaultBodyLimit : Nat := 1024 * 1024

/-- The answer of a route to a method that it answers, `now` being the time of the request. -/
def dispatch (s : Server) (now : String) (route : Route) (r : Request) : Response × Server :=
  let stored (x : Response × Session) : Response × Server := (x.1, { s with session := x.2 })
  match route with
  | .analyze => (analyze s.bodyLimit r, s)
  | .links => (if r.method = "HEAD" then links.withoutBody else links, s)
  | .users =>
    stored (record userForm (·.createUser · now) (fun u => created "User created" u.id)
      s.bodyLimit s.session r)
  | .expenses =>
    stored (record expenseForm (·.createExpense · now) (fun x => created "Expense created" x.id)
      s.bodyLimit s.session r)

/-- A response without a body has a length where the server knows the path, or where the target is
no path. -/
def bareLength (path : String) : Option Nat := if path.startsWith "/" then none else some 0

/-- Answers a request. A request for the options of a path never reaches a route. -/
def handle (s : Server) (now : String) (r : Request) : Response × Server :=
  match Route.ofPath? r.path with
  | none =>
    let length := bareLength r.path
    if r.method = "OPTIONS" then ({ Response.bare 200 with preflight := true, length }, s)
    else ({ Response.bare 404 with length }, s)
  | some route =>
    let bare (status : Nat) : Response :=
      { Response.bare status with allow := some route.allow, length := some 0 }
    if r.method = "OPTIONS" then ({ bare 200 with preflight := true }, s)
    else if r.method ∈ route.methods then s.dispatch now route r
    else (bare 405, s)

/-- Whether a request gets as far as the analysis of its body. -/
def analyzes (s : Server) (r : Request) : Bool :=
  Route.ofPath? r.path = some .analyze && r.method ∈ Route.analyze.methods && !r.exceeds s.bodyLimit

/-- What comes of a request where the stack has room for `room n` levels of a value that is freed while `n`
brackets are open: the answer and the server, or nothing, when the server has broken off in the middle of
it, for want of room to free what was decoded. -/
def respond (room : Nat → Nat) (s : Server) (now : String) (r : Request) : Option (Response × Server) :=
  if s.analyzes r && !(decodedTexts r.body).all (frees room) then none else some (s.handle now r)

/-- A server over a fresh private ledger. -/
def fresh (bodyLimit : Nat) : Server := ⟨Session.inMemory Files.Directory.empty, bodyLimit⟩

end Server

end ShapeLedger.Web
