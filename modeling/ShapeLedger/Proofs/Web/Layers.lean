/-
The layer that lets pages of any origin read the answers. The server says at once what a request is answered,
all headers included. Here it is taken apart into a router with a layer around each service that the router
chooses from: the handlers of the routes, the fallback of a path for other methods, and the fallback for other
paths. Outside the layer the router adds the headers of its own. The server is this router with its handlers
inside (`renders_served`).

Nothing is assumed of what stands inside the layer, be it further layers or a handler that breaks off: every
answer of the router has passed the layer, and a request for options gets no further than that.
-/
import ShapeLedger.Web.Server
import Mathlib.Data.List.Perm.Basic

namespace ShapeLedger.Web

open Json Ledger

/-! ## Services and layers -/

/-- An answer with its headers in any order. -/
structure Reply where
  status : Nat
  headers : List (String × String)
  body : String
deriving DecidableEq, Repr

/-- A service may look at the server, at the time and at the request, and may change the server. -/
abbrev Service := Server → String → Request → Reply × Server

def originHeader : String × String := ("access-control-allow-origin", "*")

/-- The headers that the layer adds to every answer. -/
def originHeaders : List (String × String) :=
  [originHeader, ("vary", "origin, access-control-request-method, access-control-request-headers")]

/-- The headers that it answers a request for options with beside them. -/
def preflightHeaders : List (String × String) :=
  [("access-control-allow-headers", "*"), ("access-control-allow-methods", "*")]

def Reply.adding (headers : List (String × String)) (a : Reply) : Reply :=
  { a with headers := headers ++ a.headers }

/-- The layer: it answers requests for options itself, and adds its headers to every other answer of the
service inside. -/
def shared (inside : Service) : Service := fun s now r =>
  if r.method = "OPTIONS" then (⟨200, originHeaders ++ preflightHeaders, ""⟩, s)
  else ((inside s now r).1.adding originHeaders, (inside s now r).2)

/-- The services that stand inside the layer. -/
structure Services where
  handler : Route → Service
  notAllowed : Route → Service
  notFound : Service

namespace Services

/-- The service that the router chooses for a request. -/
def choose (services : Services) (r : Request) : Service :=
  match Route.ofPath? r.path with
  | none => services.notFound
  | some route => if r.method ∈ route.methods then services.handler route else services.notAllowed route

/-- The length that the router gives a body: none where it knows no route and the target is a path. -/
def lengthOf (path body : String) : Option Nat :=
  match Route.ofPath? path with
  | none => if path.startsWith "/" then none else some body.utf8ByteSize
  | some _ => some body.utf8ByteSize

/-- The methods that the router lists where the path does not answer this one. -/
def allowed (r : Request) : Option String :=
  match Route.ofPath? r.path with
  | none => none
  | some route => if r.method ∈ route.methods then none else some route.allow

/-- The router adds its headers outside the layer. The body is left out when only the headers are asked for. -/
def routed (r : Request) (a : Reply) : Reply :=
  { a.adding (((lengthOf r.path a.body).map (fun n => ("content-length", toString n))).toList ++
      ((allowed r).map (("allow", ·))).toList) with
    body := if r.method = "HEAD" then "" else a.body }

def router (services : Services) : Service := fun s now r =>
  (routed r (shared (services.choose r) s now r).1, (shared (services.choose r) s now r).2)

end Services

/-! ## The services of the server -/

/-- The answer of a handler before the layers around it. -/
def Response.plain (a : Response) : Reply := ⟨a.status, (a.mediaType.map (("content-type", ·))).toList, a.body⟩

/-- A request for the headers alone is handled as the one that it stands for. -/
def Request.handled (r : Request) : Request := if r.method = "HEAD" then { r with method := "GET" } else r

namespace Services

def served : Services where
  handler route s now r := ((s.dispatch now route r.handled).1.plain, (s.dispatch now route r.handled).2)
  notAllowed _ s _ _ := (⟨405, [], ""⟩, s)
  notFound s _ _ := (⟨404, [], ""⟩, s)

end Services

/-- The same answer, with the headers in the order of their names. -/
structure Reply.Renders (a : Reply) (b : Response) : Prop where
  status : a.status = b.status
  headers : a.headers.Perm b.headers
  body : a.body = b.body

/-- What pages of any origin get to see of the answer to a request. -/
structure Server.Shares (s : Server) (now : String) (r : Request) : Prop where
  origin : (s.handle now r).1.headers.filter (·.1 = "access-control-allow-origin") = [originHeader]
  /-- A request for options is answered alike by all servers at all times, whatever else it says, and changes
  nothing. -/
  options : r.method = "OPTIONS" → (s.handle now r).1.status = 200 ∧ (s.handle now r).1.body = "" ∧
    preflightHeaders ⊆ (s.handle now r).1.headers ∧ (s.handle now r).2 = s ∧
    ∀ (s' : Server) (now' : String) (r' : Request), r'.method = "OPTIONS" → r'.path = r.path →
      (s'.handle now' r').1 = (s.handle now r).1
  /-- The server is the router with its own services inside the layer. -/
  layered : (Services.served.router s now r).1.Renders (s.handle now r).1 ∧
    (Services.served.router s now r).2 = (s.handle now r).2
  /-- Whatever stands inside, no answer escapes the layer. -/
  covered : ∀ services : Services, originHeader ∈ (services.router s now r).1.headers
  /-- For options nothing that stands inside is asked. -/
  unasked : r.method = "OPTIONS" → ∀ services : Services,
    services.router s now r = Services.served.router s now r ∧ (services.router s now r).2 = s ∧
      preflightHeaders ⊆ (services.router s now r).1.headers

/-! ## The layer -/

section
variable {s : Server} {now : String} {r : Request}

theorem shared_options (h : r.method = "OPTIONS") (inside : Service) :
    shared inside s now r = (⟨200, originHeaders ++ preflightHeaders, ""⟩, s) := if_pos h

theorem shared_other (h : r.method ≠ "OPTIONS") (inside : Service) :
    shared inside s now r = ((inside s now r).1.adding originHeaders, (inside s now r).2) := if_neg h

theorem originHeader_shared (inside : Service) : originHeader ∈ (shared inside s now r).1.headers := by
  have hown : originHeader ∈ originHeaders := List.mem_cons_self
  by_cases h : r.method = "OPTIONS"
  · rw [shared_options h]
    exact List.mem_append_left _ hown
  · rw [shared_other h]
    exact List.mem_append_left _ hown

/-- The router takes no header away. -/
theorem subset_router (services : Services) :
    (shared (services.choose r) s now r).1.headers ⊆ (services.router s now r).1.headers :=
  List.subset_append_right _ _

theorem router_options (h : r.method = "OPTIONS") (services services' : Services) :
    services.router s now r = services'.router s now r := by
  simp only [Services.router, shared_options h]

/-! ## The handlers -/

/-- A text with its type and its length, and with no header of a layer. -/
def Response.IsText (a : Response) : Prop := ∃ status mediaType body, a = .text status mediaType body

theorem isText_submitted {body : Bytes} {refusal : Response} (h : submitted body = .error refusal) :
    refusal.IsText := by
  unfold submitted at h
  split at h
  · cases h; exact ⟨_, _, _, rfl⟩
  · split at h
    · cases h; exact ⟨_, _, _, rfl⟩
    · split at h <;> cases h
      exact ⟨_, _, _, rfl⟩
    · cases h; exact ⟨_, _, _, rfl⟩

theorem isText_analyze (limit : Nat) (r : Request) : (analyze limit r).IsText := by
  unfold analyze
  split
  · exact ⟨_, _, _, rfl⟩
  · split
    · next h => exact isText_submitted h
    · split <;> exact ⟨_, _, _, rfl⟩

theorem isText_record {σ α β : Type} (form : Form σ α) {operate : Session → α → Except Ledger.Error β × Session}
    {answer : β → Response} (h : ∀ b, (answer b).IsText) (limit : Nat) (session : Session) (r : Request) :
    (record form operate answer limit session r).1.IsText := by
  unfold record
  split
  · exact ⟨_, _, _, rfl⟩
  · split
    · exact ⟨_, _, _, rfl⟩
    · exact h _

/-- Every handler answers with a text, which a request for the headers alone does not get. -/
theorem isText_dispatch (s : Server) (now : String) (route : Route) (h : r.method ≠ "HEAD") :
    (s.dispatch now route r).1.IsText := by
  have hcreated (message : String) (id : Int) : (created message id).IsText := ⟨_, _, _, rfl⟩
  cases route with
  | analyze => exact isText_analyze _ _
  | links => simp only [Server.dispatch, if_neg h]; exact ⟨_, _, _, rfl⟩
  | users => exact isText_record _ (fun _ => hcreated _ _) _ _ _
  | expenses => exact isText_record _ (fun _ => hcreated _ _) _ _ _

/-! ## The server as a router -/

theorem Request.handled_method (r : Request) : r.handled.method ≠ "HEAD" := by
  unfold handled
  split
  · simp
  · assumption

/-- The headers of a response: those that the router adds, those of the layer and those of a handler. -/
theorem headers_perm (a : Response) :
    ((a.length.map (fun n => ("content-length", toString n))).toList ++ (a.allow.map (("allow", ·))).toList ++
      (originHeaders ++ ((if a.preflight then preflightHeaders else []) ++ a.plain.headers))).Perm a.headers := by
  refine List.perm_iff_count.2 fun header => ?_
  simp only [Response.headers, Response.plain, originHeaders, originHeader, preflightHeaders, List.count_append,
    List.count_cons, List.count_nil]
  omega

/-- The answer to a request for the options of a path. -/
def optionsAnswer (path : String) : Response :=
  ⟨200, true, (Route.ofPath? path).map Route.allow, Services.lengthOf path "", none, ""⟩

theorem handle_options (h : r.method = "OPTIONS") : s.handle now r = (optionsAnswer r.path, s) := by
  unfold Server.handle optionsAnswer Services.lengthOf
  split <;> next hr => rw [if_pos h, hr]; rfl

theorem not_answers_options (route : Route) : "OPTIONS" ∉ route.methods := by cases route <;> decide

namespace Services

/-- An answer that has passed the layer and the router is shown by a response with these headers. -/
theorem renders_routed {a : Reply} {b : Response} (hs : a.status = b.status)
    (hh : a.headers = originHeaders ++ ((if b.preflight then preflightHeaders else []) ++ b.plain.headers))
    (hl : lengthOf r.path a.body = b.length) (ha : allowed r = b.allow)
    (hb : (if r.method = "HEAD" then "" else a.body) = b.body) : (routed r a).Renders b := by
  refine ⟨hs, ?_, hb⟩
  rw [routed, Reply.adding, hh, hl, ha]
  exact headers_perm b

theorem renders_options (h : r.method = "OPTIONS") :
    (served.router s now r).1.Renders (s.handle now r).1 ∧ (served.router s now r).2 = (s.handle now r).2 := by
  rw [handle_options h, router, shared_options h]
  refine ⟨renders_routed rfl rfl rfl ?_ (ite_self _), rfl⟩
  rw [allowed, optionsAnswer, h]
  cases Route.ofPath? r.path with
  | none => rfl
  | some route => exact if_neg (not_answers_options route)

/-- Where no route is found. -/
theorem renders_notFound (ho : r.method ≠ "OPTIONS") (hr : Route.ofPath? r.path = none) :
    (served.router s now r).1.Renders (s.handle now r).1 ∧ (served.router s now r).2 = (s.handle now r).2 := by
  have hanswer : s.handle now r = ({ Response.bare 404 with length := Server.bareLength r.path }, s) := by
    simp only [Server.handle, hr, if_neg ho]
  have hchosen : served.choose r = served.notFound := by simp only [choose, hr]
  rw [hanswer, router, shared_other ho, hchosen]
  refine ⟨renders_routed rfl rfl ?_ ?_ (ite_self _), rfl⟩
  · rw [lengthOf, hr]; rfl
  · rw [allowed, hr]; rfl

/-- Where the path does not answer the method. -/
theorem renders_notAllowed (ho : r.method ≠ "OPTIONS") {route : Route} (hr : Route.ofPath? r.path = some route)
    (hm : r.method ∉ route.methods) :
    (served.router s now r).1.Renders (s.handle now r).1 ∧ (served.router s now r).2 = (s.handle now r).2 := by
  have hanswer : s.handle now r = ({ Response.bare 405 with allow := some route.allow, length := some 0 }, s) := by
    simp only [Server.handle, hr, if_neg ho, if_neg hm]
  have hchosen : served.choose r = served.notAllowed route := by simp only [choose, hr, if_neg hm]
  rw [hanswer, router, shared_other ho, hchosen]
  refine ⟨renders_routed rfl rfl ?_ ?_ (ite_self _), rfl⟩
  · rw [lengthOf, hr]; rfl
  · rw [allowed, hr]; exact if_neg hm

/-- Where a handler answers. -/
theorem renders_handler (ho : r.method ≠ "OPTIONS") {route : Route} (hr : Route.ofPath? r.path = some route)
    (hm : r.method ∈ route.methods) :
    (served.router s now r).1.Renders (s.handle now r).1 ∧ (served.router s now r).2 = (s.handle now r).2 := by
  have hanswer : s.handle now r = s.dispatch now route r := by
    simp only [Server.handle, hr, if_neg ho, if_pos hm]
  have hchosen : served.choose r = served.handler route := by simp only [choose, hr, if_pos hm]
  have hlength (body : String) : lengthOf r.path body = some body.utf8ByteSize := by rw [lengthOf, hr]
  have hallow : allowed r = none := by rw [allowed, hr]; exact if_pos hm
  rw [hanswer, router, shared_other ho, hchosen]
  simp only [served]
  by_cases hhead : r.method = "HEAD"
  · obtain rfl : route = .links := by
      rw [hhead] at hm
      cases route <;> first | rfl | exact absurd hm (by decide)
    have hlinks : s.dispatch now .links r.handled = (links, s) := by
      simp only [Server.dispatch, if_neg r.handled_method]
    have hbare : s.dispatch now .links r = (links.withoutBody, s) := by
      simp only [Server.dispatch, if_pos hhead]
    rw [hlinks, hbare]
    exact ⟨renders_routed rfl rfl (hlength _) hallow (if_pos hhead), rfl⟩
  · rw [show r.handled = r from if_neg hhead]
    obtain ⟨status, mediaType, body, htext⟩ := isText_dispatch s now route hhead
    rw [htext]
    exact ⟨renders_routed rfl rfl (hlength _) hallow (if_neg hhead), rfl⟩

theorem renders_served (s : Server) (now : String) (r : Request) :
    (served.router s now r).1.Renders (s.handle now r).1 ∧ (served.router s now r).2 = (s.handle now r).2 := by
  by_cases ho : r.method = "OPTIONS"
  · exact renders_options ho
  · cases hr : Route.ofPath? r.path with
    | none => exact renders_notFound ho hr
    | some route =>
      by_cases hm : r.method ∈ route.methods
      · exact renders_handler ho hr hm
      · exact renders_notAllowed ho hr hm

end Services

/-- The header of the layer stands in a response once. -/
theorem origin_once (a : Response) :
    a.headers.filter (·.1 = "access-control-allow-origin") = [originHeader] := by
  obtain ⟨status, preflight, allow, length, mediaType, body⟩ := a
  cases preflight <;> cases allow <;> cases length <;> cases mediaType <;> simp [Response.headers, originHeader]

theorem preflightHeaders_optionsAnswer (path : String) : preflightHeaders ⊆ (optionsAnswer path).headers := by
  simp [preflightHeaders, optionsAnswer, Response.headers]

/-- Every request, on every server. -/
theorem Server.answer_shared (s : Server) (now : String) (r : Request) : s.Shares now r := by
  refine ⟨origin_once _, ?options, Services.renders_served s now r, ?covered, ?unasked⟩
  case options =>
    intro h
    rw [handle_options h]
    refine ⟨rfl, rfl, preflightHeaders_optionsAnswer _, rfl, fun s' now' r' h' hp => ?_⟩
    rw [handle_options h', hp]
  case covered => exact fun services => subset_router services (originHeader_shared _)
  case unasked =>
    intro h services
    refine ⟨router_options h _ _, ?_, ?_⟩
    · rw [Services.router, shared_options h]
    · refine List.Subset.trans ?_ (subset_router services)
      rw [shared_options h]
      exact List.subset_append_right _ _

end

end ShapeLedger.Web
