/-
The limit on the length of a body as a cut. A body that keeps it is treated as though there were no limit, and
one beyond it is not looked at: the route and the headers alone decide the answer, and nothing is recorded. So
two servers that differ in their limits only can be told apart by no run of requests whose bodies keep both, and
requests with longer bodies leave no trace in a run.
-/
import ShapeLedger.Proofs.Web.Recording

namespace ShapeLedger.Web

open Json Ledger

/-! ## Definitions -/

/-- A POST to one of the routes that take a body. -/
structure Request.Posts (r : Request) (route : Route) : Prop where
  method : r.method = "POST"
  path : r.path = route.path
  takes : route = .analyze ∨ route = .users ∨ route = .expenses

/-- The answer to a body beyond the limit. The routes of the ledger look at the media type first. -/
def beyondLimit (route : Route) (json : Bool) : Response :=
  match route, json with
  | .analyze, _ =>
    .text 413 "text/plain; charset=utf-8" "Failed to buffer the request body: length limit exceeded"
  | _, true => .internal "Failed to buffer the request body: length limit exceeded"
  | _, false => .internal "Expected request with `Content-Type: application/json`"

/-- How a server with this ledger and this limit takes a request to a route, and runs of requests. -/
structure Server.Cut (session : Session) (limit : Nat) (now : String) (r : Request) (route : Route) : Prop where
  within : r.body.length ≤ limit → ∀ larger, limit ≤ larger →
    ((mk session limit).handle now r).1 = ((mk session larger).handle now r).1 ∧
    ((mk session limit).handle now r).2.session = ((mk session larger).handle now r).2.session
  /-- Any other body beyond the limit is answered like this one. -/
  beyond : ∀ body, limit < body.length →
    (mk session limit).handle now { r with body } = (beyondLimit route r.hasJson, mk session limit)
  alike : ∀ larger, limit ≤ larger → ∀ visits : List Visit, (∀ v ∈ visits, v.request.body.length ≤ limit) →
    (mk session limit).replies visits = (mk session larger).replies visits ∧
    ((mk session limit).after visits).session = ((mk session larger).after visits).session
  skipped : ∀ visits : List Visit,
    (mk session limit).after visits =
      (mk session limit).after (visits.filter (fun v => v.request.body.length ≤ limit))

/-! ## One request -/

section
variable {limit larger : Nat} {r : Request}

theorem Request.exceeds_eq_false : r.exceeds limit = false ↔ r.body.length ≤ limit := by
  unfold exceeds
  rw [decide_eq_false_iff_not, Nat.not_lt]

theorem Request.exceeds_eq_true : r.exceeds limit = true ↔ limit < r.body.length := decide_eq_true_iff

theorem Request.exceeds_mono (h : r.exceeds limit = false) (hl : limit ≤ larger) : r.exceeds larger = false := by
  rw [exceeds_eq_false] at h ⊢
  exact h.trans hl

/-- The limit is asked for nothing but whether the body is beyond it. -/
theorem readBody_congr {σ α : Type} (form : Form σ α) (h : r.exceeds limit = r.exceeds larger) :
    readBody form limit r = readBody form larger r := by
  unfold readBody
  rw [h]

theorem analyze_congr (h : r.exceeds limit = r.exceeds larger) : analyze limit r = analyze larger r := by
  unfold analyze
  rw [h]

theorem readBody_beyond {σ α : Type} (form : Form σ α) (h : r.exceeds limit = true) :
    readBody form limit r = .error (if r.hasJson then .tooLong else .notJson) := by
  unfold readBody
  cases r.hasJson <;> simp [h]

end

/-- A body beyond the limit asks for no call. -/
theorem Visit.call?_beyond {limit : Nat} {v : Visit} (h : v.request.exceeds limit = true) :
    v.call? limit = none := by
  simp only [call?, readBody_beyond _ h]
  split
  · split <;> rfl
  · rfl

namespace Server

variable {session : Session} {limit larger : Nat} {now : String} {r : Request} {route : Route}

theorem dispatch_congr (h : r.exceeds limit = r.exceeds larger) (route : Route) :
    (mk session limit).dispatch now route r =
      (((mk session larger).dispatch now route r).1,
        mk ((mk session larger).dispatch now route r).2.session limit) := by
  cases route with
  | analyze => simp only [dispatch, analyze_congr h]
  | links => rfl
  | users => simp only [dispatch, record, readBody_congr userForm h]
  | expenses => simp only [dispatch, record, readBody_congr expenseForm h]

/-- Two limits that a body keeps, or that it is beyond, make no difference to its request. -/
theorem handle_congr (h : r.exceeds limit = r.exceeds larger) :
    (mk session limit).handle now r =
      (((mk session larger).handle now r).1, mk ((mk session larger).handle now r).2.session limit) := by
  unfold handle
  cases hroute : Route.ofPath? r.path with
  | none => by_cases hm : r.method = "OPTIONS" <;> simp only [hm, if_true, if_false]
  | some route =>
    by_cases hm : r.method = "OPTIONS"
    · simp only [hm, if_true]
    · by_cases hr : r.method ∈ route.methods
      · simp only [hm, hr, if_true, if_false, dispatch_congr h route]
      · simp only [hm, hr, if_false]

/-- A server keeps its limit. -/
theorem answer_limit (session : Session) (limit : Nat) (v : Visit) :
    ((mk session limit).answer v).2 = mk ((mk session limit).answer v).2.session limit :=
  congrArg Prod.snd (handle_congr rfl)

theorem handle_beyond (hp : r.Posts route) (h : r.exceeds limit = true) :
    (mk session limit).handle now r = (beyondLimit route r.hasJson, mk session limit) := by
  -- nothing is recorded, so only the answer is left to find
  refine Prod.ext ?_ (answer_no_call (Visit.call?_beyond (v := ⟨now, r⟩) h)).2
  have hroute : Route.ofPath? r.path = some route := by
    rw [hp.path]
    rcases hp.takes with rfl | rfl | rfl <;> decide
  unfold handle
  rcases hp.takes with rfl | rfl | rfl
  · simp only [hroute, hp.method, dispatch, analyze, h]
    rfl
  · simp only [hroute, hp.method, dispatch, record, readBody_beyond _ h]
    cases r.hasJson <;> rfl
  · simp only [hroute, hp.method, dispatch, record, readBody_beyond _ h]
    cases r.hasJson <;> rfl

/-! ## Runs of requests -/

/-- By induction on the run: after each request the two ledgers are the same. -/
theorem runs_congr (visits : List Visit)
    (h : ∀ v ∈ visits, v.request.exceeds limit = v.request.exceeds larger) :
    (mk session limit).replies visits = (mk session larger).replies visits ∧
      ((mk session limit).after visits).session = ((mk session larger).after visits).session := by
  induction visits generalizing session with
  | nil => exact ⟨rfl, rfl⟩
  | cons v rest ih =>
    rw [List.forall_mem_cons] at h
    have hv : (mk session limit).answer v = (((mk session larger).answer v).1,
        mk ((mk session larger).answer v).2.session limit) := handle_congr h.1
    obtain ⟨hreplies, hafter⟩ := @ih ((mk session larger).answer v).2.session h.2
    constructor
    · rw [replies, replies, hv, hreplies, ← answer_limit]
    · rw [after, after, List.foldl_cons, List.foldl_cons, hv, answer_limit session larger]
      exact hafter

theorem after_skips (visits : List Visit) : (mk session limit).after visits =
    (mk session limit).after (visits.filter (fun v => v.request.body.length ≤ limit)) := by
  induction visits generalizing session with
  | nil => rfl
  | cons v rest ih =>
    by_cases hv : v.request.body.length ≤ limit
    · rw [List.filter_cons_of_pos (by simpa using hv)]
      show ((mk session limit).answer v).2.after rest = ((mk session limit).answer v).2.after _
      rw [answer_limit]
      exact ih
    · have hno := (answer_no_call (s := mk session limit)
        (Visit.call?_beyond (Request.exceeds_eq_true.2 (Nat.not_le.1 hv)))).2
      rw [List.filter_cons_of_neg (by simpa using hv)]
      show ((mk session limit).answer v).2.after rest = _
      rw [hno]
      exact ih

/-- Whatever the ledger is, the limit cuts off the longer bodies and does nothing else. -/
theorem body_cut (posts : r.Posts route) (session : Session) (limit : Nat) (now : String) :
    Cut session limit now r route where
  within hbody larger hl := by
    have hkeeps := Request.exceeds_eq_false.2 hbody
    rw [handle_congr (hkeeps.trans (Request.exceeds_mono hkeeps hl).symm)]
    exact ⟨rfl, rfl⟩
  beyond body hbody := by
    have hp : ({ r with body } : Request).Posts route := ⟨posts.method, posts.path, posts.takes⟩
    exact handle_beyond hp (Request.exceeds_eq_true.2 hbody)
  alike larger hl visits hbodies := by
    refine runs_congr visits fun v hv => ?_
    have hkeeps := Request.exceeds_eq_false.2 (hbodies v hv)
    rw [hkeeps, Request.exceeds_mono hkeeps hl]
  skipped := after_skips

/-- A body of four bytes sent to the ledger without a media type, on a server that takes three. -/
theorem body_cut_untyped :
    (⟨"POST", "/api/users", [], [0x6E, 0x75, 0x6C, 0x6C]⟩ : Request).Posts .users ∧
      (mk (Session.inMemory Files.Directory.empty) 3).handle ""
          ⟨"POST", "/api/users", [], [0x6E, 0x75, 0x6C, 0x6C]⟩ =
        (.internal "Expected request with `Content-Type: application/json`",
          mk (Session.inMemory Files.Directory.empty) 3) :=
  have hp : (⟨"POST", "/api/users", [], [0x6E, 0x75, 0x6C, 0x6C]⟩ : Request).Posts .users :=
    ⟨rfl, by decide, .inr (.inl rfl)⟩
  ⟨hp, (body_cut hp _ 3 "").beyond [0x6E, 0x75, 0x6C, 0x6C] (by decide)⟩

end Server

end ShapeLedger.Web
