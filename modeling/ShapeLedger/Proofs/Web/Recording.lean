/-
What a run of requests does to the ledger behind a server. A response is a 201 exactly when a call
has added its row; any other response leaves the server as it was. So the server simulates a ledger
on which only the accepted calls are made, and it numbers their rows without a gap.

`answer_cases` says once what a request can do. The rest is by induction on the run, with `Follows`
as the invariant: it ties the ledger to the calls accepted so far.
-/
import ShapeLedger.Proofs.Ledger.Call
import ShapeLedger.Web.Server

namespace ShapeLedger.Web

open Json Ledger

/-! ## Runs -/

/-- A request, and the time at which it comes. -/
structure Visit where
  now : String
  request : Request

namespace Visit

/-- The call that a request asks for, if it asks for one in a way that the ledger's routes can read. -/
def call? (limit : Nat) (v : Visit) : Option Call :=
  if v.request.method = "POST" then
    match Route.ofPath? v.request.path with
    | some .users =>
      match readBody userForm limit v.request with
      | .ok u => some (.user u v.now)
      | .error _ => none
    | some .expenses =>
      match readBody expenseForm limit v.request with
      | .ok x => some (.expense x v.now)
      | .error _ => none
    | _ => none
  else none

end Visit

/-- Where calls for a table are sent to. -/
def ledgerPath : Subject → String
  | .user => "/api/users"
  | .expense => "/api/expenses"

/-- What is said of a row that has been added. -/
def createdMessage : Subject → String
  | .user => "User created"
  | .expense => "Expense created"

namespace Server

/-- The response to a visit, and the server after it. -/
def answer (s : Server) (v : Visit) : Response × Server := s.handle v.now v.request

/-- The server after the visits. -/
def after (s : Server) (visits : List Visit) : Server := visits.foldl (fun s v => (s.answer v).2) s

/-- The visits, each with its response. -/
def replies (s : Server) : List Visit → List (Visit × Response)
  | [] => []
  | v :: rest => (v, (s.answer v).1) :: replies (s.answer v).2 rest

/-- The calls of the visits that were answered with a 201, in their order. -/
def accepted (s : Server) (visits : List Visit) : List Call :=
  (s.replies visits).filterMap (fun x => if x.2.status = 201 then x.1.call? s.bodyLimit else none)

/-- How many of the visits to a path were answered with a 201. -/
def acceptedAt (s : Server) (path : String) (visits : List Visit) : Nat :=
  (s.replies visits).countP (fun x => x.2.status = 201 && x.1.request.path = path)

/-- What a visit `v` does to a server that has been fresh before the `earlier` ones. -/
structure Recorded (limit : Nat) (earlier : List Visit) (v : Visit) : Prop where
  /-- A 201 answers a call: its row is added to its table, nothing else is touched, and it is
  numbered by the 201s of its route so far. -/
  created : (((fresh limit).after earlier).answer v).1.status = 201 →
    ∃ c t t' id, v.call? limit = some c ∧ v.request.method = "POST" ∧
      v.request.path = ledgerPath c.subject ∧
      ((fresh limit).after earlier).session.Holds t ∧
      (((fresh limit).after earlier).answer v).2.session.Holds t' ∧
      t.Appended t' (c.row id) ∧ c.Fits (c.row id) ∧
      id = (fresh limit).acceptedAt v.request.path earlier + 1 ∧
      (((fresh limit).after earlier).answer v).1 = Web.created (createdMessage c.subject) id
  /-- Any other answer leaves the server as it was. -/
  refused : (((fresh limit).after earlier).answer v).1.status ≠ 201 →
    (((fresh limit).after earlier).answer v).2 = (fresh limit).after earlier
  /-- What has been recorded does not show in the answers of the other routes. -/
  stateless : v.request.path = "/api/analyze" ∨ v.request.path = "/api/links" →
    (((fresh limit).after earlier).answer v).1 = ((fresh limit).answer v).1

end Server

/-! ## One visit -/

section

variable {σ α β : Type} {form : Form σ α} {limit : Nat} {r : Request}

theorem record_ok {a : α} (h : readBody form limit r = .ok a)
    (operate : Session → α → Except Ledger.Error β × Session) (answer : β → Response) (s : Session) :
    record form operate answer limit s r =
      match operate s a with
      | (.error e, s) => (.ledgerFailure e.message, s)
      | (.ok b, s) => (answer b, s) := by
  rcases ho : operate s a with ⟨e | b, s'⟩ <;> simp only [record, h, ho]

theorem record_error {e : BodyError} (h : readBody form limit r = .error e)
    (operate : Session → α → Except Ledger.Error β × Session) (answer : β → Response) (s : Session) :
    record form operate answer limit s r = (.internal e.text, s) := by
  simp only [record, h]

end

theorem submitted_status {body : Bytes} {refusal : Response} (h : submitted body = .error refusal) :
    refusal.status = 400 := by
  unfold submitted at h
  split at h
  · cases h; rfl
  · split at h
    · cases h; rfl
    · split at h <;> cases h
      rfl
    · cases h; rfl

theorem analyze_status (limit : Nat) (r : Request) : (analyze limit r).status ≠ 201 := by
  unfold analyze
  split
  · decide
  · split
    · next he =>
      rw [submitted_status he]
      decide
    · split
      · show 400 ≠ 201; decide
      · show 200 ≠ 201; decide

theorem links_status : links.status ≠ 201 := by show 200 ≠ 201; decide

namespace Server

/-- What a call answers, and the server after it. -/
def outcome (s : Server) (c : Call) : Response × Server :=
  match c.create s.session with
  | (.error e, session) => (.ledgerFailure e.message, { s with session })
  | (.ok row, session) => (created (createdMessage c.subject) row.id, { s with session })

/-- A request that asks for a call gets what the call answers. -/
theorem answer_call {s : Server} {v : Visit} {c : Call} (h : v.call? s.bodyLimit = some c) :
    s.answer v = s.outcome c := by
  unfold Visit.call? at h
  split at h
  · next hm =>
    unfold answer handle
    split at h
    · next hr =>
      split at h
      · next u hb =>
        cases h
        simp only [hr, hm, dispatch, record_ok hb, outcome, Call.create]
        rcases s.session.createUser u v.now with ⟨e | row, s'⟩ <;> rfl
      · cases h
    · next hr =>
      split at h
      · next x hb =>
        cases h
        simp only [hr, hm, dispatch, record_ok hb, outcome, Call.create]
        rcases s.session.createExpense x v.now with ⟨e | row, s'⟩ <;> rfl
      · cases h
    · cases h
  · cases h

/-- A route that is asked for no call gives no 201 and changes nothing. -/
theorem dispatch_no_call {s : Server} {v : Visit} (h : v.call? s.bodyLimit = none) {route : Route}
    (hr : Route.ofPath? v.request.path = some route) (hm : v.request.method ∈ route.methods) :
    (s.dispatch v.now route v.request).1.status ≠ 201 ∧ (s.dispatch v.now route v.request).2 = s := by
  cases route with
  | analyze => exact ⟨analyze_status _ _, rfl⟩
  | links =>
    refine ⟨?_, rfl⟩
    show (if v.request.method = "HEAD" then links.withoutBody else links).status ≠ 201
    split
    · exact links_status
    · exact links_status
  | users =>
    have hp : v.request.method = "POST" := by simpa [Route.methods] using hm
    simp only [Visit.call?, hp, if_true, hr] at h
    split at h
    · cases h
    · next hb =>
      simp only [dispatch, record_error hb]
      exact ⟨by show 500 ≠ 201; decide, trivial⟩
  | expenses =>
    have hp : v.request.method = "POST" := by simpa [Route.methods] using hm
    simp only [Visit.call?, hp, if_true, hr] at h
    split at h
    · cases h
    · next hb =>
      simp only [dispatch, record_error hb]
      exact ⟨by show 500 ≠ 201; decide, trivial⟩

/-- A request that asks for no call gets no 201 and changes nothing. -/
theorem answer_no_call {s : Server} {v : Visit} (h : v.call? s.bodyLimit = none) :
    (s.answer v).1.status ≠ 201 ∧ (s.answer v).2 = s := by
  unfold answer handle
  split
  · -- no route: 404, or 200 for the options
    split <;> exact ⟨by simp [Response.bare], rfl⟩
  · next route hr =>
    split
    · exact ⟨by simp [Response.bare], rfl⟩
    · split
      · next hm => exact dispatch_no_call h hr hm
      · exact ⟨by simp [Response.bare], rfl⟩

end Server

theorem ofPath?_eq_some {path : String} {route : Route} (h : Route.ofPath? path = some route) :
    path = route.path := by
  have hp := List.find?_some h
  rw [decide_eq_true_eq] at hp
  exact hp.symm

/-- A call is asked for at the path of its table. -/
theorem Visit.call?_path {limit : Nat} {v : Visit} {c : Call} (h : v.call? limit = some c) :
    v.request.method = "POST" ∧ v.request.path = ledgerPath c.subject := by
  unfold call? at h
  split at h
  · next hm =>
    refine ⟨hm, ?_⟩
    split at h
    · next hr =>
      split at h <;> cases h
      exact ofPath?_eq_some hr
    · next hr =>
      split at h <;> cases h
      exact ofPath?_eq_some hr
    · cases h
  · cases h

namespace Server

/-- A request gets no 201 and changes nothing, or it asks for a call that adds its row and it is
answered the id of that row. -/
theorem answer_cases {s : Server} {t : Tables} (h : s.session.Serves t) (v : Visit) :
    ((s.answer v).1.status ≠ 201 ∧ (s.answer v).2 = s) ∨
    ∃ c s', v.call? s.bodyLimit = some c ∧ c.fault? t = none ∧ s'.Serves (c.add t) ∧
      s'.pool.home.writable = s.session.pool.home.writable ∧ (c.create s.session).2 = s' ∧
      s.answer v = (created (createdMessage c.subject) (c.nextId t), { s with session := s' }) := by
  cases hc : v.call? s.bodyLimit with
  | none => exact Or.inl (answer_no_call hc)
  | some c =>
    rw [answer_call hc]
    unfold outcome
    rw [Call.create_eq_insert h]
    rcases Call.insert_outcome h c with ⟨e, he⟩ | ⟨s', hi, hf, h', hw⟩
    · rw [he]
      exact Or.inl ⟨by show 500 ≠ 201; decide, rfl⟩
    · rw [hi]
      refine Or.inr ⟨c, s', rfl, hf, h', hw, by rw [Call.create_eq_insert h, hi], ?_⟩
      simp only [Except.map, Call.row_id]

/-- The routes that are not the ledger's answer from the request and the limit alone. -/
theorem answer_stateless {s s' : Server} (hl : s.bodyLimit = s'.bodyLimit) {v : Visit}
    (hp : v.request.path = "/api/analyze" ∨ v.request.path = "/api/links") :
    (s.answer v).1 = (s'.answer v).1 := by
  have hr : Route.ofPath? v.request.path = some .analyze ∨ Route.ofPath? v.request.path = some .links := by
    rcases hp with hp | hp <;> rw [hp] <;> decide
  unfold answer handle
  -- neither route looks at the session, whatever the method
  rcases hr with hr | hr <;> simp only [hr] <;> split
  · rfl
  · split
    · simp only [dispatch, hl]
    · rfl
  · rfl
  · split <;> rfl

/-! ## Runs of visits -/

theorem after_append (s : Server) (visits : List Visit) (v : Visit) :
    s.after (visits ++ [v]) = ((s.after visits).answer v).2 := List.foldl_append

theorem replies_append (s : Server) (visits : List Visit) (v : Visit) :
    s.replies (visits ++ [v]) = s.replies visits ++ [(v, ((s.after visits).answer v).1)] := by
  induction visits generalizing s with
  | nil => rfl
  | cons w rest ih => simp only [List.cons_append, replies, ih, after, List.foldl_cons]

/-- The server after a run, and the ledger that it simulates: the accepted calls alone lead to the
same session, and the ids of a table are counted by the 201s at its path. -/
structure Follows (limit : Nat) (visits : List Visit) (t : Tables) : Prop where
  bodyLimit : ((fresh limit).after visits).bodyLimit = limit
  serves : ((fresh limit).after visits).session.Serves t
  writable : ((fresh limit).after visits).session.pool.home.writable = true
  users : t.users.lastId = (fresh limit).acceptedAt "/api/users" visits
  expenses : t.expenses.lastId = (fresh limit).acceptedAt "/api/expenses" visits
  replay : ((fresh limit).after visits).session =
    ((fresh limit).accepted visits).foldl (fun s c => (c.create s).2)
      (Session.inMemory Files.Directory.empty)

theorem accepted_append (s : Server) (visits : List Visit) (v : Visit) :
    s.accepted (visits ++ [v]) = s.accepted visits ++
      (if ((s.after visits).answer v).1.status = 201 then v.call? s.bodyLimit else none).toList := by
  unfold accepted
  rw [replies_append, List.filterMap_append]
  congr 1

theorem acceptedAt_append (s : Server) (path : String) (visits : List Visit) (v : Visit) :
    s.acceptedAt path (visits ++ [v]) = s.acceptedAt path visits +
      if ((s.after visits).answer v).1.status = 201 ∧ v.request.path = path then 1 else 0 := by
  unfold acceptedAt
  rw [replies_append, List.countP_append, List.countP_singleton]
  simp

/-- The next id of a table is one more than the number of 201s at its path. -/
theorem Follows.nextId {limit : Nat} {visits : List Visit} {t : Tables} (h : Follows limit visits t)
    (c : Call) : c.nextId t = (fresh limit).acceptedAt (ledgerPath c.subject) visits + 1 := by
  cases c with
  | user u now => simp only [Call.nextId, Table.nextId, h.users, Call.subject, ledgerPath]
  | expense x now => simp only [Call.nextId, Table.nextId, h.expenses, Call.subject, ledgerPath]

theorem follows_nil (limit : Nat) : Follows limit [] .empty :=
  ⟨rfl, ⟨rfl, rfl, Tables.empty_wf⟩, rfl, rfl, rfl, rfl⟩

/-- The invariant survives a visit. -/
theorem Follows.step {limit : Nat} {visits : List Visit} {t : Tables} (h : Follows limit visits t)
    (v : Visit) : ∃ t', Follows limit (visits ++ [v]) t' := by
  rcases answer_cases h.serves v with ⟨hst, hs⟩ | ⟨c, s', hc, hf, hs', hw, hrun, hans⟩
  · -- nothing has changed, and no 201 is added to the count
    have hafter : (fresh limit).after (visits ++ [v]) = (fresh limit).after visits := by
      rw [after_append, hs]
    refine ⟨t, ?_, ?_, ?_, ?_, ?_, ?_⟩
    · rw [hafter]; exact h.bodyLimit
    · rw [hafter]; exact h.serves
    · rw [hafter]; exact h.writable
    · rw [acceptedAt_append, if_neg (fun hp => hst hp.1)]; exact h.users
    · rw [acceptedAt_append, if_neg (fun hp => hst hp.1)]; exact h.expenses
    · rw [hafter, accepted_append, if_neg hst, Option.toList_none, List.append_nil]
      exact h.replay
  · -- one row more in its table, and one 201 more at its path
    have h201 : (((fresh limit).after visits).answer v).1.status = 201 := by rw [hans]; rfl
    -- the limit is still that of the fresh server
    rw [h.bodyLimit] at hc
    refine ⟨c.add t, ?_, ?_, ?_, ?_, ?_, ?_⟩
    · rw [after_append, hans]; exact h.bodyLimit
    · rw [after_append, hans]; exact hs'
    · rw [after_append, hans]; exact hw.trans h.writable
    · rw [acceptedAt_append, h201, (Visit.call?_path hc).2, ← h.users]
      cases c <;> rfl
    · rw [acceptedAt_append, h201, (Visit.call?_path hc).2, ← h.expenses]
      cases c <;> rfl
    · rw [after_append, hans, accepted_append, if_pos h201]
      simp only [show (fresh limit).bodyLimit = limit from rfl, hc, Option.toList_some, List.foldl_append,
        List.foldl_cons, List.foldl_nil, ← h.replay]
      exact hrun.symm

theorem exists_follows (limit : Nat) (visits : List Visit) : ∃ t, Follows limit visits t := by
  induction visits using List.reverseRecOn with
  | nil => exact ⟨_, follows_nil limit⟩
  | append_singleton visits v ih =>
    obtain ⟨t, h⟩ := ih
    exact h.step v

/-- A 201 is given exactly to the calls that break no rule. -/
theorem created_iff (limit : Nat) (earlier : List Visit) (v : Visit) {t : Tables}
    (ht : ((fresh limit).after earlier).session.Holds t) :
    (((fresh limit).after earlier).answer v).1.status = 201 ↔
      ∃ c, v.call? limit = some c ∧ c.fault? t = none := by
  obtain ⟨t', h⟩ := exists_follows limit earlier
  obtain rfl : t' = t := by
    have he := h.serves.holds.symm.trans ht
    simpa using he
  constructor
  · intro h201
    rcases answer_cases h.serves v with ⟨hst, -⟩ | ⟨c, s', hc, hf, -⟩
    · exact absurd h201 hst
    · rw [h.bodyLimit] at hc
      exact ⟨c, hc, hf⟩
  · rintro ⟨c, hc, hf⟩
    rw [← h.bodyLimit] at hc
    rw [answer_call hc, outcome, Call.create_eq_insert h.serves,
      Call.insert_of_no_fault h.serves h.writable hf]
    rfl

/-- Whatever is sent to a server over a fresh ledger: each visit is recorded if it is answered with
a 201 and does nothing otherwise, and the calls of those visits alone, made in their order on a
fresh ledger, lead to the same ledger. -/
theorem visits_recorded (limit : Nat) (earlier : List Visit) (v : Visit) :
    Recorded limit earlier v ∧
      ((fresh limit).after earlier).session =
        ((fresh limit).accepted earlier).foldl (fun s c => (c.create s).2)
          (Session.inMemory Files.Directory.empty) := by
  obtain ⟨t, h⟩ := exists_follows limit earlier
  refine ⟨⟨?_, ?_, ?_⟩, h.replay⟩
  · intro h201
    rcases answer_cases h.serves v with ⟨hst, -⟩ | ⟨c, s', hc, hf, hs', -, -, hans⟩
    · exact absurd h201 hst
    · rw [h.bodyLimit] at hc
      obtain ⟨hm, hp⟩ := Visit.call?_path hc
      refine ⟨c, t, c.add t, c.nextId t, hc, hm, hp, h.serves.holds, ?_, Call.appended_add c t,
        Call.fits_row hf _, ?_, ?_⟩
      · rw [hans]; exact hs'.holds
      · rw [hp]; exact h.nextId c
      · rw [hans]
  · intro hst
    rcases answer_cases h.serves v with ⟨-, hs⟩ | ⟨c, s', -, -, -, -, -, hans⟩
    · exact hs
    · exact absurd (by rw [hans]; rfl) hst
  · exact answer_stateless h.bodyLimit

end Server

end ShapeLedger.Web
