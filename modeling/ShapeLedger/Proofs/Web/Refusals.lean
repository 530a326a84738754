/-
Everything that can be answered to a request for the ledger. It is a 201, or a 500 whose message has one of
two causes: the body holds no record for the table, or the record breaks one of the rules that the table
has for what is given. Nothing else that can go wrong with a ledger is ever seen: the schema is there, the
lock is healthy, a row just added is found again, and an amount that has been read is a number.
-/
import ShapeLedger.Proofs.Web.Body
import ShapeLedger.Proofs.Web.Envelope

namespace ShapeLedger.Web

open Json Json.Grammar Ledger

/-! ## Definitions -/

/-- The rules that a request can break in a table, with the words for each. -/
def violations : Subject → List (Rule × String)
  | .user => [(.usernameLength, "CHECK constraint failed: length(username) <= 80"),
      (.usernameUnique, "UNIQUE constraint failed: users.username")]
  | .expense => [(.descriptionLength,
        "CHECK constraint failed: description IS NULL OR length(description) <= 200"),
      (.userExists, "FOREIGN KEY constraint failed")]

/-- Why a text is no record for a table. -/
inductive NoRecord (body : Bytes) : Subject → RecordError → Prop where
  | user {e : RecordError} (h : userForm.parse body = .error e) : NoRecord body .user e
  | expense {e : RecordError} (h : expenseForm.parse body = .error e) : NoRecord body .expense e

/-- The body of a request to a table is refused with these words: for its type, for its length, for a text
that is no JSON, or for one that is no record. -/
inductive BodyRefused (limit : Nat) (subject : Subject) (r : Request) : String → Prop where
  | type (h : r.hasJson = false) :
      BodyRefused limit subject r "Expected request with `Content-Type: application/json`"
  | length (hj : r.hasJson = true) (h : limit < r.body.length) :
      BodyRefused limit subject r "Failed to buffer the request body: length limit exceeded"
  | malformed {e : RecordError} {reason : Reason} (hj : r.hasJson = true) (hl : r.body.length ≤ limit)
      (h : NoRecord r.body subject e) (hc : e.complaint = .malformed reason) :
      BodyRefused limit subject r ("Failed to parse the request body as JSON: " ++ e.message)
  | mismatch {e : RecordError} {m : Mismatch} (hj : r.hasJson = true) (hl : r.body.length ≤ limit)
      (h : NoRecord r.body subject e) (hc : e.complaint = .mismatch m) :
      BodyRefused limit subject r
        ("Failed to deserialize the JSON body into the target type: " ++ e.message)

/-- What can come of a POST to the path of a table, on a server that has been fresh before the `earlier`
visits. -/
structure Server.Confined (limit : Nat) (earlier : List Visit) (v : Visit) (subject : Subject) : Prop where
  status : (((fresh limit).after earlier).answer v).1.status = 201 ∨
    (((fresh limit).after earlier).answer v).1.status = 500
  created : (((fresh limit).after earlier).answer v).1.status = 201 →
    ∃ id, (((fresh limit).after earlier).answer v).1 = Web.created (createdMessage subject) id
  /-- A 500 has one of two causes, and says nothing beside its message. -/
  failed : (((fresh limit).after earlier).answer v).1.status = 500 →
    ∃ message, (((fresh limit).after earlier).answer v).1 = .internal message ∧
      (((fresh limit).after earlier).answer v).1.Says
        (.object [("status", .text "error"), ("message", .text message)]) ∧
      (BodyRefused limit subject v.request message ∨
        ∃ rule words, (rule, words) ∈ violations subject ∧
          message = "Database error: Constraint violation: " ++ words)
  /-- The ledger refuses a call for a rule of its table alone. -/
  errors : ∀ c e, v.call? limit = some c → (c.create ((fresh limit).after earlier).session).1 = .error e →
    ∃ rule words, (rule, words) ∈ violations subject ∧ e = .constraint rule
  /-- A row that has been added is read back. -/
  readBack : ∀ c id, v.call? limit = some c →
    (c.insert ((fresh limit).after earlier).session).1 = .ok id →
    c.readBack (c.insert ((fresh limit).after earlier).session).2 id = .ok (c.row id)
  /-- An amount that reaches the ledger is a number, and so is what is stored of it. -/
  amount : ∀ x now, v.call? limit = some (.expense x now) →
    x.amount.isFinite = true ∧ (storedAmount x.amount).isFinite = true

/-! ## Amounts -/

/-- A number is denoted by a literal. -/
theorem Grammar.Denotes.exists_numeral {t : Bytes} {x : Number} (h : Denotes t (.value (.number x))) :
    ∃ n, NumberDenotes n x := by
  cases h with
  | number _ hx => exact ⟨_, hx⟩

/-- What is read as an amount is finite. -/
theorem isFinite_of_asReal? {t : Bytes} {v : Value} {x : Binary64} (ht : Denotes t (.value v))
    (hv : asReal? v = some x) : x.isFinite = true := by
  obtain ⟨y, rfl⟩ := asReal?_eq_some hv
  obtain ⟨n, hn⟩ := Grammar.Denotes.exists_numeral ht
  cases hn with
  | integer h =>
    cases hv
    exact Binary64.isFinite_ofInt h.low h.high
  | real _ _ finite =>
    cases hv
    exact finite

theorem amount_isFinite {body : Bytes} {now now' : String} {x : NewExpense}
    (h : Asks body now (.expense x now')) : x.amount.isFinite = true := by
  rcases h with h | h
  · cases h with
    | expense _ hamount _ _ =>
      obtain ⟨t, -, v, ht, hv⟩ := hamount
      exact isFinite_of_asReal? ht hv
  · cases h with
    | expense harray hamount _ _ =>
      obtain ⟨_, -, _ | ⟨ht, -⟩⟩ := text_array.1 harray
      exact isFinite_of_asReal? ht hamount

theorem isFinite_storedAmount {x : Binary64} (h : x.isFinite = true) : (storedAmount x).isFinite = true := by
  unfold storedAmount
  split
  · exact Binary64.isFinite_zero false
  · exact h

/-! ## Rules -/

/-- The first rule that a call breaks is one for its table, unless it gives no number for an amount. -/
theorem fault_mem_violations {c : Call} {t : Tables} {rule : Rule} (h : c.fault? t = some rule)
    (hamount : ∀ x now, c = .expense x now → x.amount.isNaN = false) :
    (rule, rule.text) ∈ violations c.subject := by
  cases c with
  | user u now =>
    change t.userFault? u = some rule at h
    unfold Tables.userFault? at h
    split at h
    · cases h; exact List.mem_cons_self
    · split at h
      · cases h; exact List.mem_cons_of_mem _ List.mem_cons_self
      · cases h
  | expense x now =>
    change t.expenseFault? x = some rule at h
    unfold Tables.expenseFault? at h
    rw [hamount x now rfl, if_neg (by decide)] at h
    split at h
    · cases h; exact List.mem_cons_self
    · split at h
      · cases h; exact List.mem_cons_of_mem _ List.mem_cons_self
      · cases h

/-- Where a pool works and may be written, a call is refused for a rule alone. -/
theorem create_error {s : Session} {t : Tables} (h : s.Serves t) (hw : s.pool.home.writable = true)
    {c : Call} {e : Ledger.Error} (he : (c.create s).1 = .error e) :
    ∃ rule, c.fault? t = some rule ∧ e = .constraint rule := by
  cases hf : c.fault? t with
  | none =>
    rw [Call.create_eq_insert h, Call.insert_of_no_fault h hw hf] at he
    cases he
  | some rule =>
    rw [Call.create_of_insert (Call.insert_of_fault_eq_some h.holds h.healthy hw hf)] at he
    cases he
    exact ⟨rule, rfl, rfl⟩

/-- A row that has been added is found again. -/
theorem readBack_insert {s : Session} {t : Tables} (h : s.Serves t) {c : Call} {id : Int}
    (hi : (c.insert s).1 = .ok id) : c.readBack (c.insert s).2 id = .ok (c.row id) := by
  have hcreate := Call.create_eq_insert h c
  rw [Call.create_eq] at hcreate
  rcases hs : c.insert s with ⟨r, s'⟩
  rw [hs] at hi hcreate
  cases hi
  exact (Prod.mk.inj hcreate).1

/-! ## Bodies -/

section
variable {σ α : Type} {form : Form σ α} {limit : Nat} {r : Request}

/-- Why a body is refused. -/
theorem readBody_error {subject : Subject} {e : BodyError}
    (hform : ∀ e, form.parse r.body = .error e → NoRecord r.body subject e)
    (h : readBody form limit r = .error e) : BodyRefused limit subject r e.text := by
  unfold readBody at h
  split at h
  · next hj =>
    cases h
    exact .type (by simpa using hj)
  · next hj =>
    have hj : r.hasJson = true := by simpa using hj
    split at h
    · next hl =>
      cases h
      exact .length hj (of_decide_eq_true hl)
    · next hl =>
      have hl : r.body.length ≤ limit := Nat.not_lt.1 (fun hlt => hl (decide_eq_true hlt))
      cases hp : form.parse r.body with
      | ok a =>
        rw [hp] at h
        cases h
      | error e =>
        rw [hp] at h
        cases h
        -- a fault of the text, or of what it stands for
        cases hc : e.complaint with
        | malformed reason =>
          rw [BodyError.text, hc]
          exact .malformed hj hl (hform e hp) hc
        | mismatch m =>
          rw [BodyError.text, hc]
          exact .mismatch hj hl (hform e hp) hc

end

theorem Unread.bodyRefused {limit : Nat} {r : Request} {subject : Subject} {e : BodyError}
    (h : Unread limit r subject e) : BodyRefused limit subject r e.text := by
  cases h with
  | user h => exact readBody_error (fun _ => .user) h
  | expense h => exact readBody_error (fun _ => .expense) h

/-! ## Answers -/

namespace Server

/-- Whatever is sent to the path of a table: it adds a row, its body is refused, or the row would break one
of the table's rules. -/
theorem ledger_confined (limit : Nat) (earlier : List Visit) {v : Visit} {subject : Subject}
    (hm : v.request.method = "POST") (hp : v.request.path = ledgerPath subject) :
    Confined limit earlier v subject := by
  obtain ⟨t, h⟩ := exists_follows limit earlier
  -- an amount that is read is a number, and so no rule on amounts is broken
  have hamount {x : NewExpense} {now : String} (hc : v.call? limit = some (.expense x now)) :
      x.amount.isFinite = true := by
    obtain ⟨-, -, -, -, hasks⟩ := Visit.call?_eq_some.1 hc
    exact amount_isFinite hasks
  have hfault {c : Call} {rule : Rule} (hc : v.call? limit = some c) (hf : c.fault? t = some rule) :
      (rule, rule.text) ∈ violations subject := by
    obtain ⟨-, hpath⟩ := Visit.call?_path hc
    rw [ledgerPath_injective (hp.symm.trans hpath)]
    refine fault_mem_violations hf ?_
    rintro x now rfl
    exact (Binary64.not_special (hamount hc)).1
  have herrors (c : Call) (e : Ledger.Error) (hc : v.call? limit = some c)
      (he : (c.create ((fresh limit).after earlier).session).1 = .error e) :
      ∃ rule, (rule, rule.text) ∈ violations subject ∧ e = .constraint rule := by
    obtain ⟨rule, hf, rfl⟩ := create_error h.serves h.writable he
    exact ⟨rule, hfault hc hf, rfl⟩
  have hcreated (h201 : (((fresh limit).after earlier).answer v).1.status = 201) :
      ∃ id, (((fresh limit).after earlier).answer v).1 = Web.created (createdMessage subject) id := by
    rcases answer_cases h.serves v with ⟨hst, -⟩ | ⟨c, s', hc, -, -, -, -, hans⟩
    · exact absurd h201 hst
    · obtain ⟨-, hpath⟩ := Visit.call?_path hc
      rw [hans, ledgerPath_injective (hp.symm.trans hpath)]
      exact ⟨_, rfl⟩
  have hfailed (hst : (((fresh limit).after earlier).answer v).1.status ≠ 201) :
      ∃ message, (((fresh limit).after earlier).answer v).1 = .internal message ∧
        (BodyRefused limit subject v.request message ∨ ∃ rule words, (rule, words) ∈ violations subject ∧
          message = "Database error: Constraint violation: " ++ words) := by
    cases hc : v.call? ((fresh limit).after earlier).bodyLimit with
    | none =>
      obtain ⟨e, hunread, hans⟩ := answer_unread hm hp hc
      rw [h.bodyLimit] at hunread
      exact ⟨e.text, hans, .inl hunread.bodyRefused⟩
    | some c =>
      rw [answer_call hc, outcome] at hst ⊢
      rw [h.bodyLimit] at hc
      rcases hcreate : c.create ((fresh limit).after earlier).session with ⟨e | row, s'⟩
      · obtain ⟨rule, hmem, rfl⟩ := herrors c e hc (by rw [hcreate])
        refine ⟨_, rfl, .inr ⟨rule, rule.text, hmem, ?_⟩⟩
        show "Database error: " ++ ("Constraint violation: " ++ rule.text) = _
        rw [← String.append_assoc]
        rfl
      · rw [hcreate] at hst
        exact absurd rfl hst
  constructor
  case status =>
    by_cases hst : (((fresh limit).after earlier).answer v).1.status = 201
    · exact .inl hst
    · obtain ⟨message, hans, -⟩ := hfailed hst
      rw [hans]
      exact .inr rfl
  case created => exact hcreated
  case failed =>
    intro h500
    obtain ⟨message, hans, hcause⟩ := hfailed (by rw [h500]; decide)
    refine ⟨message, hans, ?_, hcause⟩
    rw [hans]
    exact says_failure 500 message
  case errors =>
    intro c e hc he
    obtain ⟨rule, hmem, he⟩ := herrors c e hc he
    exact ⟨rule, rule.text, hmem, he⟩
  case readBack => exact fun c id _ hi => readBack_insert h.serves hi
  case amount => exact fun x now hc => ⟨hamount hc, isFinite_storedAmount (hamount hc)⟩

/-- An expense of nobody, and a body that is no record. -/
theorem ledger_confined_expense :
    (recordRequest .expense (expenseBody "")).method = "POST" ∧
    (recordRequest .expense (expenseBody "")).path = ledgerPath .expense ∧
    Confined defaultBodyLimit [] ⟨"", recordRequest .expense (expenseBody "")⟩ .expense ∧
    Confined defaultBodyLimit [] ⟨"", recordRequest .user []⟩ .user :=
  have hp (subject : Subject) (body : Bytes) : (recordRequest subject body).path = ledgerPath subject :=
    path_recordRequest subject body
  ⟨rfl, hp _ _, ledger_confined _ [] rfl (hp _ _), ledger_confined _ [] rfl (hp _ _)⟩

end Server

end ShapeLedger.Web
