/-
Which bodies add a row, and which row. A body may be an object: each of the fields that are needed then has
exactly one member, of the right kind, and other members make no difference. It may also be an array of the
values of the fields in their order, though it names no field then. Nothing else adds a row: any other
request to a path of the ledger is answered with a failure, and nothing is stored.
-/
import ShapeLedger.Proofs.Web.Limits

namespace ShapeLedger.Web

open Json Json.Grammar Ledger

/-! ## Definitions -/

/-- Exactly one of the members has this key, and its value is converted to `b`. -/
def Gives {β : Type} (ms : List (String × Bytes)) (key : String) (convert : Value → Option β) (b : β) :
    Prop :=
  ∃ t, valuesOf key ms = [t] ∧ Stands convert t b

/-- The body is an object whose members ask for this call. -/
inductive InObject (body : Bytes) (now : String) : Call → Prop where
  | user {ms : List (String × Bytes)} {u : NewUser} (object : ObjectText body ms)
      (username : Gives ms "username" asText? u.username) : InObject body now (.user u now)
  | expense {ms : List (String × Bytes)} {x : NewExpense} (object : ObjectText body ms)
      (amount : Gives ms "amount" asReal? x.amount) (userId : Gives ms "user_id" asInteger? x.userId)
      (description : (valuesOf "description" ms = [] ∧ x.description = none) ∨
        Gives ms "description" asOptionalText? x.description) : InObject body now (.expense x now)

/-- The body is an array of the values of the fields, which asks for this call. -/
inductive InArray (body : Bytes) (now : String) : Call → Prop where
  | user {u : NewUser} (array : Text body (.array [.text u.username])) : InArray body now (.user u now)
  | expense {a d u : Value} {x : NewExpense} (array : Text body (.array [a, d, u]))
      (amount : asReal? a = some x.amount) (description : asOptionalText? d = some x.description)
      (userId : asInteger? u = some x.userId) : InArray body now (.expense x now)

/-- The body asks for this call in one of the two ways. -/
def Asks (body : Bytes) (now : String) (c : Call) : Prop := InObject body now c ∨ InArray body now c

/-- What becomes of a request to the path of a table, on a server that has been fresh before the `earlier`
ones and has the tables `t`. -/
structure Server.Decided (limit : Nat) (earlier : List Visit) (v : Visit) (subject : Subject) (t : Tables) :
    Prop where
  /-- A 201 is given exactly to the bodies, sent as JSON and short enough, that ask for a call which breaks
  no rule. -/
  created : (((fresh limit).after earlier).answer v).1.status = 201 ↔
    v.request.hasJson = true ∧ v.request.exceeds limit = false ∧
      ∃ c, c.subject = subject ∧ Asks v.request.body v.now c ∧ c.fault? t = none
  /-- It adds the row of that call, with what the body gives. -/
  stored : ∀ c, (((fresh limit).after earlier).answer v).1.status = 201 → c.subject = subject →
    Asks v.request.body v.now c →
    ∃ t' id, (((fresh limit).after earlier).answer v).2.session.Holds t' ∧
      t.Appended t' (c.row id) ∧ c.Fits (c.row id)
  /-- Every other answer is a failure, and nothing is stored. -/
  refused : (((fresh limit).after earlier).answer v).1.status ≠ 201 →
    ∃ message, ((fresh limit).after earlier).answer v = (.internal message, (fresh limit).after earlier)
  /-- Of the documents that are no objects only arrays add rows. -/
  array : ∀ x, Text v.request.body x → (∀ members, x ≠ .object members) →
    (((fresh limit).after earlier).answer v).1.status = 201 →
    ∃ c, c.subject = subject ∧ InArray v.request.body v.now c
  scalar : ∀ x, Text v.request.body x → (∀ members, x ≠ .object members) → (∀ vs, x ≠ .array vs) →
    ∃ message, ((fresh limit).after earlier).answer v = (.internal message, (fresh limit).after earlier)

/-! ## Forms -/

section
variable {β : Type} {key : String} {convert : Value → Option β} {ms : List (String × Bytes)}
  {ts : List Bytes}

theorem slot_some {b : β} : Slot key convert ms none (some b) ↔ Gives ms key convert b := by
  constructor
  · rintro (_ | ⟨h, ht⟩)
    exact ⟨_, h, ht⟩
  · rintro ⟨t, h, ht⟩
    exact .set h ht

theorem slot_optional {o : Option (Option β)} {convert : Value → Option (Option β)} :
    Slot key convert ms none o ↔
      (valuesOf key ms = [] ∧ o = none) ∨ ∃ b, o = some b ∧ Gives ms key convert b := by
  constructor
  · rintro (h | ⟨h, ht⟩)
    · exact .inl ⟨h, rfl⟩
    · exact .inr ⟨_, rfl, _, h, ht⟩
  · rintro (⟨h, rfl⟩ | ⟨b, rfl, h⟩)
    · exact .kept h
    · exact slot_some.2 h

/-! ### Users -/

theorem userForm_regular : userForm.Regular := by
  simp only [Form.Regular, userForm, List.forall_mem_singleton]
  exact fun _ => readText_converts.makes _

theorem userForm_fills {d d' : Option String} (h : ∀ m ∈ ms, Passed m.2 .value) :
    userForm.Fills d ms d' ↔ Slot "username" asText? ms d d' := by
  induction ms generalizing d with
  | nil => exact slot_nil.symm
  | cons m ms ih =>
    obtain ⟨k, t⟩ := m
    obtain ⟨ht, h⟩ := List.forall_mem_cons.1 h
    simp only [Form.Fills, ih h]
    by_cases hk : k = "username"
    · subst hk
      rw [Form.exists_sets userForm_username readText_converts ht, slot_same]
    · have hf : userForm.fields.find? (fun f => f.name = k) = none := by
        simp [userForm, Field.make, Ne.symm hk]
      simp only [Form.sets_other hf ht, slot_other hk, exists_eq_left]

theorem userForm_fillsInOrder {d : Option String} (h : ∀ t ∈ ts, Passed t .value) :
    FillsInOrder userForm.fields userForm.blank ts d ↔
      ∃ t x, ts = [t] ∧ Stands asText? t x ∧ d = some x := by
  refine (fillsInOrder_cons readText_converts h).trans ⟨?_, ?_⟩
  · rintro ⟨t, _, x, rfl, hx, hnil⟩
    obtain ⟨rfl, rfl⟩ := fillsInOrder_nil.1 hnil
    exact ⟨t, x, rfl, hx, rfl⟩
  · rintro ⟨t, x, rfl, hx, rfl⟩
    exact ⟨t, [], x, rfl, hx, fillsInOrder_nil.2 ⟨rfl, rfl⟩⟩

theorem userForm_complete {d : Option String} {u : NewUser} :
    userForm.complete d = .ok u ↔ d = some u.username := by
  cases u
  cases d <;> simp [userForm]

/-! ### Expenses -/

theorem expenseForm_regular : expenseForm.Regular := by
  simp only [Form.Regular, expenseForm, List.forall_mem_cons]
  exact ⟨fun _ => readReal_converts.makes _, fun _ => readOptionalText_converts.makes _,
    fun _ => readInteger_converts.makes _, List.forall_mem_nil _⟩

section
variable {d d' : ExpenseDraft}

/-- The three fields are filled independently of each other. -/
theorem expenseForm_fills (h : ∀ m ∈ ms, Passed m.2 .value) : expenseForm.Fills d ms d' ↔
    Slot "amount" asReal? ms d.amount d'.amount ∧
      Slot "description" asOptionalText? ms d.description d'.description ∧
      Slot "user_id" asInteger? ms d.userId d'.userId := by
  induction ms generalizing d with
  | nil =>
    simp only [slot_nil, Form.Fills]
    cases d
    cases d'
    simp
  | cons m ms ih =>
    obtain ⟨k, t⟩ := m
    obtain ⟨ht, h⟩ := List.forall_mem_cons.1 h
    simp only [Form.Fills, ih h]
    by_cases ha : k = "amount"
    · subst ha
      rw [Form.exists_sets expenseForm_amount readReal_converts ht, slot_same, slot_other (by decide),
        slot_other (by decide)]
      -- what is left is how the conditions are grouped
      grind
    by_cases hd : k = "description"
    · subst hd
      rw [Form.exists_sets expenseForm_description readOptionalText_converts ht, slot_same,
        slot_other (by decide), slot_other (by decide)]
      grind
    by_cases hu : k = "user_id"
    · subst hu
      rw [Form.exists_sets expenseForm_userId readInteger_converts ht, slot_same, slot_other (by decide),
        slot_other (by decide)]
      grind
    have hf : expenseForm.fields.find? (fun f => f.name = k) = none := by
      simp [expenseForm, Field.make, Ne.symm ha, Ne.symm hd, Ne.symm hu]
    simp only [Form.sets_other hf ht, slot_other ha, slot_other hd, slot_other hu, exists_eq_left]

theorem expenseForm_fillsInOrder (h : ∀ t ∈ ts, Passed t .value) :
    FillsInOrder expenseForm.fields expenseForm.blank ts d ↔
      ∃ a o u x y n, ts = [a, o, u] ∧ Stands asReal? a x ∧ Stands asOptionalText? o y ∧
        Stands asInteger? u n ∧ d = ⟨some x, some y, some n⟩ := by
  refine (fillsInOrder_cons readReal_converts h).trans ⟨?_, ?_⟩
  · rintro ⟨a, _, x, rfl, hx, hfill⟩
    have h := (List.forall_mem_cons.1 h).2
    obtain ⟨o, _, y, rfl, hy, hfill⟩ := (fillsInOrder_cons readOptionalText_converts h).1 hfill
    have h := (List.forall_mem_cons.1 h).2
    obtain ⟨u, _, n, rfl, hn, hnil⟩ := (fillsInOrder_cons readInteger_converts h).1 hfill
    obtain ⟨rfl, rfl⟩ := fillsInOrder_nil.1 hnil
    exact ⟨a, o, u, x, y, n, rfl, hx, hy, hn, rfl⟩
  · rintro ⟨a, o, u, x, y, n, rfl, hx, hy, hn, rfl⟩
    have ho := (List.forall_mem_cons.1 h).2
    have hu := (List.forall_mem_cons.1 ho).2
    refine ⟨a, _, x, rfl, hx, (fillsInOrder_cons readOptionalText_converts ho).2 ⟨o, _, y, rfl, hy, ?_⟩⟩
    exact (fillsInOrder_cons readInteger_converts hu).2 ⟨u, [], n, rfl, hn, fillsInOrder_nil.2 ⟨rfl, rfl⟩⟩

theorem expenseForm_complete {x : NewExpense} : expenseForm.complete d = .ok x ↔
    d.amount = some x.amount ∧ d.description.join = x.description ∧ d.userId = some x.userId := by
  obtain ⟨amount, description, userId⟩ := d
  cases x
  cases amount <;> cases userId <;> simp [expenseForm]

end

end

/-! ## Bodies -/

section
variable {body : Bytes} {now : String}

theorem userForm_parse {u : NewUser} : userForm.parse body = .ok u ↔ Asks body now (.user u now) := by
  rw [Form.parse_eq_ok userForm_regular]
  constructor
  · rintro (⟨ms, d, hb, hfill, hc⟩ | ⟨ts, d, hb, hfill, hc⟩)
    · obtain rfl := userForm_complete.1 hc
      exact .inl (.user hb (slot_some.1 ((userForm_fills hb.passed).1 hfill)))
    · obtain ⟨t, x, rfl, ⟨v, ht, hv⟩, rfl⟩ := (userForm_fillsInOrder hb.passed).1 hfill
      obtain rfl := asText?_eq_some.1 hv
      cases userForm_complete.1 hc
      exact .inr (.user (text_array.2 ⟨[t], hb, .cons ht .nil⟩))
  · rintro (hb | hb)
    · cases hb with
      | user hb hu =>
        exact .inl ⟨_, some u.username, hb, (userForm_fills hb.passed).2 (slot_some.2 hu),
          userForm_complete.2 rfl⟩
    · cases hb with
      | user hb =>
        obtain ⟨_, hb, _ | ⟨ht, _ | _⟩⟩ := text_array.1 hb
        have hfill := (userForm_fillsInOrder hb.passed).2 ⟨_, _, rfl, ⟨_, ht, rfl⟩, rfl⟩
        exact .inr ⟨_, _, hb, hfill, userForm_complete.2 rfl⟩

theorem expenseForm_parse {x : NewExpense} :
    expenseForm.parse body = .ok x ↔ Asks body now (.expense x now) := by
  rw [Form.parse_eq_ok expenseForm_regular]
  constructor
  · rintro (⟨ms, d, hb, hfill, hc⟩ | ⟨ts, d, hb, hfill, hc⟩)
    · obtain ⟨hamount, hdescription, howner⟩ := expenseForm_complete.1 hc
      obtain ⟨ha, hd, hu⟩ := (expenseForm_fills hb.passed).1 hfill
      rw [hamount] at ha
      rw [howner] at hu
      refine .inl (.expense hb (slot_some.1 ha) (slot_some.1 hu) ?_)
      -- a description that is missing counts like one that is null
      rcases slot_optional.1 hd with ⟨hno, he⟩ | ⟨y, he, hy⟩
      · exact .inl ⟨hno, by rw [← hdescription, he]; rfl⟩
      · rw [he] at hdescription
        exact .inr (hdescription ▸ hy)
    · obtain ⟨_, _, _, y, z, n, rfl, ⟨a, ht, ha⟩, ⟨d, ht', hd⟩, ⟨u, ht'', hu⟩, rfl⟩ :=
        (expenseForm_fillsInOrder hb.passed).1 hfill
      obtain ⟨hamount, rfl, howner⟩ := expenseForm_complete.1 hc
      cases hamount
      cases howner
      have htext := text_array.2 ⟨_, hb, .cons ht (.cons ht' (.cons ht'' .nil))⟩
      exact .inr (.expense htext ha hd hu)
  · rintro (hb | hb)
    · cases hb with
      | @expense ms _ hb hamount howner hdescription =>
        obtain ⟨o, ho, hslot⟩ : ∃ o, o.join = x.description ∧
            Slot "description" asOptionalText? ms none o := by
          rcases hdescription with ⟨hno, he⟩ | hy
          · exact ⟨none, he.symm, .kept hno⟩
          · exact ⟨some x.description, rfl, slot_some.2 hy⟩
        exact .inl ⟨ms, ⟨some x.amount, o, some x.userId⟩, hb,
          (expenseForm_fills hb.passed).2 ⟨slot_some.2 hamount, hslot, slot_some.2 howner⟩,
          expenseForm_complete.2 ⟨rfl, ho, rfl⟩⟩
    · cases hb with
      | expense hb hamount hdescription howner =>
        obtain ⟨_, hb, _ | ⟨ht, _ | ⟨ht', _ | ⟨ht'', _ | _⟩⟩⟩⟩ := text_array.1 hb
        have hfill := (expenseForm_fillsInOrder hb.passed).2
          ⟨_, _, _, _, _, _, rfl, ⟨_, ht, hamount⟩, ⟨_, ht', hdescription⟩, ⟨_, ht'', howner⟩, rfl⟩
        exact .inr ⟨_, _, hb, hfill, expenseForm_complete.2 ⟨rfl, rfl, rfl⟩⟩

end

/-! ## Requests -/

/-- The body of a request holds no record for a table that can be read, and why. -/
inductive Unread (limit : Nat) (r : Request) : Subject → BodyError → Prop where
  | user {e : BodyError} (h : readBody userForm limit r = .error e) : Unread limit r .user e
  | expense {e : BodyError} (h : readBody expenseForm limit r = .error e) : Unread limit r .expense e

theorem readBody_eq_ok {σ α : Type} {form : Form σ α} {limit : Nat} {r : Request} {a : α} :
    readBody form limit r = .ok a ↔
      r.hasJson = true ∧ r.exceeds limit = false ∧ form.parse r.body = .ok a := by
  unfold readBody
  cases r.hasJson <;> cases r.exceeds limit <;> cases form.parse r.body <;> simp [Except.mapError]

theorem ofPath?_ledgerPath (subject : Subject) : Route.ofPath? (ledgerPath subject) =
    some (match subject with
      | .user => .users
      | .expense => .expenses) := by
  cases subject <;> decide

theorem ledgerPath_injective {a b : Subject} (h : ledgerPath a = ledgerPath b) : a = b := by
  have hroute := (ofPath?_ledgerPath a).symm.trans ((congrArg Route.ofPath? h).trans (ofPath?_ledgerPath b))
  revert hroute
  cases a <;> cases b <;> decide

/-- The calls that requests ask for. -/
theorem Visit.call?_eq_some {limit : Nat} {v : Visit} {c : Call} : v.call? limit = some c ↔
    v.request.method = "POST" ∧ v.request.path = ledgerPath c.subject ∧ v.request.hasJson = true ∧
      v.request.exceeds limit = false ∧ Asks v.request.body v.now c := by
  constructor
  · intro h
    obtain ⟨hm, hp⟩ := call?_path h
    refine ⟨hm, hp, ?_⟩
    -- the path decides which form is read
    unfold call? at h
    rw [if_pos hm] at h
    split at h
    · split at h <;> cases h
      next hread =>
      obtain ⟨hj, hl, hparse⟩ := readBody_eq_ok.1 hread
      exact ⟨hj, hl, userForm_parse.1 hparse⟩
    · split at h <;> cases h
      next hread =>
      obtain ⟨hj, hl, hparse⟩ := readBody_eq_ok.1 hread
      exact ⟨hj, hl, expenseForm_parse.1 hparse⟩
    · cases h
  · rintro ⟨hm, hp, hj, hl, hb⟩
    cases c with
    | user u now =>
      obtain rfl : now = v.now := by rcases hb with hb | hb <;> cases hb <;> rfl
      have hroute : Route.ofPath? v.request.path = some .users := hp ▸ ofPath?_ledgerPath .user
      have hread := readBody_eq_ok.2 ⟨hj, hl, userForm_parse.2 hb⟩
      simp only [call?, hm, if_true, hroute, hread]
    | expense x now =>
      obtain rfl : now = v.now := by rcases hb with hb | hb <;> cases hb <;> rfl
      have hroute : Route.ofPath? v.request.path = some .expenses := hp ▸ ofPath?_ledgerPath .expense
      have hread := readBody_eq_ok.2 ⟨hj, hl, expenseForm_parse.2 hb⟩
      simp only [call?, hm, if_true, hroute, hread]

/-- A body that is no object asks for no call as an object. -/
theorem not_inObject {body : Bytes} {now : String} {v : Value} (hv : Text body v)
    (hobject : ∀ members, v ≠ .object members) (c : Call) : ¬ InObject body now c := by
  rintro (⟨object, -⟩ | ⟨object, -⟩) <;>
  · obtain ⟨members, rfl⟩ := object.eq_object hv
    exact hobject members rfl

/-- A body that is no array asks for no call as an array. -/
theorem not_inArray {body : Bytes} {now : String} {v : Value} (hv : Text body v)
    (harray : ∀ vs, v ≠ .array vs) (c : Call) : ¬ InArray body now c := by
  have hdecode := Document.decode_eq_ok.2 (readDocument_eq_ok.2 hv)
  rintro (array | ⟨array, -⟩) <;>
  · have he := (Document.decode_eq_ok.2 (readDocument_eq_ok.2 array)).symm.trans hdecode
    exact harray _ (Except.ok.inj he).symm

namespace Server

/-- A request to the path of a table that asks for no call is answered with what is wrong with its body. -/
theorem answer_unread {s : Server} {v : Visit} {subject : Subject} (hm : v.request.method = "POST")
    (hp : v.request.path = ledgerPath subject) (hc : v.call? s.bodyLimit = none) :
    ∃ e, Unread s.bodyLimit v.request subject e ∧ (s.answer v).1 = .internal e.text := by
  have hroute := hp ▸ ofPath?_ledgerPath subject
  cases subject with
  | user =>
    simp only [Visit.call?, hm, if_true, hroute] at hc
    split at hc
    · cases hc
    · next e he =>
      refine ⟨e, .user he, ?_⟩
      simp only [answer, handle, hroute, hm, dispatch, record_error he]
      rfl
  | expense =>
    simp only [Visit.call?, hm, if_true, hroute] at hc
    split at hc
    · cases hc
    · next e he =>
      refine ⟨e, .expense he, ?_⟩
      simp only [answer, handle, hroute, hm, dispatch, record_error he]
      rfl

/-- A request to the path of a table that gets no 201 is answered with a failure, and changes nothing. -/
theorem answer_refused {s : Server} {t : Tables} (h : s.session.Serves t) {v : Visit} {subject : Subject}
    (hm : v.request.method = "POST") (hp : v.request.path = ledgerPath subject)
    (hst : (s.answer v).1.status ≠ 201) : ∃ message, s.answer v = (.internal message, s) := by
  have hs : (s.answer v).2 = s := by
    rcases answer_cases h v with ⟨-, hs⟩ | ⟨_, _, -, -, -, -, -, hans⟩
    · exact hs
    · exact absurd (by rw [hans]; rfl) hst
  suffices hmessage : ∃ message, (s.answer v).1 = .internal message by
    obtain ⟨message, hmessage⟩ := hmessage
    exact ⟨message, Prod.ext hmessage hs⟩
  cases hc : v.call? s.bodyLimit with
  | some c =>
    rw [answer_call hc, outcome] at hst ⊢
    split
    · exact ⟨_, rfl⟩
    · next hrow =>
      rw [hrow] at hst
      exact absurd rfl hst
  | none =>
    obtain ⟨e, -, he⟩ := answer_unread hm hp hc
    exact ⟨e.text, he⟩

/-- On any server, after any requests: only an object with the named fields, or an array of their values,
adds a row. -/
theorem body_decided (limit : Nat) (earlier : List Visit) {v : Visit} {subject : Subject}
    (hm : v.request.method = "POST") (hp : v.request.path = ledgerPath subject) :
    ∃ t, ((fresh limit).after earlier).session.Holds t ∧ Decided limit earlier v subject t := by
  obtain ⟨t, h⟩ := exists_follows limit earlier
  have hrefused := answer_refused h.serves hm hp
  -- what a body that gets a 201 asks for
  have hasks (h201 : (((fresh limit).after earlier).answer v).1.status = 201) :
      ∃ c, c.subject = subject ∧ Asks v.request.body v.now c := by
    obtain ⟨c, hc, -⟩ := (created_iff limit earlier v h.serves.holds).1 h201
    obtain ⟨-, hpath, -, -, hb⟩ := Visit.call?_eq_some.1 hc
    exact ⟨c, ledgerPath_injective (hpath.symm.trans hp), hb⟩
  refine ⟨t, h.serves.holds, ?created, ?stored, hrefused, ?array, ?scalar⟩
  case created =>
    rw [created_iff limit earlier v h.serves.holds]
    constructor
    · rintro ⟨c, hc, hf⟩
      obtain ⟨-, hpath, hj, hl, hb⟩ := Visit.call?_eq_some.1 hc
      exact ⟨hj, hl, c, ledgerPath_injective (hpath.symm.trans hp), hb, hf⟩
    · rintro ⟨hj, hl, c, rfl, hb, hf⟩
      exact ⟨c, Visit.call?_eq_some.2 ⟨hm, hp, hj, hl, hb⟩, hf⟩
  case stored =>
    rintro c h201 rfl hb
    rcases answer_cases h.serves v with ⟨hst, -⟩ | ⟨c', s', hc, hf, hs', -, -, hans⟩
    · exact absurd h201 hst
    · rw [h.bodyLimit] at hc
      obtain ⟨-, -, hj, hl, -⟩ := Visit.call?_eq_some.1 hc
      obtain rfl : c' = c := by
        have hc' := Visit.call?_eq_some.2 ⟨hm, hp, hj, hl, hb⟩
        exact Option.some.inj (hc.symm.trans hc')
      exact ⟨_, c'.nextId t, hans ▸ hs'.holds, Call.appended_add c' t, Call.fits_row hf _⟩
  case array =>
    intro x hx hobject h201
    obtain ⟨c, hsubject, hb⟩ := hasks h201
    exact ⟨c, hsubject, hb.resolve_left (not_inObject hx hobject c)⟩
  case scalar =>
    intro x hx hobject harray
    refine hrefused fun h201 => ?_
    obtain ⟨c, -, hb⟩ := hasks h201
    rcases hb with hb | hb
    · exact not_inObject hx hobject c hb
    · exact not_inArray hx harray c hb

/-- An array of one name is a body that adds a user, though no member is named in it. -/
theorem body_decided_array :
    (recordRequest .user (Utf8.encode "[\"ada\"]")).method = "POST" ∧
    (recordRequest .user (Utf8.encode "[\"ada\"]")).path = ledgerPath .user ∧
    ∃ t, ((fresh 64).after []).session.Holds t ∧
      Decided 64 [] ⟨"", recordRequest .user (Utf8.encode "[\"ada\"]")⟩ .user t :=
  have hp : (recordRequest .user (Utf8.encode "[\"ada\"]")).path = ledgerPath .user := path_recordRequest _ _
  ⟨rfl, hp, body_decided 64 [] rfl hp⟩

theorem array_adds_user :
    Document.decode (Utf8.encode "[\"ada\"]") = .ok (.array [.text "ada"]) ∧
    (¬ ∃ ms, ObjectText (Utf8.encode "[\"ada\"]") ms) ∧
    ((fresh 64).answer ⟨"", recordRequest .user (Utf8.encode "[\"ada\"]")⟩).1.status = 201 := by
  have hname : Quoted (Utf8.encode "\"ada\"") "ada" := quoted_denotes "ada"
  have hsplit : Utf8.encode "[\"ada\"]" =
      Ascii.openBracket :: (Utf8.encode "\"ada\"" ++ [Ascii.closeBracket]) := by
    decide
  have htext : Text (Utf8.encode "[\"ada\"]") (.array [.text "ada"]) := by
    have helement := Denotes.element blank_nil (.text hname) blank_nil
    rw [List.append_nil, List.nil_append] at helement
    have harray := Denotes.element blank_nil (.array (.lastElement helement)) blank_nil
    rwa [List.append_nil, List.nil_append, ← hsplit] at harray
  refine ⟨Document.decode_eq_ok.2 (readDocument_eq_ok.2 htext), ?_, ?_⟩
  · rintro ⟨ms, hms⟩
    obtain ⟨members, he⟩ := hms.eq_object htext
    cases he
  · have hjson : (recordRequest .user (Utf8.encode "[\"ada\"]")).hasJson = true := by decide +kernel
    have hcall : Visit.call? 64 ⟨"", recordRequest .user (Utf8.encode "[\"ada\"]")⟩ =
        some (.user ⟨"ada"⟩ "") :=
      Visit.call?_eq_some.2 ⟨rfl, path_recordRequest _ _, hjson, by decide, .inr (.user htext)⟩
    exact (created_iff 64 [] _ (follows_nil 64).serves.holds).2 ⟨_, hcall, by decide⟩

end Server

end ShapeLedger.Web
