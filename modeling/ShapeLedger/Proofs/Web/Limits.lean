/-
How long the texts are that get into the ledger. The rules on lengths count the characters before the
first NUL, so that is what is limited in everything stored, and nothing more is: a text of any length is
stored if a NUL comes early in it. Without one the limits are those on all of its characters.

Every such text is stored by a request, and what requests store calls store as well; so the same texts
are stored in both ways.
-/
import ShapeLedger.Proofs.Json.Printing
import ShapeLedger.Proofs.Json.Record
import ShapeLedger.Proofs.Ledger.History
import ShapeLedger.Proofs.Web.Recording

namespace ShapeLedger.Json

open Ascii Grammar

/-! ## Members of a record -/

section
variable {σ α β : Type} {form : Form σ α} {draft : σ} {k s r : Bytes} {key : String} {turn : Turn}

/-- A member that the form names goes into the draft. -/
theorem Form.readMembers_field {isSet : σ → Bool} {set : σ → β → σ} {reader : Bytes → Reading β}
    {shortens : ∀ {b : β} {s r : Bytes}, reader s = .ok (b, r) → r.length < s.length} {b : β}
    (hk : Quoted (quote :: k) key)
    (hf : form.fields.find? (fun f => f.name = key) = some (.make key isSet set reader shortens))
    (hset : isSet draft = false) (hread : reader s = .ok (b, r)) (hnext : nextMember r = .ok turn) :
    form.readMembers draft (.item (k ++ colon :: s)) = form.readMembers (set draft b) turn := by
  have hkey : readString (k ++ colon :: s) = .ok (key, colon :: s) := readString_eq_ok.2 ⟨_, rfl, hk⟩
  have hcolon : readColon (colon :: s) = .ok s := readColon_eq_ok.2 ⟨[], blank_nil, rfl⟩
  have hrepeats : form.repeats draft key = false := by
    simp only [Form.repeats, hf, Field.make, hset]
  have hmember : form.readMember draft key s = .ok (set draft b, r) := by
    simp only [Form.readMember, hf, Field.make, hread, Except.map]
  have hitem : form.readItem draft (k ++ colon :: s) = .ok (set draft b, turn) := by
    simp only [Form.readItem, hkey, hrepeats, hcolon, hmember, hnext, Except.mapError, Except.map,
      Bool.false_eq_true, if_false]
  exact Form.readMembers_item hitem

/-- A text that is an object is read member by member. -/
theorem Form.parse_object {a : α} (h : form.readMembers form.blank (.item s) = .ok (a, [])) :
    form.parse (openBrace :: quote :: s) = .ok a := by
  have hread : form.read (openBrace :: quote :: s) = form.readMembers form.blank (.item s) := by
    unfold Form.read
    rfl
  rw [Form.parse, hread, h]
  rfl

/-- A text is read from the literal that is printed for it. -/
theorem readText_quoted (t : String) (r : Bytes) : readText (utf8 (quoted t) ++ r) = .ok (t, r) := by
  have hq := quoted_denotes t
  obtain ⟨u, hu⟩ : ∃ u, utf8 (quoted t) = quote :: u := by
    generalize utf8 (quoted t) = q at hq
    cases hq
    exact ⟨_, rfl⟩
  have hread : readString (u ++ r) = .ok (t, r) :=
    readString_eq_ok.2 ⟨quote :: u, rfl, hu ▸ hq⟩
  have hskip : skipSpace (quote :: (u ++ r)) = quote :: (u ++ r) := rfl
  rw [hu, List.cons_append, readText, hskip]
  simp only [if_true, hread, Except.mapError]

theorem readOptionalText_quoted (t : String) (r : Bytes) :
    readOptionalText (utf8 (quoted t) ++ r) = .ok (some t, r) := by
  have hread := readText_quoted t r
  obtain ⟨u, hu⟩ : ∃ u, utf8 (quoted t) = quote :: u := ⟨_, rfl⟩
  rw [hu, List.cons_append] at hread ⊢
  have hskip : skipSpace (quote :: (u ++ r)) = quote :: (u ++ r) := rfl
  rw [readOptionalText, hskip]
  simp only [hread, Except.map]
  rfl

end

end ShapeLedger.Json

namespace ShapeLedger.Web

open Json Json.Grammar Ledger

/-! ## Fields -/

theorem userForm_username : userForm.fields.find? (fun f => f.name = "username") =
    some (.make "username" Option.isSome (fun _ s => some s) readText readText_length) := rfl

theorem expenseForm_amount : expenseForm.fields.find? (fun f => f.name = "amount") =
    some (.make "amount" (·.amount.isSome) (fun d x => { d with amount := some x }) readReal
      readReal_length) := rfl

theorem expenseForm_description : expenseForm.fields.find? (fun f => f.name = "description") =
    some (.make "description" (·.description.isSome) (fun d s => { d with description := some s })
      readOptionalText readOptionalText_length) := rfl

theorem expenseForm_userId : expenseForm.fields.find? (fun f => f.name = "user_id") =
    some (.make "user_id" (·.userId.isSome) (fun d n => { d with userId := some n }) readInteger
      readInteger_length) := rfl

/-! ## Requests -/

/-- A request that asks the ledger to store a record. -/
def recordRequest (subject : Subject) (body : Bytes) : Request :=
  ⟨"POST", ledgerPath subject, [("content-type", Utf8.encode "application/json")], body⟩

theorem readBody_recordRequest {σ α : Type} {form : Form σ α} {limit : Nat} {subject : Subject}
    {body : Bytes} {a : α} (hl : body.length ≤ limit) (h : form.parse body = .ok a) :
    readBody form limit (recordRequest subject body) = .ok a := by
  have hjson : (recordRequest subject body).hasJson = true :=
    -- the type is all that is looked at
    show (recordRequest .user []).hasJson = true by decide +kernel
  have hfits : (recordRequest subject body).exceeds limit = false := decide_eq_false (Nat.not_lt.2 hl)
  simp only [readBody, hjson, hfits, Bool.not_true, Bool.false_eq_true, if_false]
  show (form.parse body).mapError _ = _
  rw [h]
  rfl

/-- The body `{"username":…}`. -/
def userBody (username : String) : Bytes :=
  Ascii.openBrace :: (Utf8.encode "\"username\":" ++ (utf8 (quoted username) ++ [Ascii.closeBrace]))

/-- The body `{"amount":1,"user_id":1,"description":…}`. -/
def expenseBody (description : String) : Bytes :=
  Ascii.openBrace :: (Utf8.encode "\"amount\":1,\"user_id\":1,\"description\":" ++
    (utf8 (quoted description) ++ [Ascii.closeBrace]))

theorem parse_userBody (username : String) : userForm.parse (userBody username) = .ok ⟨username⟩ := by
  have hkey : Quoted (Ascii.quote :: Utf8.encode "username\"") "username" := quoted_denotes "username"
  have hsplit : Utf8.encode "\"username\":" =
      Ascii.quote :: (Utf8.encode "username\"" ++ [Ascii.colon]) := by
    decide
  rw [userBody, hsplit, List.cons_append, List.append_assoc, List.singleton_append]
  apply Form.parse_object
  have hlast : nextMember [Ascii.closeBrace] = .ok (.done []) := rfl
  rw [Form.readMembers_field hkey userForm_username rfl (readText_quoted username _) hlast]
  exact Form.readMembers_done rfl

/-- The literal `1`. -/
theorem readNumber_one (r : Bytes) :
    readNumber (0x31 :: Ascii.comma :: r) = .ok (.integer 1, Ascii.comma :: r) := by
  have hdigits : Digits [0x31] := ⟨by decide, List.forall_mem_singleton.2 (by decide)⟩
  have hliteral : Literal [0x31] ⟨false, [0x31], [], none⟩ :=
    @Literal.mk false _ _ _ _ _ (.digits hdigits (by decide)) .absent .absent
  have hvalue : NumberDenotes ⟨false, [0x31], [], none⟩ (.integer 1) := value_eq_ok.1 (by decide)
  exact readNumber_complete hliteral hvalue (stops_comma r)

theorem parse_expenseBody (description : String) :
    expenseForm.parse (expenseBody description) = .ok ⟨Binary64.ofInt 1, some description, 1⟩ := by
  have hamount : Quoted (Ascii.quote :: Utf8.encode "amount\"") "amount" := quoted_denotes "amount"
  have howner : Quoted (Ascii.quote :: Utf8.encode "user_id\"") "user_id" := quoted_denotes "user_id"
  have hdescription : Quoted (Ascii.quote :: Utf8.encode "description\"") "description" :=
    quoted_denotes "description"
  have hsplit : Utf8.encode "\"amount\":1,\"user_id\":1,\"description\":" =
      Ascii.quote :: (Utf8.encode "amount\"" ++ Ascii.colon :: 0x31 :: Ascii.comma :: Ascii.quote ::
        (Utf8.encode "user_id\"" ++ Ascii.colon :: 0x31 :: Ascii.comma :: Ascii.quote ::
          (Utf8.encode "description\"" ++ [Ascii.colon]))) := by
    decide
  -- the values of the fields, with what follows them
  have hskip (r : Bytes) : skipSpace (0x31 :: Ascii.comma :: r) = 0x31 :: Ascii.comma :: r := rfl
  have hreal (r : Bytes) :
      readReal (0x31 :: Ascii.comma :: r) = .ok (Binary64.ofInt 1, Ascii.comma :: r) := by
    rw [readReal, hskip]
    simp only [readNumber_one]
    rfl
  have hinteger (r : Bytes) : readInteger (0x31 :: Ascii.comma :: r) = .ok (1, Ascii.comma :: r) := by
    rw [readInteger, hskip]
    simp only [readNumber_one]
    rfl
  have hnext (r : Bytes) : nextMember (Ascii.comma :: Ascii.quote :: r) = .ok (.item r) := rfl
  have hlast : nextMember [Ascii.closeBrace] = .ok (.done []) := rfl
  rw [expenseBody, hsplit]
  simp only [List.cons_append, List.append_assoc, List.nil_append]
  apply Form.parse_object
  rw [Form.readMembers_field hamount expenseForm_amount rfl (hreal _) (hnext _),
    Form.readMembers_field howner expenseForm_userId rfl (hinteger _) (hnext _),
    Form.readMembers_field hdescription expenseForm_description rfl (readOptionalText_quoted description _) hlast]
  exact Form.readMembers_done rfl

theorem path_recordRequest (subject : Subject) (body : Bytes) :
    (recordRequest subject body).path = ledgerPath subject :=
  show (recordRequest subject []).path = ledgerPath subject by cases subject <;> decide

theorem call?_userBody {limit : Nat} {username : String} (h : (userBody username).length ≤ limit)
    (now : String) :
    Visit.call? limit ⟨now, recordRequest .user (userBody username)⟩ = some (.user ⟨username⟩ now) := by
  have hroute : Route.ofPath? (ledgerPath .user) = some .users := by decide
  have hbody (subject : Subject) :
      readBody userForm limit (recordRequest subject (userBody username)) = .ok ⟨username⟩ :=
    readBody_recordRequest h (parse_userBody username)
  simp only [Visit.call?, path_recordRequest, hroute, hbody]
  rfl

theorem call?_expenseBody {limit : Nat} {description : String}
    (h : (expenseBody description).length ≤ limit) (now : String) :
    Visit.call? limit ⟨now, recordRequest .expense (expenseBody description)⟩ =
      some (.expense ⟨Binary64.ofInt 1, some description, 1⟩ now) := by
  have hroute : Route.ofPath? (ledgerPath .expense) = some .expenses := by decide
  have hbody (subject : Subject) :
      readBody expenseForm limit (recordRequest subject (expenseBody description)) =
        .ok ⟨Binary64.ofInt 1, some description, 1⟩ :=
    readBody_recordRequest h (parse_expenseBody description)
  simp only [Visit.call?, path_recordRequest, hroute, hbody]
  rfl

/-! ## Tables that are reached -/

/-- The tables of a server after some requests, none having been made before. -/
def ByRequests (t : Tables) : Prop := ∃ limit visits, ((Server.fresh limit).after visits).session.Holds t

/-- The tables of a freshly migrated ledger after some calls. -/
def ByCalls (t : Tables) : Prop :=
  ∃ s : Session, ∃ calls : List Call, s.database = .ok .fresh ∧
    (calls.foldl (fun s c => (c.create s).2) s).Holds t

/-- A user of this name is stored. -/
def HasName (t : Tables) (username : String) : Prop := ∃ r ∈ t.users.rows, r.username = username

/-- An expense with this description is stored. -/
def HasDescription (t : Tables) (description : String) : Prop :=
  ∃ x ∈ t.expenses.rows, x.description = some description

/-- A session holds one pair of tables. -/
theorem holds_unique {s : Session} {t t' : Tables} (h : s.Holds t) (h' : s.Holds t') : t = t' := by
  have he := h.symm.trans h'
  rw [Except.ok.injEq, Database.mk.injEq, Option.some.injEq] at he
  exact he.2

/-- What requests store, calls can store. -/
theorem ByRequests.byCalls {t : Tables} (h : ByRequests t) : ByCalls t := by
  obtain ⟨limit, visits, ht⟩ := h
  obtain ⟨_, hfollows⟩ := Server.exists_follows limit visits
  exact ⟨_, _, rfl, hfollows.replay ▸ ht⟩

theorem ByCalls.wf {t : Tables} (h : ByCalls t) : t.WF := by
  obtain ⟨s, calls, hfresh, ht⟩ := h
  obtain ⟨t', ht', hwf, -⟩ := Session.after_grows (t := .empty) hfresh Tables.empty_wf (calls.map .create)
  rw [Session.after, List.foldl_map] at ht'
  exact holds_unique ht' ht ▸ hwf

/-- A call that breaks no rule adds its row when it is asked for. -/
theorem Server.Follows.call {limit : Nat} {visits : List Visit} {t : Tables}
    (h : Server.Follows limit visits t) {v : Visit} {c : Call} (hc : v.call? limit = some c)
    (hf : c.fault? t = none) :
    Server.Follows limit (visits ++ [v]) (c.add t) := by
  obtain ⟨t', h'⟩ := h.step v
  have h201 := (Server.created_iff limit visits v h.serves.holds).2 ⟨c, hc, hf⟩
  rcases Server.answer_cases h.serves v with ⟨hst, -⟩ | ⟨c', s', hc', -, hs', -, -, hans⟩
  · exact absurd h201 hst
  · rw [h.bodyLimit, hc, Option.some.injEq] at hc'
    subst hc'
    have hholds : ((Server.fresh limit).after (visits ++ [v])).session.Holds (c.add t) := by
      rw [Server.after_append, hans]
      exact hs'.holds
    exact holds_unique h'.serves.holds hholds ▸ h'

/-! ## Lengths -/

/-- Without a NUL all characters count. -/
theorem storedLength_eq_length {text : String} (h : '\x00' ∉ text.toList) :
    storedLength text = text.length := by
  have hall : text.toList.takeWhile (· ≠ '\x00') = text.toList := by
    rw [List.takeWhile_eq_self_iff]
    intro c hc
    simpa using fun he : c = '\x00' => h (he ▸ hc)
  rw [storedLength, hall, String.length_toList]

/-- A name that is short up to its first NUL is stored when it is sent. -/
theorem exists_byRequests_name {username : String} (h : storedLength username ≤ usernameLimit) :
    ∃ t, ByRequests t ∧ HasName t username := by
  have hcall := call?_userBody (Nat.le_refl (userBody username).length) ""
  have hfault : Call.fault? (.user ⟨username⟩ "") .empty = none :=
    Tables.userFault?_eq_none.2 ⟨h, fun _ hr => nomatch hr⟩
  have hfollows := (Server.follows_nil _).call hcall hfault
  exact ⟨_, ⟨_, _, hfollows.serves.holds⟩, _, Table.add_mem _ _, rfl⟩

theorem exists_byRequests_description {description : String}
    (h : storedLength description ≤ descriptionLimit) :
    ∃ t, ByRequests t ∧ HasDescription t description := by
  generalize hlimit : (userBody "").length + (expenseBody description).length = limit
  -- a user is stored first, so that the expense has an owner
  have huser : (userBody "").length ≤ limit := by omega
  have hu := (Server.follows_nil limit).call (call?_userBody huser "")
    (Tables.userFault?_eq_none.2 ⟨by decide, fun _ hr => nomatch hr⟩)
  have hexpense : (expenseBody description).length ≤ limit := by omega
  have hfault : Call.fault? (.expense ⟨Binary64.ofInt 1, some description, 1⟩ "")
      (Call.add (.user ⟨""⟩ "") .empty) = none := by
    have hamount : (Binary64.ofInt 1).isNaN = false := by decide
    refine Tables.expenseFault?_eq_none.2 ⟨hamount, ?_, ⟨1, "", ""⟩, by decide, rfl⟩
    simpa using h
  have hx := hu.call (call?_expenseBody hexpense "") hfault
  exact ⟨_, ⟨_, _, hx.serves.holds⟩, _, Table.add_mem _ _, rfl⟩

/-- The texts that can be stored, by requests or by calls: those that are short enough up to their first
NUL. That is all of the text where it has no NUL. What the engine takes at all is not counted here: a text of
more than 10^9 bytes is refused whatever is in it. -/
theorem stored_iff (text : String) :
    ((∃ t, ByRequests t ∧ HasName t text) ↔ storedLength text ≤ usernameLimit) ∧
    ((∃ t, ByCalls t ∧ HasName t text) ↔ storedLength text ≤ usernameLimit) ∧
    ((∃ t, ByRequests t ∧ HasDescription t text) ↔ storedLength text ≤ descriptionLimit) ∧
    ((∃ t, ByCalls t ∧ HasDescription t text) ↔ storedLength text ≤ descriptionLimit) ∧
    ('\x00' ∉ text.toList → storedLength text = text.length) := by
  have hname {t : Tables} (h : ByCalls t) (hr : HasName t text) : storedLength text ≤ usernameLimit := by
    obtain ⟨r, hr, rfl⟩ := hr
    exact h.wf.usernameLengths r hr
  have hdescription {t : Tables} (h : ByCalls t) (hx : HasDescription t text) :
      storedLength text ≤ descriptionLimit := by
    obtain ⟨x, hx, hd⟩ := hx
    exact h.wf.descriptionLengths x hx text hd
  refine ⟨⟨?_, exists_byRequests_name⟩, ⟨?_, fun h => ?_⟩, ⟨?_, exists_byRequests_description⟩,
    ⟨?_, fun h => ?_⟩, storedLength_eq_length⟩
  · rintro ⟨t, ht, hr⟩
    exact hname ht.byCalls hr
  · rintro ⟨t, ht, hr⟩
    exact hname ht hr
  · obtain ⟨t, ht, hr⟩ := exists_byRequests_name h
    exact ⟨t, ht.byCalls, hr⟩
  · rintro ⟨t, ht, hx⟩
    exact hdescription ht.byCalls hx
  · rintro ⟨t, ht, hx⟩
    exact hdescription ht hx
  · obtain ⟨t, ht, hx⟩ := exists_byRequests_description h
    exact ⟨t, ht.byCalls, hx⟩

/-- An `a`, a NUL and eighty more letters are stored as a name. -/
theorem stored_beyond_limit : ∃ t, ByRequests t ∧
    HasName t (String.ofList ('a' :: '\x00' :: List.replicate 80 'x')) ∧
    usernameLimit < (String.ofList ('a' :: '\x00' :: List.replicate 80 'x')).length := by
  have hshort : storedLength (String.ofList ('a' :: '\x00' :: List.replicate 80 'x')) ≤ usernameLimit := by
    decide
  obtain ⟨t, ht, hr⟩ := exists_byRequests_name hshort
  exact ⟨t, ht, hr, by decide⟩

end ShapeLedger.Web
