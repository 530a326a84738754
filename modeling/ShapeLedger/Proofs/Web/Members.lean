/-
What a request to the ledger asks for, in terms of the members that its body is written with. Each field of
the record has one member of the right kind, or for the description at most one; the members of other names
are passed over, whatever they hold, and the order of the members makes no difference. So two bodies that
agree in the members of the named fields ask for the same call, and get the same answer when it is made.
-/
import ShapeLedger.Proofs.Json.RoundTrip
import ShapeLedger.Proofs.Json.Writing
import ShapeLedger.Proofs.Web.Body
import ShapeLedger.Proofs.Web.Submission

namespace ShapeLedger.Web

open Json Json.Grammar Ledger

/-! ## Definitions -/

/-- The values under a key, of the members that are written. -/
def valuesUnder (key : String) (ms : Members) : List Value := (ms.filter (·.1 = key)).map (·.2)

/-- The amount that a number stands for. -/
def amountOf : Number → Binary64
  | .integer n => Binary64.ofInt n
  | .real x => x

/-- The description that the values under its key give: none is missing, and a null is like none. -/
inductive Describes : List Value → Option String → Prop where
  | missing : Describes [] none
  | null : Describes [.null] none
  | text (d : String) : Describes [.text d] (some d)

/-- Members that ask for a call. -/
inductive AsksFor (ms : Members) (now : String) : Call → Prop where
  | user {username : String} (hu : valuesUnder "username" ms = [.text username]) :
      AsksFor ms now (.user ⟨username⟩ now)
  | expense {amount : Number} {description : Option String} {userId : Int}
      (ha : valuesUnder "amount" ms = [.number amount])
      (hu : valuesUnder "user_id" ms = [.number (.integer userId)])
      (low : -(twoPow 63 : Int) ≤ userId) (high : userId < twoPow 63)
      (hd : Describes (valuesUnder "description" ms) description) :
      AsksFor ms now (.expense ⟨amountOf amount, description, userId⟩ now)

/-- The names of the fields that a record for a table has. -/
def fieldNames : Subject → List String
  | .user => userForm.fields.map (·.name)
  | .expense => expenseForm.fields.map (·.name)

/-- A request for a table whose body is an object with these members, sent as JSON and short enough. -/
structure Visit.Sends (limit : Nat) (v : Visit) (subject : Subject) (ms : Members) : Prop where
  method : v.request.method = "POST"
  path : v.request.path = ledgerPath subject
  json : v.request.hasJson = true
  fits : v.request.exceeds limit = false
  body : RecordText v.request.body ms

/-- How such a request is taken. -/
structure Visit.Taken (limit : Nat) (v : Visit) (subject : Subject) (ms : Members) : Prop where
  call : ∀ c, v.call? limit = some c ↔ c.subject = subject ∧ AsksFor ms v.now c
  /-- The call that is asked for is made, with what the members give. -/
  made : ∀ (s : Server) c, s.bodyLimit = limit → c.subject = subject → AsksFor ms v.now c → s.answer v = s.outcome c
  /-- Members that ask for no call leave the ledger alone. -/
  unread : ∀ s : Server, s.bodyLimit = limit → (∀ c, c.subject = subject → ¬ AsksFor ms v.now c) →
    ∃ e, Unread limit v.request subject e ∧ s.answer v = (.internal e.text, s)
  /-- An integer is written as a literal without fraction and exponent that is no minus zero. -/
  literal : ∀ n, valuesUnder "user_id" ms = [.number (.integer n)] ↔
    ∃ xs t m, ObjectText v.request.body xs ∧ valuesOf "user_id" xs = [t] ∧ Literal t m ∧ IsInteger m ∧
      signedWhole m = n
  /-- The order of the members and those of other names make no difference. -/
  alike : ∀ (w : Visit) (ms' : Members), w.Sends limit subject ms' → w.now = v.now →
    (ms'.filter (·.1 ∈ fieldNames subject)).Perm (ms.filter (·.1 ∈ fieldNames subject)) →
    w.call? limit = v.call? limit ∧
      ∀ s : Server, s.bodyLimit = limit → (s.answer v).1.status = 201 → s.answer w = s.answer v

/-! ## Values -/

section
variable {β : Type} {convert : Value → Option β} {xs : List (String × Bytes)} {ms ms' : Members}
  {key : String} {t body : Bytes} {v : Value} {now : String} {c : Call}

theorem stands_iff (ht : Denotes t (.value v)) {b : β} : Stands convert t b ↔ convert v = some b := by
  refine ⟨?_, fun hv => ⟨v, ht, hv⟩⟩
  rintro ⟨v', ht', hv⟩
  rwa [denotes_unique ht ht']

/-- The texts under a key denote the values under it. -/
theorem values_same (h : List.Forall₂ SameMember xs ms) (key : String) :
    List.Forall₂ (fun t v => Denotes t (.value v)) (valuesOf key xs) (valuesUnder key ms) := by
  induction h with
  | nil => exact .nil
  | @cons x m xs ms hx _ ih =>
    obtain ⟨hkey, hvalue⟩ := hx
    unfold valuesOf valuesUnder at ih ⊢
    by_cases hk : m.1 = key
    · rw [List.filter_cons_of_pos (by simpa [hkey] using hk), List.filter_cons_of_pos (by simpa using hk)]
      exact .cons hvalue ih
    · rwa [List.filter_cons_of_neg (by simpa [hkey] using hk), List.filter_cons_of_neg (by simpa using hk)]

theorem gives_iff (h : List.Forall₂ SameMember xs ms) {b : β} :
    Gives xs key convert b ↔ ∃ v, valuesUnder key ms = [v] ∧ convert v = some b := by
  have hsame := values_same h key
  constructor
  · rintro ⟨t, ht, hb⟩
    rw [ht] at hsame
    obtain ⟨v, _, hv, hnil, hvalues⟩ := List.forall₂_cons_left_iff.1 hsame
    cases hnil
    exact ⟨v, hvalues, (stands_iff hv).1 hb⟩
  · rintro ⟨v, hv, hb⟩
    rw [hv] at hsame
    obtain ⟨t, _, ht, hnil, htexts⟩ := List.forall₂_cons_right_iff.1 hsame
    cases hnil
    exact ⟨t, htexts, (stands_iff ht).2 hb⟩

theorem missing_iff (h : List.Forall₂ SameMember xs ms) : valuesOf key xs = [] ↔ valuesUnder key ms = [] := by
  rw [← List.length_eq_zero_iff, (values_same h key).length_eq, List.length_eq_zero_iff]

/-- The description that members give, in the terms of the field that takes it. -/
theorem describes_iff {values : List Value} {description : Option String} : Describes values description ↔
    (values = [] ∧ description = none) ∨ ∃ v, values = [v] ∧ asOptionalText? v = some description := by
  constructor
  · rintro (_ | _ | d)
    · exact .inl ⟨rfl, rfl⟩
    · exact .inr ⟨.null, rfl, rfl⟩
    · exact .inr ⟨.text d, rfl, rfl⟩
  · rintro (⟨rfl, rfl⟩ | ⟨v, rfl, hv⟩)
    · exact .missing
    · cases v <;> cases hv
      · exact .null
      · exact .text _

theorem asReal?_number (n : Number) : asReal? (.number n) = some (amountOf n) := by cases n <;> rfl

/-- An integer is what a literal of one denotes. -/
theorem denotes_integer_iff {n : Int} :
    Denotes t (.value (.number (.integer n))) ↔ ∃ m, Literal t m ∧ IsInteger m ∧ signedWhole m = n := by
  constructor
  · intro h
    cases h with
    | number hs hx =>
      cases hx with
      | integer hm => exact ⟨_, hs, hm, rfl⟩
  · rintro ⟨m, hs, hm, rfl⟩
    exact .number hs (.integer hm)

theorem integers_iff (h : List.Forall₂ SameMember xs ms) {n : Int} :
    valuesUnder key ms = [.number (.integer n)] ↔
      ∃ t m, valuesOf key xs = [t] ∧ Literal t m ∧ IsInteger m ∧ signedWhole m = n := by
  have hsame := values_same h key
  constructor
  · intro hv
    rw [hv] at hsame
    obtain ⟨t, _, ht, hnil, htexts⟩ := List.forall₂_cons_right_iff.1 hsame
    cases hnil
    obtain ⟨m, hm⟩ := denotes_integer_iff.1 ht
    exact ⟨t, m, htexts, hm⟩
  · rintro ⟨t, m, htexts, hm⟩
    rw [htexts] at hsame
    obtain ⟨v, _, hv, hnil, hvalues⟩ := List.forall₂_cons_left_iff.1 hsame
    cases hnil
    rw [hvalues, denotes_unique hv (denotes_integer_iff.2 ⟨m, hm⟩)]

/-! ## Members -/

/-- What a body that is an object asks for, it asks for with its members. -/
theorem inObject_iff (h : RecordText body ms) : InObject body now c ↔ AsksFor ms now c := by
  obtain ⟨xs, hxs, hsame⟩ := recordText_iff.1 h
  constructor
  · intro hobject
    cases hobject with
    | user object hu =>
      obtain rfl := object.unique hxs
      obtain ⟨v, hv, hu⟩ := (gives_iff hsame).1 hu
      obtain rfl := asText?_eq_some.1 hu
      exact .user hv
    | @expense _ x object ha hu hd =>
      obtain rfl := object.unique hxs
      obtain ⟨amount, description, userId⟩ := x
      obtain ⟨a, hamount, ha⟩ := (gives_iff hsame).1 ha
      obtain ⟨n, rfl⟩ := asReal?_eq_some ha
      obtain rfl : amountOf n = amount := Option.some.inj ((asReal?_number n).symm.trans ha)
      obtain ⟨u, huser, hu⟩ := (gives_iff hsame).1 hu
      obtain ⟨rfl, high⟩ := asInteger?_eq_some.1 hu
      -- the same member as a numeral: what is an integer is so by its literal
      obtain ⟨t, m, -, -, hm, hn⟩ := (integers_iff hsame).1 huser
      have hdescription : Describes (valuesUnder "description" ms) description :=
        describes_iff.2 (hd.imp (And.imp_left (missing_iff hsame).1) (gives_iff hsame).1)
      exact .expense hamount huser (hm.low.trans_eq hn) high hdescription
  · intro hasks
    cases hasks with
    | user hu => exact .user hxs ((gives_iff hsame).2 ⟨_, hu, rfl⟩)
    | expense ha hu low high hd =>
      refine .expense hxs ((gives_iff hsame).2 ⟨_, ha, asReal?_number _⟩)
        ((gives_iff hsame).2 ⟨_, hu, asInteger?_eq_some.2 ⟨rfl, high⟩⟩) ?_
      exact (describes_iff.1 hd).imp (And.imp_left (missing_iff hsame).2) (gives_iff hsame).2

/-- A body that is an object asks for nothing but what its members ask for. -/
theorem asks_iff (h : RecordText body ms) : Asks body now c ↔ AsksFor ms now c := by
  have hno : ¬ InArray body now c := not_inArray h.text nofun c
  rw [Asks, or_iff_left hno, inObject_iff h]

/-- The members of some of the names have the same values under each of them, in whatever order they are. -/
theorem valuesUnder_perm {names : List String}
    (h : (ms'.filter (·.1 ∈ names)).Perm (ms.filter (·.1 ∈ names))) (hk : key ∈ names) :
    (valuesUnder key ms').Perm (valuesUnder key ms) := by
  have hthrough (ms : Members) : valuesUnder key ms = ((ms.filter (·.1 ∈ names)).filter (·.1 = key)).map (·.2) := by
    rw [valuesUnder, List.filter_filter]
    congr 2
    funext m
    by_cases hm : m.1 = key <;> simp [hm, hk]
  rw [hthrough ms', hthrough ms]
  exact (h.filter _).map _

theorem asksFor_of_perm
    (h : (ms'.filter (·.1 ∈ fieldNames c.subject)).Perm (ms.filter (·.1 ∈ fieldNames c.subject)))
    (hasks : AsksFor ms now c) : AsksFor ms' now c := by
  -- no order is left among so few values
  have hfew {key : String} {values : List Value} (hk : key ∈ fieldNames c.subject)
      (hv : valuesUnder key ms = values) (hlen : values.length ≤ 1) : valuesUnder key ms' = values := by
    have hp := hv ▸ valuesUnder_perm h hk
    match values, hlen with
    | [], _ => exact hp.eq_nil
    | [v], _ => exact hp.eq_singleton
  cases hasks with
  | user hu => exact .user (hfew (show "username" ∈ fieldNames .user by decide) hu (Nat.le_refl 1))
  | expense ha hu low high hd =>
    have hlen : (valuesUnder "description" ms).length ≤ 1 := by
      generalize valuesUnder "description" ms = values at hd
      cases hd <;> simp
    refine .expense (hfew (show "amount" ∈ fieldNames .expense by decide) ha (Nat.le_refl 1))
      (hfew (show "user_id" ∈ fieldNames .expense by decide) hu (Nat.le_refl 1)) low high ?_
    rwa [hfew (show "description" ∈ fieldNames .expense by decide) rfl hlen]

end

/-! ## Requests -/

section
variable {limit : Nat} {v : Visit} {subject : Subject} {ms : Members}

theorem Visit.Sends.call?_eq_some (h : v.Sends limit subject ms) {c : Call} :
    v.call? limit = some c ↔ c.subject = subject ∧ AsksFor ms v.now c := by
  rw [Visit.call?_eq_some, asks_iff h.body]
  constructor
  · rintro ⟨-, hp, -, -, hasks⟩
    exact ⟨ledgerPath_injective (hp.symm.trans h.path), hasks⟩
  · rintro ⟨rfl, hasks⟩
    exact ⟨h.method, h.path, h.json, h.fits, hasks⟩

theorem Visit.Sends.taken (h : v.Sends limit subject ms) : v.Taken limit subject ms := by
  refine ⟨fun c => h.call?_eq_some, ?made, ?unread, ?literal, ?alike⟩
  case made =>
    rintro s c rfl hs hasks
    exact s.answer_call (h.call?_eq_some.2 ⟨hs, hasks⟩)
  case unread =>
    rintro s rfl hno
    have hcall : v.call? s.bodyLimit = none :=
      Option.eq_none_iff_forall_ne_some.2 fun c hc => 
        hno c (h.call?_eq_some.1 hc).1 (h.call?_eq_some.1 hc).2
    obtain ⟨e, he, hans⟩ := Server.answer_unread h.method h.path hcall
    exact ⟨e, he, Prod.ext hans (Server.answer_no_call hcall).2⟩
  case literal =>
    intro n
    obtain ⟨xs, hxs, hsame⟩ := recordText_iff.1 h.body
    rw [integers_iff hsame]
    constructor
    · rintro ⟨t, m, ht, hm⟩
      exact ⟨xs, t, m, hxs, ht, hm⟩
    · rintro ⟨xs', t, m, hxs', ht, hm⟩
      obtain rfl := hxs'.unique hxs
      exact ⟨t, m, ht, hm⟩
  case alike =>
    intro w ms' hw hnow hperm
    have hcall : w.call? limit = v.call? limit := by
      -- both visits ask for the same call, since each asks for what its members ask for
      refine Option.ext fun c => ?_
      rw [hw.call?_eq_some, h.call?_eq_some, hnow]
      refine and_congr_right ?_
      rintro rfl
      exact ⟨asksFor_of_perm hperm.symm, asksFor_of_perm hperm⟩
    refine ⟨hcall, ?_⟩
    rintro s rfl h201
    cases hc : v.call? s.bodyLimit with
    | none => exact absurd h201 (Server.answer_no_call hc).1
    | some c => rw [s.answer_call hc, s.answer_call (hcall.trans hc)]

/-- Any object that is sent to the path of a table, as JSON and short enough: it is written with one list of
members, and is taken by that. -/
theorem members_taken (limit : Nat) {v : Visit} {subject : Subject} {members : Members}
    (post : v.request.method = "POST") (path : v.request.path = ledgerPath subject)
    (json : v.request.hasJson = true) (fits : v.request.exceeds limit = false)
    (accepted : Document.decode v.request.body = .ok (.object members)) :
    ∃ ms, (∀ ms', RecordText v.request.body ms' ↔ ms' = ms) ∧ members = merged ms ∧ v.Taken limit subject ms := by
  obtain ⟨ms, hms, hmerged⟩ := exists_record accepted
  refine ⟨ms, fun ms' => ⟨fun h => h.unique hms, fun h => h ▸ hms⟩, hmerged, ?_⟩
  exact Visit.Sends.taken ⟨post, path, json, fits, hms⟩

/-- The members of an expense without a description, behind one of another name. -/
def teaMembers : Members :=
  [("b", .array [.null]), ("user_id", .number (.integer 1)), ("amount", .number (.integer 5)),
    ("description", .null)]

/-- A request that sends them. -/
def teaVisit : Visit := ⟨"1", recordRequest .expense (Utf8.encode (Value.object teaMembers).compact)⟩

theorem members_taken_tea :
    teaVisit.request.method = "POST" ∧ teaVisit.request.path = ledgerPath .expense ∧
      teaVisit.request.hasJson = true ∧ teaVisit.request.exceeds 64 = false ∧
      Document.decode teaVisit.request.body = .ok (.object teaMembers) ∧
      AsksFor teaMembers "1" (.expense ⟨.ofNat 5, none, 1⟩ "1") ∧
      ∃ ms, (∀ ms', RecordText teaVisit.request.body ms' ↔ ms' = ms) ∧ teaMembers = merged ms ∧
        teaVisit.Taken 64 .expense ms := by
  have hvalues : ∀ m ∈ teaMembers, Faithful m.2 := by
    simp only [teaMembers, List.forall_mem_cons]
    exact ⟨.array (by simp [Faithful.null]), .integer (by decide) (by decide),
      .integer (by decide) (by decide), .null, List.forall_mem_nil _⟩
  have hfaithful : Faithful (.object teaMembers) := .object (by decide) hvalues
  have hpath : teaVisit.request.path = ledgerPath .expense := path_recordRequest _ _
  have hjson : teaVisit.request.hasJson = true := by decide +kernel
  have hfits : teaVisit.request.exceeds 64 = false := by decide +kernel
  have hasks : AsksFor teaMembers "1" (.expense ⟨amountOf (.integer 5), none, 1⟩ "1") :=
    .expense rfl rfl (by decide) (by decide) .null
  exact ⟨rfl, hpath, hjson, hfits, hfaithful.decode_compact, hasks,
    members_taken 64 rfl hpath hjson hfits hfaithful.decode_compact⟩

end

end ShapeLedger.Web
