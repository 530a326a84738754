/-
What the analysis is given, and what it answers. A body that is no blank is decoded, and the last of its
members `json` is analyzed; a string there holds a document, which is decoded once and analyzed in its
place. Every body is answered in exactly one of three ways: it submits nothing, it is refused for a fault
in it or in the document that it holds, or it is analyzed.

So a document may be sent as it is or inside a string, however that is escaped: the answers are the same.
-/
import ShapeLedger.Proofs.Json.Printing
import ShapeLedger.Proofs.Json.Reading
import ShapeLedger.Web.Server

namespace ShapeLedger.Web

open Json Json.Grammar

/-! ## Definitions -/

/-- A POST of this body to the analysis, on a server that takes bodies of its length. -/
structure Server.Takes (s : Server) (r : Request) (body : Bytes) : Prop where
  method : r.method = "POST"
  path : r.path = "/api/analyze"
  body : r.body = body
  fits : r.exceeds s.bodyLimit = false

/-- A request that submits a body and says nothing else. -/
def submission (body : Bytes) : Request := ⟨"POST", "/api/analyze", [], body⟩

/-- The body is an object, and this is the value of the last of its members `json`. -/
def Submits (body : Bytes) (v : Value) : Prop := ∃ ms, RecordText body ms ∧ last? "json" ms = some v

/-- There is nothing in the body to analyze: it is blank, no object, or an object without the member `json`. -/
inductive SubmitsNothing (body : Bytes) : Prop where
  | blank (h : body.all Ascii.isBlank = true)
  | otherValue {v : Value} (h : Document.decode body = .ok v) (hv : ∀ members, v ≠ .object members)
  | otherMembers {ms : Members} (h : RecordText body ms) (hm : last? "json" ms = none)

/-- The body is refused for a fault in it, or in the document that the submitted string holds. -/
inductive Refused (body : Bytes) (e : Json.Error) : Prop where
  | body (hb : body.all Ascii.isBlank = false) (h : Document.decode body = .error e)
  | held {t : String} (hb : Submits body (.text t)) (h : Document.decode (Utf8.encode t) = .error e)

/-- The value that is analyzed. A string that a held document is stays a string. -/
inductive Analyzes (body : Bytes) (v : Value) : Prop where
  | value (hb : Submits body v) (hv : ∀ t, v ≠ .text t)
  | held {t : String} (hb : Submits body (.text t)) (h : Document.decode (Utf8.encode t) = .ok v)

/-- The answer to the submission of a body: one of three, and which one depends on the body alone. -/
structure Answered (body : Bytes) (a : Response) : Prop where
  nothing : a = .badRequest "No JSON data provided" ↔ SubmitsNothing body
  refused : ∀ message, a = .badRequest ("Invalid JSON format: " ++ message) ↔
    ∃ e, Refused body e ∧ e.message = message
  analyzed : ∀ v, Analyzes body v → a = .success "JSON analysis completed" (Report.of v).toJson
  otherwise : (∃ v, Analyzes body v) ↔ ¬ SubmitsNothing body ∧ ¬ ∃ e, Refused body e
  distinct : ¬ (SubmitsNothing body ∧ ∃ e, Refused body e)
  unique : ∀ v w, Analyzes body v → Analyzes body w → v = w
  /-- A null that is there is a value like any other. -/
  null : Submits body .null → a = .success "JSON analysis completed" (Report.of .null).toJson
  noFailure : a.status ≠ 500

/-! ## Refusals -/

theorem badRequest_body (m : String) : (Response.badRequest m).body.toList =
    '{' :: (quoted "status" ++ ':' :: (quoted "error" ++
      (',' :: (quoted "message" ++ ':' :: quoted m) ++ ['}']))) := by
  show (String.ofList ('{' :: (quoted "status" ++ ':' :: (quoted "error" ++
    (',' :: (quoted "message" ++ ':' :: (quoted m ++ [])) ++ ['}']))))).toList = _
  rw [String.toList_ofList, List.append_nil]

/-- Different messages are different answers. -/
theorem badRequest_injective : Function.Injective Response.badRequest := by
  intro m n h
  have hbody : (Response.badRequest m).body.toList = (Response.badRequest n).body.toList := by rw [h]
  rw [badRequest_body, badRequest_body] at hbody
  simp only [List.cons.injEq, List.append_cancel_left_eq, List.append_cancel_right_eq, true_and] at hbody
  exact quoted_injective hbody

theorem invalidJson_inj {e : Json.Error} {message : String} :
    invalidJson e = .badRequest ("Invalid JSON format: " ++ message) ↔ e.message = message := by
  constructor
  · intro h
    have htext := congrArg String.toList (badRequest_injective h)
    rw [String.toList_append, String.toList_append] at htext
    exact String.toList_inj.1 (List.append_cancel_left htext)
  · rintro rfl
    rfl

theorem noData_ne (message : String) : noData ≠ .badRequest ("Invalid JSON format: " ++ message) := by
  intro h
  have htext := congrArg String.toList (badRequest_injective h)
  rw [String.toList_append] at htext
  exact absurd (List.cons.inj htext).1 (by decide)

/-! ## Submissions -/

section
variable {body : Bytes} {v : Value}

theorem record_not_blank {ms : Members} (h : RecordText body ms) : body.all Ascii.isBlank = false := by
  obtain ⟨w, t, w', rfl, -, ht, -⟩ := h
  have hbrace : Ascii.openBrace ∈ w ++ (t ++ w') := by
    cases ht <;> simp
  rw [List.all_eq_false]
  exact ⟨_, hbrace, by decide⟩

theorem decode_record {ms : Members} (h : RecordText body ms) :
    Document.decode body = .ok (.object (merged ms)) :=
  Document.decode_eq_ok.2 (readDocument_eq_ok.2 h.text)

theorem exists_record {members : Members} (h : Document.decode body = .ok (.object members)) :
    ∃ ms, RecordText body ms ∧ members = merged ms :=
  Text.record (readDocument_eq_ok.1 (Document.decode_eq_ok.1 h))

/-- What is looked up in a body that is an object. -/
theorem submitted_record {ms : Members} (h : RecordText body ms) :
    submitted body = match last? "json" ms with
      | some v => .ok v
      | none => .error noData := by
  unfold submitted
  cases hlast : last? "json" ms <;>
    simp only [record_not_blank h, decode_record h, get?_merged, hlast, Bool.false_eq_true, if_false]

theorem Submits.submitted (h : Submits body v) : Web.submitted body = .ok v := by
  obtain ⟨ms, hms, hlast⟩ := h
  rw [submitted_record hms, hlast]

theorem SubmitsNothing.submitted (h : SubmitsNothing body) : Web.submitted body = .error noData := by
  cases h with
  | blank h => rw [Web.submitted, if_pos h]
  | @otherValue v h hv =>
    unfold Web.submitted
    split
    · rfl
    · rw [h]
      cases v with
      | object members => exact absurd rfl (hv members)
      | _ => rfl
  | otherMembers h hm => rw [submitted_record h, hm]

theorem submitted_error {e : Json.Error} (hb : body.all Ascii.isBlank = false)
    (h : Document.decode body = .error e) : submitted body = .error (invalidJson e) := by
  unfold submitted
  rw [if_neg (by rw [hb]; decide), h]

/-- Every body submits nothing, is refused, or submits a value. -/
theorem body_cases (body : Bytes) : SubmitsNothing body ∨
    (∃ e, body.all Ascii.isBlank = false ∧ Document.decode body = .error e) ∨ ∃ v, Submits body v := by
  cases hb : body.all Ascii.isBlank with
  | true => exact .inl (.blank hb)
  | false =>
    cases hd : Document.decode body with
    | error e => exact .inr (.inl ⟨e, rfl, rfl⟩)
    | ok v =>
      by_cases hv : ∃ members, v = .object members
      · obtain ⟨members, rfl⟩ := hv
        obtain ⟨ms, hms, -⟩ := exists_record hd
        cases hlast : last? "json" ms with
        | none => exact .inl (.otherMembers hms hlast)
        | some v => exact .inr (.inr ⟨v, ms, hms, hlast⟩)
      · exact .inl (.otherValue hd fun members he => hv ⟨members, he⟩)

end

/-! ## Answers -/

section
variable {s : Server} {now : String} {r : Request} {body : Bytes}

theorem Server.handle_analyze (s : Server) (now : String) {r : Request} (hm : r.method = "POST")
    (hp : r.path = "/api/analyze") : (s.handle now r).1 = analyze s.bodyLimit r := by
  have hr : Route.ofPath? r.path = some .analyze := by rw [hp]; decide
  unfold Server.handle
  simp only [hr, hm]
  rfl

/-- The path is read from the target alone. -/
theorem Request.path_congr {r r' : Request} (h : r.uri = r'.uri) : r.path = r'.path := by
  rw [Request.path, Request.path, h]

theorem path_submission (body : Bytes) : (submission body).path = "/api/analyze" := by
  have hempty : (submission body).path = (submission []).path := Request.path_congr rfl
  rw [hempty]
  decide

theorem takes_submission {s : Server} {body : Bytes} (h : body.length ≤ s.bodyLimit) :
    s.Takes (submission body) body := ⟨rfl, path_submission body, rfl, decide_eq_false (Nat.not_lt.2 h)⟩

theorem Server.Takes.answer (h : s.Takes r body) : (s.handle now r).1 =
    match submitted body with
    | .error refusal => refusal
    | .ok v =>
      match Document.embedded v with
      | .error e => invalidJson e
      | .ok v => .success "JSON analysis completed" (Report.of v).toJson := by
  rw [s.handle_analyze now h.method h.path]
  unfold analyze
  cases hs : submitted body with
  | error refusal => simp only [h.fits, h.body, hs, Bool.false_eq_true, if_false]
  | ok v =>
    cases hv : Document.embedded v <;> simp only [h.fits, h.body, hs, hv, Bool.false_eq_true, if_false]

theorem Server.Takes.answer_nothing (h : s.Takes r body) (hb : SubmitsNothing body) :
    (s.handle now r).1 = noData := by
  rw [h.answer, hb.submitted]

theorem Server.Takes.answer_refused {e : Json.Error} (h : s.Takes r body) (hb : Refused body e) :
    (s.handle now r).1 = invalidJson e := by
  cases hb with
  | body hb hd => rw [h.answer, submitted_error hb hd]
  | held hb hd => simp only [h.answer, hb.submitted, Document.embedded, hd]

/-- Every body submits nothing, is refused, or has a value analyzed. -/
theorem body_outcomes (body : Bytes) :
    SubmitsNothing body ∨ (∃ e, Refused body e) ∨ ∃ v, Analyzes body v := by
  rcases body_cases body with h | ⟨e, hb, he⟩ | ⟨v, hv⟩
  · exact .inl h
  · exact .inr (.inl ⟨e, .body hb he⟩)
  · by_cases ht : ∃ t, v = .text t
    · obtain ⟨t, rfl⟩ := ht
      cases hd : Document.decode (Utf8.encode t) with
      | error e => exact .inr (.inl ⟨e, .held hv hd⟩)
      | ok w => exact .inr (.inr ⟨w, .held hv hd⟩)
    · exact .inr (.inr ⟨v, .value hv fun t he => ht ⟨t, he⟩⟩)

/-- A value other than a string is analyzed itself, and a string gives the document that it holds. -/
theorem Analyzes.embedded {v : Value} (h : Analyzes body v) :
    ∃ w, submitted body = .ok w ∧ Document.embedded w = .ok v := by
  cases h with
  | value hb hv =>
    refine ⟨v, hb.submitted, ?_⟩
    cases v with
    | text t => exact absurd rfl (hv t)
    | _ => rfl
  | held hb hd => exact ⟨_, hb.submitted, hd⟩

/-- One value at most is analyzed. -/
theorem Analyzes.unique {v w : Value} (hv : Analyzes body v) (hw : Analyzes body w) : v = w := by
  obtain ⟨x, hx, hxv⟩ := hv.embedded
  obtain ⟨y, hy, hyw⟩ := hw.embedded
  rw [hx, Except.ok.injEq] at hy
  rw [← hy, hxv] at hyw
  exact Except.ok.inj hyw

theorem Server.Takes.answer_analyzed {v : Value} (h : s.Takes r body) (hb : Analyzes body v) :
    (s.handle now r).1 = .success "JSON analysis completed" (Report.of v).toJson := by
  obtain ⟨w, hw, hv⟩ := hb.embedded
  simp only [h.answer, hw, hv]

theorem Server.Takes.status_bad (h : s.Takes r body) (hb : SubmitsNothing body ∨ ∃ e, Refused body e) :
    (s.handle now r).1.status = 400 := by
  rcases hb with hb | ⟨e, hb⟩
  · rw [h.answer_nothing hb]; rfl
  · rw [h.answer_refused hb]; rfl

theorem Server.Takes.status_ok (h : s.Takes r body) (hb : ∃ v, Analyzes body v) :
    (s.handle now r).1.status = 200 := by
  obtain ⟨v, hb⟩ := hb
  rw [h.answer_analyzed hb]; rfl

/-- A submission is answered in exactly one of the three ways. -/
theorem Server.Takes.answered (h : s.Takes r body) : Answered body (s.handle now r).1 := by
  have hnothing : SubmitsNothing body → (s.handle now r).1 = noData := h.answer_nothing
  have hrefused (e : Json.Error) : Refused body e → (s.handle now r).1 = invalidJson e := h.answer_refused
  have hanalyzed (v : Value) : Analyzes body v →
      (s.handle now r).1 = .success "JSON analysis completed" (Report.of v).toJson := h.answer_analyzed
  -- the three answers are told apart by their status and their message
  have hbad : (SubmitsNothing body ∨ ∃ e, Refused body e) → (s.handle now r).1.status = 400 := h.status_bad
  have hok : (∃ v, Analyzes body v) → (s.handle now r).1.status = 200 := h.status_ok
  generalize (s.handle now r).1 = a at hnothing hrefused hanalyzed hbad hok
  constructor
  case nothing =>
    refine ⟨fun ha => ?_, hnothing⟩
    rcases body_outcomes body with hb | ⟨e, hb⟩ | hb
    · exact hb
    · exact absurd (ha.symm.trans (hrefused e hb)) (noData_ne e.message)
    · exact absurd ((congrArg Response.status ha).symm.trans (hok hb)) (by decide)
  case refused =>
    intro message
    constructor
    · intro ha
      rcases body_outcomes body with hb | ⟨e, hb⟩ | hb
      · exact absurd ((hnothing hb).symm.trans ha) (noData_ne message)
      · exact ⟨e, hb, invalidJson_inj.1 ((hrefused e hb).symm.trans ha)⟩
      · exact absurd ((congrArg Response.status ha).symm.trans (hok hb)) (by show 400 ≠ 200; decide)
    · rintro ⟨e, hb, rfl⟩
      exact hrefused e hb
  case analyzed => exact hanalyzed
  case otherwise =>
    constructor
    · intro hb
      have h200 := hok hb
      constructor <;> intro hb'
      · have := hbad (.inl hb'); omega
      · have := hbad (.inr hb'); omega
    · intro hb
      rcases body_outcomes body with hb' | hb' | hb'
      · exact absurd hb' hb.1
      · exact absurd hb' hb.2
      · exact hb'
  case distinct =>
    rintro ⟨hb, e, he⟩
    exact noData_ne e.message ((hnothing hb).symm.trans (hrefused e he))
  case unique => exact fun v w => Analyzes.unique
  case null => exact fun hb => hanalyzed .null (.value hb fun t => by simp)
  case noFailure =>
    rcases body_outcomes body with hb | hb | hb
    · rw [hbad (.inl hb)]; decide
    · rw [hbad (.inr hb)]; decide
    · rw [hok hb]; decide

end

/-! ## Documents inside strings -/

/-- The body that submits what is written in `x`. -/
def wrapped (x : Bytes) : Bytes :=
  Ascii.openBrace :: (Utf8.encode "\"json\":" ++ (x ++ [Ascii.closeBrace]))

theorem submits_wrapped {x : Bytes} {v : Value} (h : Text x v) : Submits (wrapped x) v := by
  have hkey : Quoted (Utf8.encode "\"json\"") "json" := quoted_denotes "json"
  have hmember := Denotes.lastMember (.member blank_nil hkey blank_nil h)
  refine ⟨_, ⟨[], _, [], ?_, blank_nil, .record hmember, blank_nil⟩, rfl⟩
  have hcolon : Utf8.encode "\"json\":" = Utf8.encode "\"json\"" ++ [Ascii.colon] := by decide
  simp [wrapped, hcolon]

/-- A document is answered alike as it is and inside a string, as long as it is no string itself; and a
text that is no document is refused alike inside a string and as the whole body, with the place counted
in that text. -/
theorem Server.embedded_agrees {q : Bytes} {u : String} (hq : Quoted q u) {s s' : Server}
    {now now' : String} {embedded other : Request} (he : s.Takes embedded (wrapped q)) :
    (∀ v, Document.decode (Utf8.encode u) = .ok v → (∀ x, v ≠ .text x) →
      s'.Takes other (wrapped (Utf8.encode u)) →
      (s.handle now embedded).1 = (s'.handle now' other).1 ∧ (s.handle now embedded).1.status = 200) ∧
    (∀ e, Document.decode (Utf8.encode u) = .error e → (Utf8.encode u).all Ascii.isBlank = false →
      s'.Takes other (Utf8.encode u) →
      (s.handle now embedded).1 = (s'.handle now' other).1 ∧
      ∃ f, readDocument none (Utf8.encode u) = .error f ∧
        (s.handle now embedded).1 = .badRequest ("Invalid JSON format: " ++ (f.reason.text ++
          (Position.ofUnread (Utf8.encode u) f.unread).suffix))) := by
  have hstring : Submits (wrapped q) (.text u) := submits_wrapped <| by
    simpa [Text] using Denotes.element blank_nil (.text hq) blank_nil
  constructor
  · intro v hv hnot ho
    have hself : Submits (wrapped (Utf8.encode u)) v :=
      submits_wrapped (readDocument_eq_ok.1 (Document.decode_eq_ok.1 hv))
    rw [he.answer_analyzed (.held hstring hv), ho.answer_analyzed (.value hself hnot)]
    exact ⟨rfl, rfl⟩
  · intro e hdecode hb ho
    rw [he.answer_refused (.held hstring hdecode), ho.answer_refused (.body hb hdecode)]
    obtain ⟨f, hf, rfl⟩ := Document.decode_eq_error.1 hdecode
    exact ⟨rfl, f, hf, rfl⟩

/-- The document `null` with its last letter escaped, and the same word without that letter. -/
theorem Server.embedded_agrees_null :
    ((Server.fresh 64).handle "" (submission (wrapped (Utf8.encode "\"nul\\u006c\"")))).1 =
      ((Server.fresh 64).handle "" (submission (wrapped (Utf8.encode "null")))).1 ∧
    ((Server.fresh 64).handle "" (submission (wrapped (Utf8.encode "\"nul\"")))).1 =
      ((Server.fresh 64).handle "" (submission (Utf8.encode "nul"))).1 := by
  have hescaped : readString (Utf8.encode "nul\\u006c\"") = .ok ("null", []) := by decide +kernel
  have hplain : readString (Utf8.encode "nul\"") = .ok ("nul", []) := by decide +kernel
  have hnull : Quoted (Utf8.encode "\"nul\\u006c\"") "null" := quoted_iff.2 hescaped
  have hnul : Quoted (Utf8.encode "\"nul\"") "nul" := quoted_iff.2 hplain
  have hdecode : Document.decode (Utf8.encode "null") = .ok .null := by with_unfolding_all rfl
  have hrefuse : Document.decode (Utf8.encode "nul") = .error ⟨.valueEnds, 1, 3⟩ := by
    with_unfolding_all rfl
  constructor
  · exact ((Server.embedded_agrees hnull (takes_submission (by decide))).1 .null hdecode (by simp)
      (takes_submission (by decide))).1
  · exact ((Server.embedded_agrees hnul (takes_submission (by decide))).2 _ hrefuse (by decide)
      (takes_submission (by decide))).1

end ShapeLedger.Web
