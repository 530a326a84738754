/-
What the answers of the server say. The body of an answer is one line of JSON, and whoever decodes it has
the value that the answer was made from: an envelope of a status and a message, with the report beside them
if a document has been analyzed.
-/
import ShapeLedger.Proofs.Json.RoundTrip
import ShapeLedger.Proofs.Web.Recording
import ShapeLedger.Proofs.Web.Submission

namespace ShapeLedger.Web

open Json Json.Grammar

/-! ## Definitions -/

/-- The answer is a JSON text, and what is decoded from it is this value. -/
structure Response.Says (a : Response) (v : Value) : Prop where
  mediaType : a.mediaType = some "application/json"
  decoded : Document.decode (Utf8.encode a.body) = .ok v

/-- What is said of something that went wrong. -/
def failed (message : String) : Value := .object [("status", .text "error"), ("message", .text message)]

/-- What is said of a value that has been analyzed. -/
def completed (result : Value) : Value :=
  .object [("status", .text "success"), ("message", .text "JSON analysis completed"), ("result", result)]

/-- What a value is called. -/
def kindName : Value → String
  | .object _ => "object"
  | .array _ => "array"
  | .text _ => "string"
  | .number _ => "number"
  | .boolean _ => "boolean"
  | .null => "null"

/-- The keys of an object under which there are objects and arrays. -/
def containerKeys (ms : Members) : List String :=
  (ms.filter (fun m => kindName m.2 = "object" ∨ kindName m.2 = "array")).map (·.1)

/-- What is worth a remark. -/
def remarks : Value → List String
  | .object ms =>
    if ms.isEmpty then ["Empty object detected"]
    else if containerKeys ms = [] then []
    else ["Nested structures found in: " ++ ", ".intercalate (containerKeys ms)]
  | .array vs =>
    if vs.isEmpty then ["Empty array detected"]
    else if ∀ v ∈ vs, kindName v = "object" then ["Array contains uniform objects"]
    else []
  | _ => []

/-- What is said of the top level of a value. Of the first five elements of an array it is said which kinds
occur, in one order whatever theirs is. -/
def outline : Value → Value
  | .object ms =>
    .object [("property_count", .number (.integer ms.length)), ("keys", .array (ms.map (fun m => .text m.1)))]
  | .array vs =>
    .object [("length", .number (.integer vs.length)),
      ("sample_types", .array ((["object", "array", "string", "number", "boolean", "null"].filter
        (fun name => ∃ v ∈ vs.take 5, kindName v = name)).map .text))]
  | _ => .object []

/-- All that is said of a value. -/
def described (v : Value) : Value :=
  .object [("value_type", .text (kindName v)), ("structure", outline v),
    ("insights", .array ((remarks v).map .text))]

/-- What the answer to the submission of a body says. -/
inductive Tells (body : Bytes) : Value → Prop where
  | nothing (h : SubmitsNothing body) : Tells body (failed "No JSON data provided")
  | refused {e : Json.Error} (h : Refused body e) : Tells body (failed ("Invalid JSON format: " ++ e.message))
  | analyzed {v : Value} (h : Analyzes body v) : Tells body (completed (described v))

/-! ## Reports -/

theorem label_of (v : Value) : (Kind.of v).label = kindName v := by
  cases v <;> rfl

theorem label_inj {a b : Kind} : a.label = b.label ↔ a = b := by
  cases a <;> cases b <;> decide

theorem nestedKeys_eq (ms : Members) : nestedKeys ms = containerKeys ms := by
  have hkind (v : Value) : (Kind.of v).isContainer = decide (kindName v = "object" ∨ kindName v = "array") := by
    cases v <;> simp [Kind.of, Kind.isContainer, kindName]
  simp only [nestedKeys, containerKeys, hkind]

theorem insights_eq (v : Value) : (Insight.of v).map Insight.text = remarks v := by
  cases v with
  | object ms =>
    cases ms with
    | nil => rfl
    | cons m rest =>
      simp only [Insight.of, remarks, nestedKeys_eq, List.isEmpty_cons, Bool.false_eq_true, if_false]
      generalize containerKeys (m :: rest) = keys
      cases keys with
      | nil => rfl
      | cons key keys => rfl
  | array vs =>
    cases vs with
    | nil => rfl
    | cons v rest =>
      have hobject (w : Value) : Kind.of w = .object ↔ kindName w = "object" := by
        rw [← label_of, ← label_inj, Kind.label]
      simp only [Insight.of, remarks, List.all_eq_true, decide_eq_true_eq, hobject, List.isEmpty_cons,
        Bool.false_eq_true, if_false]
      split <;> rfl
  | _ => rfl

/-- The kinds that are listed are those that occur, in the order of the list. -/
theorem present_eq (vs : List Value) : (Kind.present (vs.map Kind.of)).map Kind.label =
    ["object", "array", "string", "number", "boolean", "null"].filter (fun name => ∃ v ∈ vs, kindName v = name) := by
  have hnames : ["object", "array", "string", "number", "boolean", "null"] = Kind.all.map Kind.label := rfl
  rw [hnames, List.filter_map, Kind.present]
  congr 2
  funext k
  simp only [List.mem_map, Function.comp, ← label_of, label_inj]

theorem shape_eq (v : Value) : (Shape.of v).toJson = outline v := by
  cases v with
  | object ms => simp only [Shape.of, Shape.toJson, outline, List.length_map, List.map_map, Function.comp_def]
  | array vs =>
    simp only [Shape.of, Shape.toJson, outline, Shape.sampleSize, ← present_eq, List.map_map, Function.comp_def]
  | _ => rfl

/-- What is written of a value is what is to be said of it. -/
theorem toJson_report (v : Value) : (Report.of v).toJson = described v := by
  have hinsights : (Report.of v).insights.map (fun i => Value.text i.text) = (remarks v).map .text := by
    rw [← insights_eq, List.map_map]
    rfl
  have hshape : (Report.of v).shape.toJson = outline v := shape_eq v
  have hkind : (Report.of v).kind.label = kindName v := label_of v
  rw [Report.toJson, hinsights, hshape, hkind, described]

/-- A count below 2^64 is a number like any other. -/
theorem faithful_count {n : Nat} (h : n < twoPow 64) : Faithful (.number (.integer n)) := by
  have hlow : -(twoPow 63 : Int) ≤ n := (Int.neg_nonpos_of_nonneg (Int.natCast_nonneg _)).trans
    (Int.natCast_nonneg n)
  exact .integer hlow (by exact_mod_cast h)

theorem faithful_texts {α : Type} (text : α → String) (xs : List α) :
    Faithful (.array (xs.map (fun x => .text (text x)))) := by
  refine .array fun v hv => ?_
  obtain ⟨x, -, rfl⟩ := List.mem_map.1 hv
  exact .text (text x)

theorem faithful_outline {v : Value} (h : v.breadth < twoPow 64) : Faithful (outline v) := by
  cases v with
  | object members =>
    refine .object (by simp) ?_
    rw [List.forall_mem_cons, List.forall_mem_singleton]
    exact ⟨faithful_count h, faithful_texts Prod.fst _⟩
  | array elements =>
    refine .object (by simp) ?_
    rw [List.forall_mem_cons, List.forall_mem_singleton]
    exact ⟨faithful_count h, faithful_texts id _⟩
  | _ => exact .object List.nodup_nil (List.forall_mem_nil _)

/-- What is said of a value is read back as it is written. -/
theorem faithful_described {v : Value} (h : v.breadth < twoPow 64) : Faithful (described v) := by
  refine .object (by simp) ?_
  rw [List.forall_mem_cons, List.forall_mem_cons, List.forall_mem_singleton]
  exact ⟨.text _, faithful_outline h, faithful_texts id _⟩

/-! ## Answers -/

theorem says_json (status : Nat) {v : Value} (h : Faithful v) : (Response.json status v).Says v :=
  ⟨rfl, h.decode_compact⟩

theorem faithful_failed (message : String) : Faithful (failed message) := by
  refine .object (by simp) ?_
  rw [List.forall_mem_cons, List.forall_mem_singleton]
  exact ⟨.text _, .text _⟩

/-- Whatever the message, it is read back as it is. -/
theorem says_failure (status : Nat) (message : String) :
    (Response.failure status message).Says (failed message) := says_json status (faithful_failed message)

theorem says_success {result : Value} (h : Faithful result) :
    (Response.success "JSON analysis completed" result).Says (completed result) := by
  have hcompleted : Faithful (completed result) := by
    refine .object (by simp) ?_
    rw [List.forall_mem_cons, List.forall_mem_cons, List.forall_mem_singleton]
    exact ⟨.text _, .text _, h⟩
  exact says_json 200 hcompleted

theorem says_created (message : String) {id : Int} (low : -(twoPow 63 : Int) ≤ id) (high : id < twoPow 64) :
    (created message id).Says (.object [("message", .text message), ("id", .number (.integer id))]) := by
  refine says_json 201 (.object (by simp) ?_)
  rw [List.forall_mem_cons, List.forall_mem_singleton]
  exact ⟨.text _, .integer low high⟩

/-- An answer says one thing. -/
theorem Response.Says.unique {a : Response} {v w : Value} (hv : a.Says v) (hw : a.Says w) : v = w :=
  Except.ok.inj (hv.decoded.symm.trans hw.decoded)

/-! ## Submissions -/

section
variable {body : Bytes} {v : Value}

theorem last?_mem {key : String} {ms : Members} (h : last? key ms = some v) : (key, v) ∈ ms := by
  obtain ⟨m, hfind, rfl⟩ := Option.map_eq_some_iff.1 h
  have hkey := List.find?_some hfind
  rw [decide_eq_true_eq] at hkey
  rw [← hkey]
  exact List.mem_reverse.1 (List.mem_of_find?_eq_some hfind)

theorem Submits.breadth_le (h : Submits body v) : v.breadth ≤ body.length := by
  obtain ⟨ms, hms, hlast⟩ := h
  obtain ⟨s, hs, hle⟩ := hms.member_text (last?_mem hlast)
  exact hs.breadth_le.trans hle

/-- What is analyzed is no bigger than the body that it was sent in. -/
theorem Analyzes.breadth_le (h : Analyzes body v) : v.breadth ≤ body.length := by
  cases h with
  | value hb => exact hb.breadth_le
  | @held t hb hd =>
    have ht : (Utf8.encode t).length ≤ body.length := hb.breadth_le
    have hv : Text (Utf8.encode t) v := readDocument_eq_ok.1 (Document.decode_eq_ok.1 hd)
    exact hv.breadth_le.trans ht

/-- There is something to be said of every body. -/
theorem exists_tells (body : Bytes) : ∃ w, Tells body w := by
  rcases body_outcomes body with hb | ⟨e, hb⟩ | ⟨v, hb⟩
  · exact ⟨_, .nothing hb⟩
  · exact ⟨_, .refused hb⟩
  · exact ⟨_, .analyzed hb⟩

/-- A text as the body submits it: in its place, or in a string. -/
theorem analyzes_of_text {t : String} (hv : Text (Utf8.encode t) v) (hnot : ∀ x, v ≠ .text x)
    (hb : body = wrapped (Utf8.encode t) ∨ Submits body (.text t)) : Analyzes body v := by
  rcases hb with rfl | hb
  · exact .value (submits_wrapped hv) hnot
  · exact .held hb (Document.decode_eq_ok.2 (readDocument_eq_ok.2 hv))

end

namespace Server

variable {s : Server} {now : String} {r : Request} {body : Bytes}

theorem Takes.length_le (h : s.Takes r body) : body.length ≤ s.bodyLimit := by
  have hfits : ¬ s.bodyLimit < r.body.length := of_decide_eq_false h.fits
  rw [h.body] at hfits
  exact Nat.not_lt.1 hfits

/-- The answer to a submission says what is to be said of it. -/
theorem Takes.says (h : s.Takes r body) (hl : s.bodyLimit < twoPow 64) {w : Value} (hw : Tells body w) :
    (s.handle now r).1.Says w := by
  cases hw with
  | nothing hb =>
    rw [h.answer_nothing hb]
    exact says_failure 400 _
  | refused hb =>
    rw [h.answer_refused hb]
    exact says_failure 400 _
  | analyzed hb =>
    rw [h.answer_analyzed hb, toJson_report]
    exact says_success (faithful_described (hb.breadth_le.trans_lt (h.length_le.trans_lt hl)))

end Server

end ShapeLedger.Web
