/-
Everything that is written as JSON reads back as what was meant: the answers of the server, with whatever
words and keys in them, and what the command prints. The two have printers of their own, one for a single
line and one for many, and agree on every text that both take.
-/
import ShapeLedger.Proofs.Program.Analyze
import ShapeLedger.Proofs.Web.Envelope

namespace ShapeLedger.Program

open Json Json.Grammar Web

/-! ## Definitions -/

/-- The run succeeds and prints a JSON text, and what is decoded from it is this value. -/
structure Outcome.Prints (o : Outcome) (v : Value) : Prop where
  exit : o.exitCode = 0
  silent : o.stderr = ""
  decoded : Document.decode (Utf8.encode o.stdout) = .ok v

/-- What a server, where it answers at all, and a run of the command on the text `t` write, read back. -/
structure ReadsBack (s : Server) (i : Input) (t : String) : Prop where
  failed : ∀ status message, (Response.failure status message).Says (Web.failed message)
  /-- An analysis that breaks off is told with its own words. -/
  broken : ∀ words, (Response.analysisFailure words).Says
    (Web.failed ("Error analyzing JSON: " ++ words.getD "unknown panic"))
  /-- Ids have 64 bits. -/
  created : ∀ subject id, -(twoPow 63 : Int) ≤ id → id < twoPow 63 →
    (Web.created (createdMessage subject) id).Says
      (.object [("message", .text (createdMessage subject)), ("id", .number (.integer id))])
  links : Web.links.Says (.object [
    ("npm_package", .text "https://www.npmjs.com/settings/zhanghongping/packages"),
    ("github_repo", .text "https://github.com/hongping1963-source/json-sage-workflow")])
  answered : ∀ now r body, s.Takes r body →
    (∃ w, (s.handle now r).1.Says w) ∧ ∀ w, (s.handle now r).1.Says w ↔ Tells body w
  printed : ∀ v, parse (some depthLimit) (Utf8.encode t) = .ok v → (run i).1.Prints (described v)
  /-- Sent as it is or inside a string, a text has the result that the command prints. -/
  alike : ∀ v, parse (some depthLimit) (Utf8.encode t) = .ok v → (∀ x, v ≠ .text x) →
    ∀ now r body, s.Takes r body → (body = wrapped (Utf8.encode t) ∨ Submits body (.text t)) →
    (s.handle now r).1.Says (completed (described v)) ∧ (run i).1.Prints (described v)

/-! ## The command -/

/-- What is accepted within the limit on depth is accepted without it. -/
theorem decode_of_parse {limit : Nat} {b : Bytes} {v : Value} (h : parse (some limit) b = .ok v) :
    Document.decode b = .ok v := by
  by_cases hdeep : OpensBeyond limit b
  · obtain ⟨unread, hd⟩ := hdeep
    rw [parse_deep hd] at h
    cases h
  · rwa [parse_limited hdeep] at h

theorem prints_described {v : Value} (h : v.breadth < twoPow 64) :
    (Outcome.success ((described v).indented ++ "\n")).Prints (described v) :=
  ⟨rfl, rfl, (faithful_described h).decode_indented⟩

/-- The run on a text that is accepted prints what is to be said of its value. -/
theorem run_prints {i : Input} {config file : Option Path} {settings : Settings} {t : String} {v : Value}
    (asked : CommandLine.parse i.words = .ok ⟨config, .analyze ⟨file, true⟩⟩)
    (loaded : loadSettings i config = .ok settings) (offered : i.Offers file t)
    (fits : (Utf8.encode t).length < twoPow 64)
    (accepted : parse (some depthLimit) (Utf8.encode t) = .ok v) :
    (run i).1.Prints (described v) := by
  have htext : Text (Utf8.encode t) v := readDocument_eq_ok.1 (Document.decode_eq_ok.1 (decode_of_parse accepted))
  rw [run_analyze asked loaded offered, accepted]
  simp only [toJson_report]
  exact prints_described (htext.breadth_le.trans_lt fits)

/-! ## Both -/

/-- A server whose bodies, and a run whose text, have lengths of 64 bits write nothing that is not read
back as it was meant. -/
theorem written_readsBack {s : Server} (limited : s.bodyLimit < twoPow 64) {i : Input}
    {config file : Option Path} {settings : Settings} {t : String}
    (asked : CommandLine.parse i.words = .ok ⟨config, .analyze ⟨file, true⟩⟩)
    (loaded : loadSettings i config = .ok settings) (offered : i.Offers file t)
    (fits : (Utf8.encode t).length < twoPow 64) : ReadsBack s i t := by
  have hprinted (v : Value) (accepted : parse (some depthLimit) (Utf8.encode t) = .ok v) :
      (run i).1.Prints (described v) := run_prints asked loaded offered fits accepted
  constructor
  case failed => exact says_failure
  case broken => exact fun words => says_failure 500 _
  case created =>
    intro subject id low high
    have hwider : (twoPow 63 : Int) < twoPow 64 := by decide
    exact says_created _ low (high.trans hwider)
  case links =>
    refine says_json 200 (.object (by simp) ?_)
    rw [List.forall_mem_cons, List.forall_mem_singleton]
    exact ⟨.text _, .text _⟩
  case answered =>
    intro now r body h
    obtain ⟨w, hw⟩ := exists_tells body
    have hsays : (s.handle now r).1.Says w := h.says limited hw
    refine ⟨⟨w, hsays⟩, fun x => ⟨fun hx => ?_, h.says limited⟩⟩
    rwa [hx.unique hsays]
  case printed => exact hprinted
  case alike =>
    intro v accepted hnot now r body h hb
    have htext : Text (Utf8.encode t) v := readDocument_eq_ok.1 (Document.decode_eq_ok.1 (decode_of_parse accepted))
    have hv : Analyzes body v := analyzes_of_text htext hnot hb
    refine ⟨?_, hprinted v accepted⟩
    exact h.says limited (.analyzed hv)

/-- A document whose key has a quote, a backslash, a control character and letters beyond ASCII in it. -/
def oddKey : String := "\x7b\"\\\"\\\\\\u0007\u00e9\u6f22\": [1, true]\x7d"

theorem written_readsBack_oddKey :
    (Server.fresh Server.defaultBodyLimit).bodyLimit < twoPow 64 ∧
      CommandLine.parse (stdinRun oddKey).words = .ok ⟨none, .analyze ⟨none, true⟩⟩ ∧
      loadSettings (stdinRun oddKey) none = .ok .standard ∧ (stdinRun oddKey).Offers none oddKey ∧
      (Utf8.encode oddKey).length < twoPow 64 ∧
      ReadsBack (Server.fresh Server.defaultBodyLimit) (stdinRun oddKey) oddKey :=
  have limited : (Server.fresh Server.defaultBodyLimit).bodyLimit < twoPow 64 := by decide
  have fits : (Utf8.encode oddKey).length < twoPow 64 := by decide
  ⟨limited, rfl, rfl, stdinRun_offers _, fits,
    written_readsBack limited rfl rfl (stdinRun_offers oddKey) fits⟩

end ShapeLedger.Program
