/-
The command that analyzes a document, beside the route that does. Both decode the document that they
are given, but only the command has a limit on its depth. The two agree on a text, in what they
accept and in what they say of the rest, exactly when it does not go beyond that limit.
-/
import ShapeLedger.Program
import ShapeLedger.Proofs.Json.Depth
import ShapeLedger.Proofs.Text.Utf8
import ShapeLedger.Proofs.Web.Submission

namespace ShapeLedger.Program

open Files Json

/-! ## Definitions -/

/-- The text stands where the command looks for its document: in the file, or in the standard
input. -/
def Input.Offers (i : Input) (file : Option Path) (t : String) : Prop :=
  match inputFile file with
  | some p => Directory.read i.disk p = .ok (.bytes (Utf8.encode t))
  | none => i.stdin = Utf8.encode t

/-- What the route answers when the text is sent to it with this fault in it, on any server whose
limit the body keeps: as the string under `json`, or as the body itself. -/
def RouteReports (t message : String) : Prop :=
  ∀ (s : Web.Server) (now : String) (r : Web.Request), r.method = "POST" → r.path = "/api/analyze" →
    r.exceeds s.bodyLimit = false →
    Web.submitted r.body = .ok (.text t) ∨ r.body = Utf8.encode t ∧ r.body.all Ascii.isBlank = false →
    (s.handle now r).1 = .badRequest ("Invalid JSON format: " ++ message)

/-- The run prints the analysis of a text that is a document, and says of any other text what the
route says of it. -/
structure Agrees (i : Input) (t : String) : Prop where
  exit : (run i).1.exitCode = 0 ↔ ∃ v, Document.decode (Utf8.encode t) = .ok v
  accepts : ∀ v, Document.decode (Utf8.encode t) = .ok v →
    (run i).1 = .success ((Report.of v).toJson.indented ++ "\n")
  refuses : ∀ e, Document.decode (Utf8.encode t) = .error e →
    (run i).1 = .failure "Invalid JSON format" [e.message] ∧ RouteReports t e.message

/-! ## The route -/

/-- The route reports the fault of a text wherever the text is put. -/
theorem routeReports {t : String} {e : Json.Error} (h : Document.decode (Utf8.encode t) = .error e) :
    RouteReports t e.message := by
  intro s now r hm hp hl hb
  rw [s.handle_analyze now hm hp]
  unfold Web.analyze
  rw [hl]
  rcases hb with hb | ⟨hb, hblank⟩
  · simp only [hb, Document.embedded, h, Web.invalidJson, Bool.false_eq_true, if_false]
  · have hsub : Web.submitted r.body = .error (Web.invalidJson e) := by
      unfold Web.submitted
      rw [hblank, hb, h]
      rfl
    simp only [hsub, Web.invalidJson, Bool.false_eq_true, if_false]

/-! ## The command -/

theorem readInput_eq {i : Input} {file : Option Path} {t : String} (h : i.Offers file t) :
    readInput i file = .ok t := by
  unfold Input.Offers at h
  unfold readInput
  cases hf : inputFile file with
  | none =>
    rw [hf] at h
    simp only [h, Utf8.decode?_encode]
  | some p =>
    rw [hf] at h
    have ht : i.disk.readText p = .ok t := by
      simp only [Ledger.Disk.readText, h, Ledger.Contents.text?, Utf8.decode?_encode]
    show (i.disk.readText p).mapError _ = .ok t
    rw [ht]
    rfl

/-- What the command does with a text, for a run that gets as far as that. -/
theorem run_analyze {i : Input} {config file : Option Path} {settings : Settings} {t : String}
    (asked : CommandLine.parse i.words = .ok ⟨config, .analyze ⟨file, true⟩⟩)
    (loaded : loadSettings i config = .ok settings) (offered : i.Offers file t) :
    (run i).1 =
      match Json.parse (some depthLimit) (Utf8.encode t) with
      | .error e => .failure "Invalid JSON format" [e.message]
      | .ok v => .success ((Report.of v).toJson.indented ++ "\n") := by
  unfold run
  rw [asked]
  cases hp : Json.parse (some depthLimit) (Utf8.encode t) <;>
    simp only [loaded, analyze, readInput_eq offered, hp, if_true]

theorem failure_inj {message a b : String} (h : Outcome.failure message [a] = .failure message [b]) :
    a = b := by
  have hs := congrArg Outcome.stderr h
  simp only [Outcome.failure, Outcome.causeLines, List.isEmpty_cons, Bool.false_eq_true, if_false,
    String.append_assoc, String.append_right_inj] at hs
  exact (String.append_left_inj _).1 hs

/-! ## Where they agree -/

/-- A run that is asked for the raw analysis of a text agrees with the route on it exactly when the
text opens no bracket beyond the limit on depth; on such a text it fails at the first such bracket. -/
theorem agrees_iff_not_opensBeyond {i : Input} {config file : Option Path} {settings : Settings}
    {t : String} (asked : CommandLine.parse i.words = .ok ⟨config, .analyze ⟨file, true⟩⟩)
    (loaded : loadSettings i config = .ok settings) (offered : i.Offers file t) :
    (Agrees i t ↔ ¬ OpensBeyond depthLimit (Utf8.encode t)) ∧
      ∀ unread, GoesDeep depthLimit (.wanting [] (Utf8.encode t)) unread →
        (run i).1 = .failure "Invalid JSON format"
          ["recursion limit exceeded" ++ (Position.ofUnread (Utf8.encode t) unread).suffix] := by
  have hrun := run_analyze asked loaded offered
  have hdeep : ∀ unread, GoesDeep depthLimit (.wanting [] (Utf8.encode t)) unread →
      (run i).1 = .failure "Invalid JSON format"
        [(⟨.nestingTooDeep, Position.ofUnread (Utf8.encode t) unread⟩ : Json.Error).message] := by
    intro unread h
    rw [hrun, parse_deep h]
  refine ⟨⟨?_, ?_⟩, hdeep⟩
  · rintro ⟨hexit, hacc, href⟩ ⟨unread, h⟩
    have hfail := hdeep unread h
    cases hd : Document.decode (Utf8.encode t) with
    | ok v =>
      have hzero := hexit.2 ⟨v, hd⟩
      rw [hfail] at hzero
      cases hzero
    | error e =>
      -- the reader without a limit has another fault to report
      have hmsg := failure_inj (hfail.symm.trans (href e hd).1)
      exact message_deep_ne hd _ hmsg
  · intro h
    -- both read with no limit, as far as this text goes
    rw [parse_limited h] at hrun
    change (run i).1 = match Document.decode (Utf8.encode t) with
      | .error e => .failure "Invalid JSON format" [e.message]
      | .ok v => .success ((Report.of v).toJson.indented ++ "\n") at hrun
    refine ⟨?_, ?_, ?_⟩
    · rw [hrun]
      cases Document.decode (Utf8.encode t) with
      | ok v => exact iff_of_true rfl ⟨v, rfl⟩
      | error e =>
        refine iff_of_false (fun h : 1 = 0 => by cases h) ?_
        rintro ⟨v, hv⟩
        cases hv
    · intro v hd; rw [hrun, hd]
    · intro e hd; exact ⟨by rw [hrun, hd], routeReports hd⟩

/-- The run of the command on a text in its standard input, with nothing else around it. -/
def stdinRun (t : String) : Input := ⟨["analyze", "--json"], Utf8.encode t, Directory.empty, {}⟩

theorem stdinRun_offers (t : String) : (stdinRun t).Offers none t := rfl

/-- 128 arrays inside one another. -/
def nestedArrays : String := String.ofList (List.replicate 128 '[' ++ List.replicate 128 ']')

theorem encode_replicate {c : Char} {b : UInt8} (h : Utf8.encodeCodePoint c.toNat = [b]) (n : Nat) :
    (List.replicate n c).flatMap (fun c => Utf8.encodeCodePoint c.toNat) = List.replicate n b := by
  rw [List.flatMap_replicate, h, List.flatten_replicate_singleton]

theorem nestedArrays_opensBeyond : OpensBeyond depthLimit (Utf8.encode nestedArrays) := by
  have ho : Utf8.encodeCodePoint '['.toNat = [Ascii.openBracket] := by decide
  have hc : Utf8.encodeCodePoint ']'.toNat = [Ascii.closeBracket] := by decide
  unfold Utf8.encode nestedArrays
  rw [String.toList_ofList, List.flatMap_append, encode_replicate ho, encode_replicate hc]
  exact ⟨_, goesDeep_nested 127 _⟩

theorem emptyArray_not_opensBeyond : ¬ OpensBeyond depthLimit (Utf8.encode "[]") := by
  rintro ⟨unread, h⟩
  cases h with
  | here full _ => exact absurd full (by decide)
  | opening _ read later =>
    cases read
    cases later

/-- The command agrees with the route on an empty array, and not on 128 arrays inside one another. -/
theorem agrees_iff_not_opensBeyond_arrays :
    CommandLine.parse ["analyze", "--json"] = .ok ⟨none, .analyze ⟨none, true⟩⟩ ∧
      loadSettings (stdinRun "[]") none = .ok .standard ∧ (stdinRun "[]").Offers none "[]" ∧
      loadSettings (stdinRun nestedArrays) none = .ok .standard ∧
      (stdinRun nestedArrays).Offers none nestedArrays ∧
      Agrees (stdinRun "[]") "[]" ∧ ¬ Agrees (stdinRun nestedArrays) nestedArrays := by
  refine ⟨rfl, rfl, stdinRun_offers _, rfl, stdinRun_offers _, ?_, ?_⟩
  · exact (agrees_iff_not_opensBeyond rfl rfl (stdinRun_offers "[]")).1.2 emptyArray_not_opensBeyond
  · intro hagree
    exact (agrees_iff_not_opensBeyond rfl rfl (stdinRun_offers nestedArrays)).1.1 hagree
      nestedArrays_opensBeyond

end ShapeLedger.Program
