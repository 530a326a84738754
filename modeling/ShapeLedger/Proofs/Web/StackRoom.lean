/-
Which submissions are answered at all. The stack has to have room for what the reader gives up of the body, and
of the document that it holds: where it has not, the server breaks off, and there is no answer
(`Server.submission_answered`). A body that is not deep is always answered; one that is deep may be answered
too, unless it has a fault behind a deep value, as one more character at its end is.
-/
import ShapeLedger.Proofs.Json.Discards
import ShapeLedger.Proofs.Web.Submission

namespace ShapeLedger.Web

open Json Json.Grammar

/-! ## Definitions -/

/-- What is decoded for the analysis of a body: the body itself, and the document that it holds. -/
inductive Decodes (body : Bytes) : Bytes → Prop where
  | body (hb : body.all Ascii.isBlank = false) : Decodes body body
  | held {t : String} (hb : Submits body (.text t)) : Decodes body (Utf8.encode t)

/-- A value with more levels than the stack has room for has to be freed. -/
def Overflows (room : Nat → Nat) (body : Bytes) : Prop :=
  ∃ t n v, Decodes body t ∧ GivesUp t n v ∧ v.HasLevels (room n + 1)

/-! ## Texts -/

section
variable {body t : Bytes} {room : Nat → Nat}

theorem submitted_eq_ok {v : Value} : submitted body = .ok v ↔ Submits body v := by
  refine ⟨fun h => ?_, Submits.submitted⟩
  rcases body_cases body with hb | ⟨e, hb, he⟩ | ⟨w, hw⟩
  · rw [hb.submitted] at h
    cases h
  · rw [submitted_error hb he] at h
    cases h
  · rw [hw.submitted] at h
    cases h
    exact hw

theorem mem_decodedTexts : t ∈ decodedTexts body ↔ Decodes body t := by
  constructor
  · intro h
    unfold decodedTexts at h
    split at h
    · cases h
    · next hb =>
      rcases List.mem_cons.1 h with rfl | h
      · exact .body (Bool.eq_false_iff.2 hb)
      · split at h
        · next s hs =>
          rw [List.mem_singleton.1 h]
          exact .held (submitted_eq_ok.1 hs)
        · cases h
  · intro h
    -- a body that submits something is an object, so there is more in it than blanks
    have hbody : body.all Ascii.isBlank = false := by
      cases h with
      | body hb => exact hb
      | held hb =>
        obtain ⟨ms, hms, -⟩ := hb
        exact record_not_blank hms
    rw [decodedTexts, if_neg (Bool.eq_false_iff.1 hbody)]
    cases h with
    | body => exact List.mem_cons_self
    | held hb =>
      rw [hb.submitted]
      exact List.mem_cons_of_mem _ (List.mem_singleton.2 rfl)

theorem all_frees_iff : (decodedTexts body).all (frees room) = true ↔ ¬ Overflows room body := by
  simp only [List.all_eq_true, mem_decodedTexts, frees_iff]
  constructor
  · rintro h ⟨t, n, v, ht, hv, hlevels⟩
    exact h t ht n v hv hlevels
  · exact fun h t ht n v hv hlevels => h ⟨t, n, v, ht, hv, hlevels⟩

/-- Texts that are not deep do not overflow. -/
theorem not_overflows_of_shallow {n : Nat} (hroom : ∀ k, n ≤ k + room k)
    (h : ∀ t, Decodes body t → ¬ OpensBeyond n t) : ¬ Overflows room body := by
  rw [← all_frees_iff, List.all_eq_true]
  exact fun t ht => frees_of_shallow (h t (mem_decodedTexts.1 ht)) hroom

end

/-! ## Answers -/

namespace Server

section
variable {s : Server} {now : String} {r : Request} {body : Bytes}

theorem Takes.respond (h : s.Takes r body) (room : Nat → Nat) :
    s.respond room now r = if (decodedTexts body).all (frees room) then some (s.handle now r) else none := by
  have hroute : Route.ofPath? r.path = some .analyze := by
    rw [h.path]
    decide
  have hanalyzes : s.analyzes r = true := by
    rw [analyzes, hroute, h.method, h.fits]
    decide
  rw [Server.respond, hanalyzes, h.body]
  cases (decodedTexts body).all (frees room) <;> rfl

/-- A submission leaves the server as it is. -/
theorem Takes.unchanged (h : s.Takes r body) : (s.handle now r).2 = s := by
  have hroute : Route.ofPath? r.path = some .analyze := by
    rw [h.path]
    decide
  unfold Server.handle
  simp only [hroute, h.method]
  rfl

/-- A submission is answered unless the stack is too small for it, in exactly one of the three ways; and it is
answered where it is not deep. -/
theorem submission_answered (h : s.Takes r body) (room : Nat → Nat) :
    (s.respond room now r = none ↔ Overflows room body) ∧
    (∀ answer, s.respond room now r = some answer → Answered body answer.1 ∧ answer.2 = s) ∧
    ∀ n, (∀ k, n ≤ k + room k) → (∀ t, Decodes body t → ¬ OpensBeyond n t) → s.respond room now r ≠ none := by
  -- nothing but an overflow keeps the answer back
  have hnone : s.respond room now r = none ↔ Overflows room body := by
    rw [h.respond room, ← not_iff_not, ← all_frees_iff]
    split <;> simp_all
  refine ⟨hnone, fun answer ha => ?_, fun n hroom hshallow hno => ?_⟩
  · rw [h.respond room] at ha
    split at ha <;> cases ha
    exact ⟨h.answered, h.unchanged⟩
  · exact not_overflows_of_shallow hroom hshallow (hnone.1 hno)

end

/-- A body that holds a document in a string. -/
def holding : Bytes := Utf8.encode "\x7b\"json\": \"[1]\"\x7d"

theorem submission_answered_held : (Server.fresh 64).Takes (submission holding) holding ∧
    ∃ answer, (Server.fresh 64).respond (fun _ => 2) "" (submission holding) = some answer ∧
      Answered holding answer.1 ∧ answer.2 = Server.fresh 64 := by
  have h : (Server.fresh 64).Takes (submission holding) holding := takes_submission (by decide)
  obtain ⟨answer, ha⟩ : ∃ answer, (Server.fresh 64).respond (fun _ => 2) "" (submission holding) = some answer :=
    Option.isSome_iff_exists.1 (by decide +kernel)
  exact ⟨h, answer, ha, (submission_answered h _).2.1 answer ha⟩

/-! ## A deep value before something else -/

/-- `n + 1` arrays inside one another, and a letter behind them. -/
def leftover (n : Nat) : Bytes :=
  List.replicate (n + 1) Ascii.openBracket ++ List.replicate (n + 1) Ascii.closeBracket ++ [0x78]

section
variable {n : Nat} {room : Nat → Nat}

theorem leftover_not_blank (n : Nat) : (leftover n).all Ascii.isBlank = false := by
  rw [List.all_eq_false]
  exact ⟨Ascii.openBracket, by simp [leftover], by decide⟩

theorem length_leftover (n : Nat) : (leftover n).length = 2 * n + 3 := by
  simp only [leftover, List.length_append, List.length_replicate, List.length_singleton]
  omega

theorem run_leftover (n : Nat) : run none (.wanting [] (leftover n)) = .ok (nest n, [0x78]) :=
  run_nest n (stops_cons (by decide) (by decide) (by decide))

/-- The letter is a fault like any other. -/
theorem refused_leftover (n : Nat) : ∃ e, Refused (leftover n) e ∧ e.reason = .trailingCharacters := by
  have hread : readDocument none (leftover n) = .error ⟨.trailingCharacters, 0⟩ := by
    rw [readDocument, run_leftover]
    rfl
  exact ⟨_, .body (leftover_not_blank n) (Document.decode_eq_error.2 ⟨_, hread, rfl⟩), rfl⟩

/-- For its sake all the arrays before it have to be freed. -/
theorem leftover_overflows (h : room 0 < n) : Overflows room (leftover n) :=
  ⟨_, 0, nest n, .body (leftover_not_blank n), givesUp_leftover (run_leftover n) rfl, (nest_hasLevels n).mono h⟩

/-- A server that takes such a body has to refuse it, and does not answer it where too few levels fit on the
stack. -/
theorem respond_leftover {s : Server} (hfits : 2 * n + 3 ≤ s.bodyLimit) (hroom : room 0 < n) (now : String) :
    s.Takes (submission (leftover n)) (leftover n) ∧
    (∃ e, Refused (leftover n) e ∧ e.reason = .trailingCharacters) ∧
    s.respond room now (submission (leftover n)) = none := by
  have htakes : s.Takes (submission (leftover n)) (leftover n) :=
    takes_submission ((length_leftover n).trans_le hfits)
  refine ⟨htakes, refused_leftover n, ?_⟩
  rw [htakes.respond]
  exact if_neg fun hall => all_frees_iff.1 hall (leftover_overflows hroom)

end

/-- A body of a million bytes, where a hundred thousand levels fit on the stack. -/
theorem leftover_unanswered :
    (Server.fresh defaultBodyLimit).Takes (submission (leftover 499999)) (leftover 499999) ∧
    (∃ e, Refused (leftover 499999) e ∧ e.reason = .trailingCharacters) ∧
    (Server.fresh defaultBodyLimit).respond (fun _ => 100000) "" (submission (leftover 499999)) = none :=
  respond_leftover (by decide) (by decide) ""

end Server

end ShapeLedger.Web
