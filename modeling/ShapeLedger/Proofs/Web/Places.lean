/-
The place that a refusal names. It is behind some of the bytes of the document, all of them if the document ends too
early, and these bytes are what is wrong: whatever follows them, the document is refused with the same words and at
the same place. So one who is shown the place finds the fault at it or in front of it.

Of two faults this is not so. A number is out of range by digits that may follow its place. And that a string is no
UTF-8 is found out where it ends and reported further in front, where it stops being UTF-8; bytes that follow the
place may still make characters of it. There the document is refused alike as long as the string is the same.
-/
import ShapeLedger.Proofs.Json.Faults
import ShapeLedger.Proofs.Web.Submission

namespace ShapeLedger

open Json

/-! ## Definitions -/

/-- The place behind the bytes `s`: lines are counted by the ends of lines in them, the column by the bytes behind
the last of these. -/
structure Json.Position.Behind (p : Position) (s : Bytes) : Prop where
  line : p.line = 1 + s.count Ascii.lineFeed
  column : ∃ above last, s = above ++ last ∧ (∀ b ∈ above.getLast?, b = Ascii.lineFeed) ∧
    Ascii.lineFeed ∉ last ∧ p.column = last.length

/-- Every document that begins with these bytes is refused with this error. -/
def Document.RefusedFrom (beginning : Bytes) (e : Json.Error) : Prop :=
  ∀ other, beginning <+: other → decode other = .error e

namespace Web

/-- The input is decoded when the body is submitted. -/
inductive Decoded (body input : Bytes) : Prop where
  | whole (same : body = input) (hb : body.all Ascii.isBlank = false)
  | held {t : String} (submits : Submits body (.text t)) (same : Utf8.encode t = input)

/-- The error that an input is refused with names the place behind its first `i` bytes. -/
structure Located (input : Bytes) (e : Json.Error) (i : Nat) : Prop where
  within : i ≤ input.length
  behind : e.position.Behind (input.take i)
  early : e.reason.isEarlyEnd = true → i = input.length
  settled : e.reason.isEarlyEnd = false → e.reason ≠ .numberOutOfRange → e.reason ≠ .invalidCodePoint →
    Document.RefusedFrom (input.take i) e
  illFormed : e.reason = .invalidCodePoint →
    ∃ j, i ≤ j ∧ j ≤ input.length ∧ EndsIllFormed (input.take j) i ∧ Document.RefusedFrom (input.take j) e
  shown : ∀ {s : Server} {now : String} {r : Request} {body : Bytes}, s.Takes r body → Decoded body input →
    (s.handle now r).1 = .badRequest ("Invalid JSON format: " ++ (e.reason.text ++ (" at line " ++
      toString e.position.line ++ " column " ++ toString e.position.column)))

end Web

/-! ## Places -/

namespace Json

section
variable {s : Bytes}

theorem Position.after_behind (s : Bytes) : (Position.after s).Behind s := by
  constructor
  · exact Nat.add_comm _ _
  · -- the last line is read from the end
    have hsplit := List.takeWhile_append_dropWhile (p := (· ≠ Ascii.lineFeed)) (l := s.reverse)
    have hlast := List.head?_dropWhile_not (· ≠ Ascii.lineFeed) s.reverse
    refine ⟨(s.reverse.dropWhile (· ≠ Ascii.lineFeed)).reverse,
      (s.reverse.takeWhile (· ≠ Ascii.lineFeed)).reverse, ?_, ?_, ?_, ?_⟩
    · rw [← List.reverse_append, hsplit, List.reverse_reverse]
    · intro b hb
      rw [List.getLast?_reverse] at hb
      rw [hb] at hlast
      simpa using hlast
    · intro hmem
      have hne := List.mem_takeWhile_imp (List.mem_reverse.1 hmem)
      simp at hne
    · rw [List.length_reverse]
      rfl

theorem Position.behind_iff {p : Position} : p.Behind s ↔ p = .after s := by
  constructor
  · rintro ⟨hline, above, last, rfl, habove, hlast, hcolumn⟩
    have hall : ∀ b ∈ last.reverse, decide (b ≠ Ascii.lineFeed) = true := by
      intro b hb
      rw [decide_eq_true_iff]
      rintro rfl
      exact hlast (List.mem_reverse.1 hb)
    have hstop : above.reverse.takeWhile (· ≠ Ascii.lineFeed) = [] := by
      cases h : above.reverse with
      | nil => rfl
      | cons b x =>
        have hb : b = Ascii.lineFeed := habove b (by rw [List.getLast?_eq_head?_reverse, h]; rfl)
        rw [hb]
        rfl
    have htake : (above ++ last).reverse.takeWhile (· ≠ Ascii.lineFeed) = last.reverse := by
      rw [List.reverse_append, List.takeWhile_append_of_pos hall, hstop, List.append_nil]
    cases p
    simp only [Position.after, Position.mk.injEq, htake, List.length_reverse]
    exact ⟨hline.trans (Nat.add_comm _ _), hcolumn⟩
  · rintro rfl
    exact Position.after_behind s

/-- Bytes behind a place make no difference to it. -/
theorem Position.ofUnread_append (p t : Bytes) (k : Nat) :
    Position.ofUnread (p ++ t) (k + t.length) = .after (p.take (p.length - k)) := by
  have hcount : (p ++ t).length - (k + t.length) = p.length - k := by
    rw [List.length_append]
    omega
  rw [Position.ofUnread, hcount, List.take_append_of_le_length (Nat.sub_le _ _)]

end

end Json

/-! ## Refusals -/

section
variable {input p t : Bytes} {f : Fault} {m : Nat}

/-- The bytes that end with a string that is no UTF-8, and the place in it. -/
theorem Json.HoldsIllFormed.exists_take {unread : Nat} (h : HoldsIllFormed input unread m) :
    ∃ j, input.length - unread ≤ j ∧ j ≤ input.length ∧ (input.drop j).length = m ∧
      EndsIllFormed (input.take j) (input.length - unread) := by
  obtain ⟨x, r, i, rfl, hr, hx, hi⟩ := h
  have hplace : (x ++ r).length - unread = i := by omega
  have hle : i ≤ x.length := by
    obtain ⟨-, -, -, -, place, -⟩ := hx
    omega
  rw [hplace]
  refine ⟨x.length, hle, ?_, ?_, ?_⟩
  · rw [List.length_append]
    omega
  · rwa [List.drop_left]
  · rwa [List.take_left]

/-- What is settled by the bytes `p` is the same error whatever follows them. -/
theorem Document.refusedFrom_of_settled (hs : Settled (readDocument none) input f m) (hp : input = p ++ t)
    (ht : t.length ≤ m) : RefusedFrom p (Error.locate input f) := by
  rintro other ⟨t', rfl⟩
  obtain ⟨k, hk, hread⟩ := hs p t t' hp ht
  refine decode_eq_error.2 ⟨_, hread, ?_⟩
  rw [Error.locate, Error.locate, hp, hk, Position.ofUnread_append, Position.ofUnread_append]

namespace Web

theorem Decoded.refused {body : Bytes} {e : Json.Error} (h : Decoded body input)
    (he : Document.decode input = .error e) : Refused body e := by
  cases h with
  | whole same hb =>
    subst same
    exact .body hb he
  | held submits same =>
    subst same
    exact .held submits he

/-- An input that is refused is refused for what is at or in front of the place that is shown. -/
theorem refused_located {e : Json.Error} (h : Document.decode input = .error e) : ∃ i, Located input e i := by
  obtain ⟨f, hf, rfl⟩ := Document.decode_eq_error.1 h
  have hplaced : Placed [] (readDocument none) input f := readDocument_placed none hf
  -- the place is where the reader has stopped; what kind of fault it is says which part is to be shown
  refine ⟨input.length - f.unread, ?within, ?behind, ?early, ?settled, ?illFormed, ?shown⟩
  case within => exact Nat.sub_le _ _
  case behind => exact Position.after_behind _
  case early =>
    intro hearly
    cases hplaced with
    | early => rfl
    | range => cases hearly
    | plain hplain =>
      replace hearly : f.reason.isEarlyEnd = true := hearly
      rw [Reason.isPlain, hearly] at hplain
      cases hplain
    | illFormed => cases hearly
  case settled =>
    intro hearly hrange hvalid
    cases hplaced with
    | early hreason => exact absurd (hearly.symm.trans hreason) (by decide)
    | range => exact absurd rfl hrange
    | plain _ inside stays =>
      refine Document.refusedFrom_of_settled stays (List.take_append_drop _ input).symm ?_
      rw [List.length_drop]
      omega
    | illFormed => exact absurd rfl hvalid
  case illFormed =>
    intro hreason
    replace hreason : f.reason = .invalidCodePoint := hreason
    cases hplaced with
    | early hearly => cases hreason; cases hearly
    | range => cases hreason
    | plain hplain =>
      rw [Reason.isPlain, hreason] at hplain
      cases hplain
    | illFormed literal stays =>
      obtain ⟨j, hij, hj, hdrop, hends⟩ := literal.exists_take
      refine ⟨j, hij, hj, hends, ?_⟩
      exact Document.refusedFrom_of_settled stays (List.take_append_drop j input).symm (Nat.le_of_eq hdrop)
  case shown =>
    intro s now r body htakes hdecoded
    exact htakes.answer_refused (hdecoded.refused h)

/-- A comma without an element behind it, in the second line. -/
theorem refused_located_comma : Document.decode (Utf8.encode "[1,\n]") = .error ⟨.trailingComma, 2, 1⟩ ∧
    ∃ i, Located (Utf8.encode "[1,\n]") ⟨.trailingComma, 2, 1⟩ i := by
  have h : Document.decode (Utf8.encode "[1,\n]") = .error ⟨.trailingComma, 2, 1⟩ := by with_unfolding_all rfl
  exact ⟨h, refused_located h⟩

/-- A string of the first byte of a character alone: the place is behind this byte, and with one more byte behind it
the string is well formed. -/
theorem illFormed_reported_early :
    Document.decode [0x22, 0xC3, 0x22] = .error ⟨.invalidCodePoint, 1, 2⟩ ∧
    Document.decode [0x22, 0xC3, 0xA9, 0x22] = .ok (.text "é") ∧
    ¬ ∃ i, i ≤ [0x22, 0xC3, 0x22].length ∧ (⟨1, 2⟩ : Position).Behind ([0x22, 0xC3, 0x22].take i) ∧
      Document.RefusedFrom ([0x22, 0xC3, 0x22].take i) ⟨.invalidCodePoint, 1, 2⟩ := by
  have hwell : Document.decode [0x22, 0xC3, 0xA9, 0x22] = .ok (.text "é") := by with_unfolding_all rfl
  refine ⟨by with_unfolding_all rfl, hwell, ?_⟩
  rintro ⟨i, hi, hbehind, hrefused⟩
  have hplaces : ∀ i ≤ 3, (⟨1, 2⟩ : Position) = .after ([0x22, 0xC3, 0x22].take i) → i = 2 := by decide
  obtain rfl := hplaces i hi (Position.behind_iff.1 hbehind)
  -- the well-formed string begins with the same two bytes
  have herror := hrefused [0x22, 0xC3, 0xA9, 0x22] ⟨[0xA9, 0x22], rfl⟩
  rw [hwell] at herror
  cases herror

end Web

end

end ShapeLedger
