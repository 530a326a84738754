/-
What is said of an object whose text repeats keys. The rule has two halves: a key stands where it first occurs,
and has the value of its last occurrence. Whether a key is reported as nested is decided by the second half and
where it is listed by the first, so a later member can change what is said of a key, and never its place. The
value that a body submits is found by the same rule.
-/
import ShapeLedger.Proofs.Web.Submission
import Mathlib.Data.Finset.Card
import Mathlib.Data.Finset.Dedup

namespace ShapeLedger

open Json Json.Grammar Web

/-! ## Definitions -/

/-- Some member has this key. -/
def Occurs (ms : Members) (key : String) : Prop := ∃ v, (key, v) ∈ ms

/-- The last member with this key has this value. -/
def EndsIn (ms : Members) (key : String) (v : Value) : Prop :=
  ∃ earlier later, ms = earlier ++ (key, v) :: later ∧ ¬ Occurs later key

/-- The last member with this key holds an object or an array. -/
def EndsNested (ms : Members) (key : String) : Prop :=
  (∃ inner, EndsIn ms key (.object inner)) ∨ ∃ elements, EndsIn ms key (.array elements)

/-- The keys that have a property, each once, in the order in which they first occur among the members. -/
structure Lists (ms : Members) (P : String → Prop) (keys : List String) : Prop where
  each : ∀ key, key ∈ keys ↔ P key
  order : keys.Pairwise (fun a b => (ms.map (·.1)).idxOf a < (ms.map (·.1)).idxOf b)

/-- What is reported of a value that is written with these members. -/
structure Report.Describes (ms : Members) (keys nested : List String) (r : Report) : Prop where
  distinct : Lists ms (Occurs ms) keys
  containers : Lists ms (EndsNested ms) nested
  serialized : r.toJson = .object [("value_type", .text "object"),
    ("structure", .object [("property_count", .number (.integer (ms.map (·.1)).toFinset.card)),
      ("keys", .array (keys.map .text))]),
    ("insights", .array ((r.insights.map Insight.text).map .text))]
  isEmpty : r.insights.map Insight.text = ["Empty object detected"] ↔ ms = []
  isNested : r.insights.map Insight.text = ["Nested structures found in: " ++ ", ".intercalate nested] ↔
    ∃ key, EndsNested ms key
  isPlain : r.insights = [] ↔ ms ≠ [] ∧ ∀ key, ¬ EndsNested ms key

/-- What a request with these members in its body is answered: the last member `json` is looked at, and a
string there is decoded. -/
structure Web.Looks (ms : Members) (a : Response) : Prop where
  absent : ¬ Occurs ms "json" → a = .badRequest "No JSON data provided"
  value : ∀ v, EndsIn ms "json" v → (∀ t, v ≠ .text t) →
    a = .success "JSON analysis completed" (Report.of v).toJson
  held : ∀ t v, EndsIn ms "json" (.text t) → Document.decode (Utf8.encode t) = .ok v →
    a = .success "JSON analysis completed" (Report.of v).toJson
  malformed : ∀ t e, EndsIn ms "json" (.text t) → Document.decode (Utf8.encode t) = .error e →
    a = .badRequest ("Invalid JSON format: " ++ e.message)

/-! ## Members -/

section
variable {ms : Members} {key : String} {v : Value}

theorem occurs_iff : Occurs ms key ↔ key ∈ ms.map (·.1) := by simp [Occurs]

theorem last?_eq_none : last? key ms = none ↔ ¬ Occurs ms key := by
  rw [occurs_iff, ← last?_isSome_iff, Option.not_isSome_iff_eq_none]

/-- The last value of a key, found by taking the members from their end. -/
theorem last?_eq_some : last? key ms = some v ↔ EndsIn ms key v := by
  unfold EndsIn
  induction ms using List.reverseRecOn with
  | nil => simp [last?, Members.get?]
  | append_singleton ms m ih =>
    obtain ⟨k, w⟩ := m
    rw [last?_append]
    by_cases hk : k = key
    · subst hk
      rw [if_pos rfl, Option.some.injEq]
      constructor
      · rintro rfl
        exact ⟨ms, [], rfl, by simp [Occurs]⟩
      · rintro ⟨earlier, later, he, hno⟩
        rcases List.eq_nil_or_concat later with rfl | ⟨rest, m, rfl⟩
        · rw [List.append_singleton_inj] at he
          exact congrArg Prod.snd he.2
        · -- a later member would have the key
          rw [List.concat_eq_append, ← List.cons_append, ← List.append_assoc, List.append_singleton_inj] at he
          exact absurd ⟨w, by simp [← he.2]⟩ hno
    · rw [if_neg hk, ih]
      constructor
      · rintro ⟨earlier, later, rfl, hno⟩
        refine ⟨earlier, later ++ [(k, w)], by simp, ?_⟩
        rintro ⟨u, hu⟩
        rcases List.mem_append.1 hu with hu | hu
        · exact hno ⟨u, hu⟩
        · rw [List.mem_singleton, Prod.mk.injEq] at hu
          exact hk hu.1.symm
      -- the last member has another key, so the one that counts is among those before it
      · rintro ⟨earlier, later, he, hno⟩
        rcases List.eq_nil_or_concat later with rfl | ⟨rest, m, rfl⟩
        · rw [List.append_singleton_inj, Prod.mk.injEq] at he
          exact absurd he.2.1 hk
        · rw [List.concat_eq_append, ← List.cons_append, ← List.append_assoc, List.append_singleton_inj] at he
          refine ⟨earlier, rest, he.1, ?_⟩
          rintro ⟨u, hu⟩
          refine hno ⟨u, ?_⟩
          rw [List.concat_eq_append]
          exact List.mem_append_left _ hu

theorem mem_merged : (key, v) ∈ merged ms ↔ EndsIn ms key v := by
  rw [← last?_eq_some]
  unfold merged
  rw [List.mem_filterMap]
  constructor
  · rintro ⟨k, -, hk⟩
    obtain ⟨w, hw, he⟩ := Option.map_eq_some_iff.1 hk
    cases he
    exact hw
  · intro h
    refine ⟨key, List.mem_eraseDups.2 (last?_isSome_iff.1 (by rw [h]; rfl)), by rw [h]; rfl⟩

/-- Keys that are listed once each stand in the order of their first occurrences. -/
theorem eraseDups_order (keys : List String) :
    keys.eraseDups.Pairwise (fun a b => keys.idxOf a < keys.idxOf b) := by
  induction keys using List.reverseRecOn with
  | nil => exact List.Pairwise.nil
  | append_singleton keys key ih =>
    have hold : keys.eraseDups.Pairwise (fun a b => (keys ++ [key]).idxOf a < (keys ++ [key]).idxOf b) := by
      refine ih.imp_of_mem fun ha hb h => ?_
      rwa [List.idxOf_append_of_mem (List.mem_eraseDups.1 ha), List.idxOf_append_of_mem (List.mem_eraseDups.1 hb)]
    rw [List.eraseDups_append]
    by_cases hk : key ∈ keys
    · have hnew : [key].removeAll keys = [] := by simp [List.removeAll, hk]
      rwa [hnew, List.eraseDups_nil, List.append_nil]
    · have hnew : [key].removeAll keys = [key] := by simp [List.removeAll, hk]
      rw [hnew, show [key].eraseDups = [key] from rfl, List.pairwise_append]
      refine ⟨hold, List.pairwise_singleton _ _, fun a ha b hb => ?_⟩
      rw [List.mem_singleton.1 hb, List.idxOf_append_of_mem (List.mem_eraseDups.1 ha),
        List.idxOf_append_of_notMem hk]
      have := List.idxOf_lt_length_of_mem (List.mem_eraseDups.1 ha)
      omega

theorem lists_keys (ms : Members) : Lists ms (Occurs ms) ((merged ms).map (·.1)) := by
  rw [map_fst_merged]
  refine ⟨fun key => ?_, eraseDups_order _⟩
  rw [List.mem_eraseDups, occurs_iff]

theorem length_merged (ms : Members) : (merged ms).length = (ms.map (·.1)).toFinset.card := by
  rw [← List.length_map (·.1), map_fst_merged, ← List.toFinset_card_of_nodup (nodup_eraseDups _)]
  congr 1
  ext key
  simp

theorem isContainer_iff : (Kind.of v).isContainer = true ↔
    (∃ inner, v = .object inner) ∨ ∃ elements, v = .array elements := by
  cases v <;> simp [Kind.of, Kind.isContainer]

theorem lists_nested (ms : Members) : Lists ms (EndsNested ms) (nestedKeys (merged ms)) := by
  refine ⟨fun key => ?_, ?_⟩
  · unfold nestedKeys EndsNested
    simp only [List.mem_map, List.mem_filter, isContainer_iff, ← mem_merged]
    constructor
    · rintro ⟨⟨k, v⟩, ⟨hm, ⟨inner, rfl⟩ | ⟨elements, rfl⟩⟩, rfl⟩
      · exact .inl ⟨inner, hm⟩
      · exact .inr ⟨elements, hm⟩
    · rintro (⟨inner, hm⟩ | ⟨elements, hm⟩)
      · exact ⟨_, ⟨hm, .inl ⟨inner, rfl⟩⟩, rfl⟩
      · exact ⟨_, ⟨hm, .inr ⟨elements, rfl⟩⟩, rfl⟩
  · exact (lists_keys ms).order.sublist (List.filter_sublist.map _)

/-! ## Reports -/

/-- The remark on an object, from its keys alone. -/
theorem insight_merged (ms : Members) : (Insight.of (.object (merged ms))).map Insight.text =
    if ms = [] then ["Empty object detected"]
    else if nestedKeys (merged ms) = [] then []
    else ["Nested structures found in: " ++ ", ".intercalate (nestedKeys (merged ms))] := by
  have hempty : merged ms = [] ↔ ms = [] := by
    rw [← List.length_eq_zero_iff, length_merged, Finset.card_eq_zero, List.toFinset_eq_empty_iff,
      List.map_eq_nil_iff]
  by_cases hms : ms = []
  · rw [if_pos hms, hempty.2 hms]
    rfl
  · rw [if_neg hms]
    cases hm : merged ms with
    | nil => exact absurd (hempty.1 hm) hms
    | cons m rest =>
      simp only [Insight.of]
      split
      · next hn => rw [if_pos hn]; rfl
      · next hn => rw [if_neg hn]; rfl

end

theorem nestedText_ne (keys : String) : "Nested structures found in: " ++ keys ≠ "Empty object detected" := by
  intro h
  have hhead := congrArg String.toList h
  rw [String.toList_append] at hhead
  exact absurd (List.cons.inj hhead).1 (by decide)

theorem describes_merged (ms : Members) : Report.Describes ms ((merged ms).map (·.1)) (nestedKeys (merged ms))
    (Report.of (.object (merged ms))) := by
  have hnested := lists_nested ms
  have hnone : nestedKeys (merged ms) = [] ↔ ∀ key, ¬ EndsNested ms key := by
    simp only [List.eq_nil_iff_forall_not_mem, hnested.each]
  have hremarks := insight_merged ms
  have hnoMembers (h : ms = []) : nestedKeys (merged ms) = [] := by rw [h]; rfl
  -- three remarks exclude one another: no members, containers among the values, or neither
  refine ⟨lists_keys ms, hnested, ?serialized, ?isEmpty, ?isNested, ?isPlain⟩
  case serialized =>
    rw [← length_merged, ← List.length_map (·.1)]
    simp only [Report.of, Report.toJson, Shape.of, Shape.toJson, Kind.of, Kind.label, List.map_map]
    rfl
  case isEmpty =>
    show (Insight.of _).map _ = _ ↔ _
    rw [hremarks]
    split
    · next h => simp [h]
    · next h =>
      split
      · simp [h]
      · simp [h, nestedText_ne]
  case isNested =>
    show (Insight.of _).map _ = _ ↔ _
    rw [hremarks, ← not_iff_not (b := ∃ key, EndsNested ms key), not_exists, ← hnone]
    split
    · next h => simp [hnoMembers h]
    · split
      · next h => simp [h]
      · next h => simp [h]
  case isPlain =>
    show Insight.of _ = [] ↔ _
    rw [← List.map_eq_nil_iff (f := Insight.text), hremarks, ← hnone]
    split
    · next h => simp [h]
    · next h =>
      split
      · next hn => simp [h, hn]
      · next hn => simp [hn]

/-! ## Submissions -/

theorem looks_of_takes {s : Web.Server} {now : String} {r : Request} {body : Bytes} {ms : Members}
    (hr : s.Takes r body) (h : RecordText body ms) : Web.Looks ms (s.handle now r).1 where
  absent hno := hr.answer_nothing (.otherMembers h (last?_eq_none.2 hno))
  value _ hv hnot := hr.answer_analyzed (.value ⟨ms, h, last?_eq_some.2 hv⟩ hnot)
  held _ _ ht hv := hr.answer_analyzed (.held ⟨ms, h, last?_eq_some.2 ht⟩ hv)
  malformed _ _ ht he := hr.answer_refused (.held ⟨ms, h, last?_eq_some.2 ht⟩ he)

/-- Any text that is an object: the keys are reported where they first occur, by what they hold last, and the
value that it submits is the one that its key holds last. -/
theorem Report.repetitions_resolved {text : Bytes} {ms : Members} (h : RecordText text ms) :
    (∃ v keys nested, Document.decode text = .ok v ∧ Describes ms keys nested (Report.of v)) ∧
      ∀ (s : Web.Server) (now : String) (r : Request), s.Takes r text → Web.Looks ms (s.handle now r).1 :=
  ⟨⟨_, _, _, decode_record h, describes_merged ms⟩, fun _ _ _ hr => looks_of_takes hr h⟩

/-- The second `b`, with its letter escaped, puts an array in the place of the first one's null. -/
theorem Report.repetitions_resolved_escaped :
    RecordText (Utf8.encode "\x7b\"b\":null,\"a\":\x7b\x7d,\"\\u0062\":[]\x7d")
        [("b", .null), ("a", .object []), ("b", .array [])] ∧
      ∃ v keys nested, Document.decode (Utf8.encode "\x7b\"b\":null,\"a\":\x7b\x7d,\"\\u0062\":[]\x7d") = .ok v ∧
        Describes [("b", .null), ("a", .object []), ("b", .array [])] keys nested (Report.of v) := by
  have hb : Quoted (Utf8.encode "\"b\"") "b" := quoted_denotes "b"
  have ha : Quoted (Utf8.encode "\"a\"") "a" := quoted_denotes "a"
  have hescaped : Quoted (Utf8.encode "\"\\u0062\"") "b" :=
    quoted_iff.2 (by decide +kernel : readString (Utf8.encode "\\u0062\"") = .ok ("b", []))
  have hnull := Denotes.element blank_nil .null blank_nil
  have hobject := Denotes.element blank_nil (.object (.emptyRecord blank_nil)) blank_nil
  have harray := Denotes.element blank_nil (.emptyArray blank_nil) blank_nil
  have hmembers := Denotes.nextMember (.member blank_nil hb blank_nil hnull)
    (.nextMember (.member blank_nil ha blank_nil hobject)
      (.lastMember (.member blank_nil hescaped blank_nil harray)))
  have h : RecordText (Utf8.encode "\x7b\"b\":null,\"a\":\x7b\x7d,\"\\u0062\":[]\x7d")
      [("b", .null), ("a", .object []), ("b", .array [])] :=
    ⟨[], _, [], by decide +kernel, blank_nil, .record hmembers, blank_nil⟩
  exact ⟨h, (Report.repetitions_resolved h).1⟩

end ShapeLedger
