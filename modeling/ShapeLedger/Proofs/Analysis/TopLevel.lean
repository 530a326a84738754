/-
What a report says is decided at the top level of a value. Of an object only the keys count, and which of them
hold containers; of an array its length, the kinds among the first five elements, and whether all elements are
objects. So a part further down may be exchanged for any other of its kind, and the elements that are sampled may
change places.
-/
import ShapeLedger.Analysis.Release
import ShapeLedger.Analysis.Report
import ShapeLedger.Json.Printer
import Mathlib.Data.List.Forall2

namespace ShapeLedger

open Json

/-! ## Definitions -/

/-- All values are objects. -/
def AllObjects (vs : List Value) : Prop := ∀ v ∈ vs, Kind.of v = .object

/-- Some value of the list is of this kind. -/
def HasKind (vs : List Value) (k : Kind) : Prop := ∃ v ∈ vs, Kind.of v = k

/-- Two members with one key, and with a container under it both or neither. -/
structure AlikeMembers (m n : String × Value) : Prop where
  key : m.1 = n.1
  container : (Kind.of m.2).isContainer = (Kind.of n.2).isContainer

/-- Two values of one kind that cannot be told apart from the top. -/
inductive Alike : Value → Value → Prop where
  | object {ms ns : Members} (members : List.Forall₂ AlikeMembers ms ns) : Alike (.object ms) (.object ns)
  | array {vs ws : List Value} (length : vs.length = ws.length)
      (sample : ∀ k, HasKind (vs.take 5) k ↔ HasKind (ws.take 5) k)
      (uniform : AllObjects vs ↔ AllObjects ws) : Alike (.array vs) (.array ws)
  | scalar {v w : Value} (kind : Kind.of v = Kind.of w) (plain : (Kind.of v).isContainer = false) :
      Alike v w

/-- The same is reported of two values, in the same text. -/
structure Report.Same (v w : Value) : Prop where
  report : Report.of v = Report.of w
  compact : (Report.of v).toJson.compact = (Report.of w).toJson.compact
  indented : (Report.of v).toJson.indented = (Report.of w).toJson.indented

namespace Json.Value

/-- The part of a value at a place, which is given by the numbers of the children on the way to it. -/
def part? : List Nat → Value → Option Value
  | [], v => some v
  | i :: place, v => v.children[i]?.bind (part? place)

/-- The value with a new part at a place. -/
def withPart (new : Value) : List Nat → Value → Value
  | [], _ => new
  | i :: place, array vs => array (vs.modify i (withPart new place))
  | i :: place, object ms => object (ms.modify i (fun m => (m.1, withPart new place m.2)))
  | _ :: _, v => v

end Json.Value

/-- The names of the kinds that are sampled, as they are written: each once, in the order of the list. -/
structure Report.Samples (vs : List Value) (names : List String) : Prop where
  written : ∃ insights, (Report.of (.array vs)).toJson = .object [("value_type", .text "array"),
    ("structure", .object [("length", .number (.integer vs.length)),
      ("sample_types", .array (names.map Value.text))]), ("insights", insights)]
  increasing : names.Pairwise (fun a b =>
    ["object", "array", "string", "number", "boolean", "null"].idxOf a <
      ["object", "array", "string", "number", "boolean", "null"].idxOf b)
  exact : ∀ t, t ∈ names ↔ ∃ i, ∃ h : i < vs.length, i < 5 ∧ (Kind.of vs[i]).label = t

/-- Nothing below the top level of a value has a part in what is reported of it. -/
structure Report.Shallow (v : Value) : Prop where
  alike : ∀ w, Alike v w → Same v w
  /-- Where the keys of an object are distinct, they may be compared key by key. -/
  keys : ∀ ms ns : Members, v = .object ms → (ms.map (·.1)).Nodup → ms.map (·.1) = ns.map (·.1) →
    (∀ key a b, (key, a) ∈ ms → (key, b) ∈ ns → (Kind.of a).isContainer = (Kind.of b).isContainer) →
    Same v (.object ns)
  part : ∀ i place old new, v.part? (i :: place) = some old → Kind.of new = Kind.of old →
    Same v (.withPart new (i :: place) v)
  permuted : ∀ vs first, v = .array vs → first.Perm (vs.take 5) → Same v (.array (first ++ vs.drop 5))
  later : ∀ first rest rest', v = .array (first ++ rest) → first.length = 5 → rest'.length = rest.length →
    (AllObjects (first ++ rest) ↔ AllObjects (first ++ rest')) → Same v (.array (first ++ rest'))
  samples : ∀ vs, v = .array vs → ∃ names, Samples vs names

/-! ## Alike values -/

section
variable {v w : Value} {vs ws : List Value} {ms ns : Members}

theorem Kind.present_congr {kinds kinds' : List Kind} (h : ∀ k, k ∈ kinds ↔ k ∈ kinds') :
    Kind.present kinds = Kind.present kinds' := by
  refine List.filter_congr fun k _ => ?_
  rw [decide_eq_decide]
  exact h k

theorem all_object_iff : vs.all (fun v => Kind.of v = .object) = true ↔ AllObjects vs := by
  simp [AllObjects]

theorem keys_of_alikeMembers (h : List.Forall₂ AlikeMembers ms ns) : ms.map (·.1) = ns.map (·.1) := by
  induction h with
  | nil => rfl
  | cons hm _ ih => rw [List.map_cons, List.map_cons, hm.key, ih]

theorem nestedKeys_cons (m : String × Value) (ms : Members) :
    nestedKeys (m :: ms) = if (Kind.of m.2).isContainer then m.1 :: nestedKeys ms else nestedKeys ms := by
  unfold nestedKeys
  rw [List.filter_cons]
  split <;> rfl

theorem nestedKeys_of_alikeMembers (h : List.Forall₂ AlikeMembers ms ns) : nestedKeys ms = nestedKeys ns := by
  induction h with
  | nil => rfl
  | cons hm _ ih => rw [nestedKeys_cons, nestedKeys_cons, hm.key, hm.container, ih]

/-- Of a scalar nothing but its kind is reported. -/
theorem report_of_scalar (h : (Kind.of v).isContainer = false) : Report.of v = ⟨Kind.of v, .scalar, []⟩ := by
  cases v with
  | object | array => cases h
  | null | boolean | number | text => rfl

theorem Alike.report_eq (h : Alike v w) : Report.of v = Report.of w := by
  -- what is shown of a value hangs on its kind, its keys and the kinds of its parts, and on nothing more
  cases h with
  | @object ms ns members =>
    have hshape : Shape.of (.object ms) = Shape.of (.object ns) := by
      rw [Shape.of, Shape.of, keys_of_alikeMembers members]
    have hinsights : Insight.of (.object ms) = Insight.of (.object ns) := by
      have hnested := nestedKeys_of_alikeMembers members
      cases members with
      | nil => rfl
      | cons _ _ => simp only [Insight.of, hnested]
    rw [Report.of, Report.of, hshape, hinsights]
    rfl
  | @array vs ws length sample uniform =>
    have hshape : Shape.of (.array vs) = Shape.of (.array ws) := by
      have hkinds : Kind.present ((vs.take 5).map Kind.of) = Kind.present ((ws.take 5).map Kind.of) :=
        Kind.present_congr fun k => List.mem_map.trans ((sample k).trans List.mem_map.symm)
      rw [Shape.of, Shape.of, length, Shape.sampleSize, hkinds]
    have hinsights : Insight.of (.array vs) = Insight.of (.array ws) := by
      have hall : vs.all (fun v => Kind.of v = .object) = ws.all (fun v => Kind.of v = .object) := by
        rw [Bool.eq_iff_iff, all_object_iff, all_object_iff]
        exact uniform
      cases vs with
      | nil =>
        obtain rfl := List.length_eq_zero_iff.1 length.symm
        rfl
      | cons x vs =>
        cases ws with
        | nil => cases length
        | cons y ws => simp only [Insight.of, hall]
    rw [Report.of, Report.of, hshape, hinsights]
    rfl
  | scalar kind plain =>
    rw [report_of_scalar plain, report_of_scalar (kind ▸ plain), kind]

theorem Alike.same (h : Alike v w) : Report.Same v w := by
  have hreport := h.report_eq
  exact ⟨hreport, by rw [hreport], by rw [hreport]⟩

theorem alikeMembers_of_keys (hnodup : (ms.map (·.1)).Nodup) (hkeys : ms.map (·.1) = ns.map (·.1))
    (h : ∀ key a b, (key, a) ∈ ms → (key, b) ∈ ns → (Kind.of a).isContainer = (Kind.of b).isContainer) :
    List.Forall₂ AlikeMembers ms ns := by
  induction ms generalizing ns with
  | nil =>
    obtain rfl := List.map_eq_nil_iff.1 hkeys.symm
    exact .nil
  | cons m ms ih =>
    cases ns with
    | nil => cases hkeys
    | cons n ns =>
      obtain ⟨k, a⟩ := m
      obtain ⟨k', b⟩ := n
      rw [List.map_cons, List.map_cons, List.cons.injEq] at hkeys
      obtain ⟨rfl, hkeys⟩ := hkeys
      rw [List.map_cons, List.nodup_cons] at hnodup
      refine .cons ⟨rfl, h k a b List.mem_cons_self List.mem_cons_self⟩ (ih hnodup.2 hkeys ?_)
      intro key x y hx hy
      exact h key x y (List.mem_cons_of_mem _ hx) (List.mem_cons_of_mem _ hy)

/-! ## Changes that are not seen -/

/-- Arrays with the same kinds in the same places are alike. -/
theorem alike_array_of_kinds (h : vs.map Kind.of = ws.map Kind.of) : Alike (.array vs) (.array ws) := by
  have hlength : vs.length = ws.length := by
    rw [← List.length_map (f := Kind.of), h, List.length_map]
  have hsample : (vs.take 5).map Kind.of = (ws.take 5).map Kind.of := by
    rw [List.map_take, h, List.map_take]
  have hkinds {us : List Value} : AllObjects us ↔ ∀ k ∈ us.map Kind.of, k = .object := by
    simp [AllObjects]
  refine .array hlength (fun k => ?_) ?_
  · unfold HasKind
    rw [← List.mem_map, hsample, List.mem_map]
  · rw [hkinds, hkinds, h]

/-- Objects with the same keys and kinds in the same places are alike. -/
theorem alike_object_of_kinds
    (h : ms.map (fun m => (m.1, Kind.of m.2)) = ns.map (fun m => (m.1, Kind.of m.2))) :
    Alike (.object ms) (.object ns) := by
  have hpairs := List.forall₂_eq_eq_eq ▸ h
  rw [List.forall₂_map_left_iff, List.forall₂_map_right_iff] at hpairs
  refine .object (hpairs.imp fun m n hm => ?_)
  rw [Prod.mk.injEq] at hm
  exact ⟨hm.1, by rw [hm.2]⟩

/-- A change in one place of a list is not seen through a function that does not see it there. -/
theorem map_modify {α β : Type} {f : α → β} {g : α → α} {xs : List α} {i : Nat}
    (h : ∀ x, xs[i]? = some x → f (g x) = f x) : (xs.modify i g).map f = xs.map f := by
  refine List.ext_getElem? fun j => ?_
  rw [List.getElem?_map, List.getElem?_map, List.getElem?_modify]
  cases hx : xs[j]? with
  | none => rfl
  | some x =>
    by_cases hij : i = j
    · subst hij
      simp [h x hx]
    · simp [hij]

theorem kind_withPart {old new : Value} {place : List Nat} (hold : v.part? place = some old)
    (hkind : Kind.of new = Kind.of old) : Kind.of (.withPart new place v) = Kind.of v := by
  cases place with
  | nil =>
    cases hold
    exact hkind
  | cons i place => cases v <;> rfl

/-- Whatever is exchanged below the top level, the children stay of their kinds. -/
theorem alike_withPart {old new : Value} {i : Nat} {place : List Nat}
    (hold : v.part? (i :: place) = some old) (hkind : Kind.of new = Kind.of old) :
    Alike v (.withPart new (i :: place) v) := by
  obtain ⟨child, hchild, hpart⟩ := Option.bind_eq_some_iff.1 hold
  have hsame := kind_withPart hpart hkind
  cases v with
  | null | boolean | number | text => cases hchild
  | array vs =>
    refine alike_array_of_kinds (map_modify fun x hx => ?_).symm
    obtain rfl : x = child := Option.some.inj (hx.symm.trans hchild)
    exact hsame
  | object ms =>
    refine alike_object_of_kinds (map_modify fun m hm => ?_).symm
    obtain rfl : m.2 = child := by
      have hvalue : (ms.map (·.2))[i]? = some child := hchild
      rw [List.getElem?_map, hm] at hvalue
      exact Option.some.inj hvalue
    rw [hsame]

theorem alike_permuted {first : List Value} (h : first.Perm (vs.take 5)) :
    Alike (.array vs) (.array (first ++ vs.drop 5)) := by
  have hperm : (first ++ vs.drop 5).Perm vs := by
    have happend := h.append_right (vs.drop 5)
    rwa [List.take_append_drop] at happend
  have htake : (first ++ vs.drop 5).take 5 = first := by
    have hlength := h.length_eq
    rw [List.length_take] at hlength
    rcases Nat.lt_or_ge vs.length 5 with hshort | hlong
    · rw [List.drop_eq_nil_of_le (by omega), List.append_nil, List.take_of_length_le (by omega)]
    · exact List.take_left' (by omega)
  refine .array hperm.length_eq.symm (fun k => ?_) ?_
  · rw [htake]
    exact exists_congr fun v => and_congr_left fun _ => h.mem_iff.symm
  · exact forall_congr' fun v => imp_congr_left hperm.mem_iff.symm

theorem alike_later {first rest rest' : List Value} (hfive : first.length = 5) (hlength : rest'.length = rest.length)
    (huniform : AllObjects (first ++ rest) ↔ AllObjects (first ++ rest')) :
    Alike (.array (first ++ rest)) (.array (first ++ rest')) := by
  refine .array ?_ (fun k => ?_) huniform
  · rw [List.length_append, List.length_append, hlength]
  · rw [List.take_left' hfive, List.take_left' hfive]

/-! ## The sample -/

theorem samples_present (vs : List Value) :
    Report.Samples vs ((Kind.present ((vs.take 5).map Kind.of)).map Kind.label) := by
  constructor
  case written => exact ⟨_, by rw [List.map_map]; rfl⟩
  case increasing =>
    -- the kinds are picked from the list of all of them, in its order
    have hall : (Kind.all.map Kind.label).Pairwise (fun a b =>
        ["object", "array", "string", "number", "boolean", "null"].idxOf a <
          ["object", "array", "string", "number", "boolean", "null"].idxOf b) := by
      decide
    exact hall.sublist (List.filter_sublist.map _)
  case exact =>
    intro t
    simp only [List.mem_map, Kind.mem_present, List.mem_take_iff_getElem]
    constructor
    · rintro ⟨k, ⟨v, ⟨i, hi, rfl⟩, rfl⟩, rfl⟩
      exact ⟨i, by omega, by omega, rfl⟩
    · rintro ⟨i, hi, hfive, rfl⟩
      exact ⟨_, ⟨_, ⟨i, by omega, rfl⟩, rfl⟩, rfl⟩

end

/-- What is reported of a value is decided at its top level, and the first five elements of an array are all
that is sampled. -/
theorem Report.decided_at_top (v : Value) : Shallow v where
  alike _ h := h.same
  keys := by
    rintro ms ns rfl hnodup hkeys hcontainers
    exact (Alike.object (alikeMembers_of_keys hnodup hkeys hcontainers)).same
  part _ _ _ _ hold hkind := (alike_withPart hold hkind).same
  permuted := by
    rintro vs first rfl hperm
    exact (alike_permuted hperm).same
  later := by
    rintro first rest rest' rfl hfive hlength huniform
    exact (alike_later hfive hlength huniform).same
  samples := by
    rintro vs rfl
    exact ⟨_, samples_present vs⟩

end ShapeLedger
