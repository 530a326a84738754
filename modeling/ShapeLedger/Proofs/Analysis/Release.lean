/-
A value is taken apart completely, and nothing in it twice. Each turn of the loop takes one value off the work list
and puts its children there, so the list may grow; but the values that are on it have one node less between them
after each turn, and the loop ends after as many turns as the value has nodes.

That each node is taken once is an invariant of the places: at every turn each place of the value has either been
taken, or is inside exactly one of the values that wait. At the end none waits.
-/
import ShapeLedger.Proofs.Analysis.TopLevel
import Mathlib.Data.List.Nodup
import Mathlib.Logic.Function.Iterate

namespace ShapeLedger.Json

open Value

/-! ## Definitions -/

/-- One turn of the loop on the work list: its next value is taken, and the children of this value are put there. -/
def turn : List Value → List Value
  | [] => []
  | v :: rest => v.children.reverse ++ rest

/-- The places of the children of the part at a place, from the last child on. -/
def childPlaces (place : List Nat) (v : Value) : List (List Nat) :=
  ((List.range v.children.length).map fun i => place ++ [i]).reverse

/-- Neither place is in the part at the other. -/
def Apart (a b : List Nat) : Prop := ¬ a <+: b ∧ ¬ b <+: a

/-- The values on the work list are the parts at the places `waiting`, and every other part of the value is at one of
the places `taken`. -/
structure Parted (root : Value) (taken waiting : List (List Nat)) (pending : List Value) : Prop where
  pending : waiting.map (part? · root) = pending.map some
  nodup : taken.Nodup
  apart : waiting.Pairwise Apart
  present : ∀ a ∈ taken, (root.part? a).isSome = true
  mem_taken : ∀ a, (root.part? a).isSome = true → (a ∈ taken ↔ ∀ p ∈ waiting, ¬ p <+: a)

/-- How a value is taken apart. -/
structure TakenApart (v : Value) : Prop where
  /-- The work list is empty after as many turns as the value has nodes, and not before. -/
  ends : ∀ k, turn^[k] [v] = [] ↔ v.nodes ≤ k
  /-- Each turn takes what is next on the list. -/
  turns : ∀ k, (release [v])[k]? = (turn^[k] [v]).head?
  length : (release [v]).length = v.nodes
  /-- The values that are taken are the parts at all places of the value, each place once. -/
  once : ∃ order : List (List Nat), order.Nodup ∧ (∀ place, place ∈ order ↔ (v.part? place).isSome = true) ∧
    order.map (part? · v) = (release [v]).map some

/-! ## Turns -/

section
variable {v : Value} {rest pending : List Value}

@[simp] theorem release_nil : release [] = [] := by
  rw [release]

theorem release_cons : release (v :: rest) = v :: release (turn (v :: rest)) := by
  rw [release]
  rfl

theorem Value.nodes_pos (v : Value) : 0 < v.nodes := by
  rw [v.nodes_eq]
  exact Nat.succ_pos _

theorem nodesOfElements_eq_zero : nodesOfElements pending = 0 ↔ pending = [] := by
  cases pending with
  | nil => exact ⟨fun _ => rfl, fun _ => rfl⟩
  | cons v rest =>
    have hpos := v.nodes_pos
    simp only [nodesOfElements, reduceCtorEq, iff_false]
    omega

/-- A turn takes one node. -/
theorem nodes_turn (pending : List Value) : nodesOfElements (turn pending) = nodesOfElements pending - 1 := by
  cases pending with
  | nil => rfl
  | cons v rest =>
    rw [turn, nodesOfElements_append, nodesOfElements_reverse, nodesOfElements, v.nodes_eq]
    omega

theorem nodes_turns (k : Nat) (pending : List Value) :
    nodesOfElements (turn^[k] pending) = nodesOfElements pending - k := by
  induction k with
  | zero => rfl
  | succ k ih =>
    rw [Function.iterate_succ_apply', nodes_turn, ih]
    omega

/-- The loop is over when as many turns are made as there are nodes on the list. -/
theorem turns_eq_nil {k : Nat} : turn^[k] pending = [] ↔ nodesOfElements pending ≤ k := by
  rw [← nodesOfElements_eq_zero, nodes_turns]
  omega

theorem release_getElem? (k : Nat) (pending : List Value) : (release pending)[k]? = (turn^[k] pending).head? := by
  induction k generalizing pending with
  | zero => cases pending <;> simp [release_cons]
  | succ k ih =>
    cases pending with
    | nil =>
      have hnil : turn^[k + 1] [] = [] := turns_eq_nil.2 (Nat.zero_le _)
      rw [hnil, release_nil]
      rfl
    | cons v rest => rw [release_cons, List.getElem?_cons_succ, ih, Function.iterate_succ_apply]

theorem release_length (pending : List Value) : (release pending).length = nodesOfElements pending := by
  induction pending using release.induct with
  | case1 => simp [nodesOfElements]
  | case2 v rest ih =>
    rw [release_cons, List.length_cons, turn, ih, nodesOfElements_append, nodesOfElements_reverse, nodesOfElements,
      v.nodes_eq]
    omega

end

/-! ## Places -/

section
variable {root v : Value} {s a b : List Nat}

theorem Value.part?_append (a b : List Nat) (v : Value) : v.part? (a ++ b) = (v.part? a).bind (part? b) := by
  induction a generalizing v with
  | nil => rfl
  | cons i a ih =>
    simp only [List.cons_append, part?]
    cases v.children[i]? with
    | none => rfl
    | some w => exact ih w

theorem part?_child (h : root.part? s = some v) (i : Nat) : root.part? (s ++ [i]) = v.children[i]? := by
  rw [Value.part?_append, h]
  show v.children[i]?.bind some = _
  exact Option.bind_fun_some _

/-- A place in the part at `s` is `s` itself, or in the part at one of the places of the children. -/
theorem prefix_iff_child (h : root.part? s = some v) (ha : (root.part? a).isSome = true) :
    s <+: a ↔ a = s ∨ ∃ p ∈ childPlaces s v, p <+: a := by
  constructor
  · rintro ⟨b, rfl⟩
    cases b with
    | nil => exact .inl (List.append_nil s)
    | cons i b =>
      have hchild : s ++ i :: b = (s ++ [i]) ++ b := by simp
      rw [hchild, Value.part?_append, part?_child h] at ha
      obtain ⟨w, hw⟩ := Option.isSome_iff_exists.1 (Option.isSome_of_isSome_bind ha)
      obtain ⟨hi, -⟩ := List.getElem?_eq_some_iff.1 hw
      refine .inr ⟨s ++ [i], ?_, b, hchild.symm⟩
      simpa [childPlaces] using hi
  · rintro (rfl | ⟨p, hp, hpa⟩)
    · exact List.prefix_rfl
    · simp only [childPlaces, List.mem_reverse, List.mem_map] at hp
      obtain ⟨i, -, rfl⟩ := hp
      exact (List.prefix_append s [i]).trans hpa

theorem childPlaces_parts (h : root.part? s = some v) :
    (childPlaces s v).map (part? · root) = v.children.reverse.map some := by
  have hchildren : (List.range v.children.length).map (v.children[·]?) = v.children.map some := by
    refine List.ext_getElem (by simp) fun i _ _ => ?_
    simp
  simp only [childPlaces, List.map_reverse, List.map_map, Function.comp_def, part?_child h, hchildren]

theorem childPlaces_apart (s : List Nat) (v : Value) : (childPlaces s v).Pairwise Apart := by
  have hne {i j : Nat} (hij : i ≠ j) : ¬ s ++ [i] <+: s ++ [j] := by
    intro h
    have heq : s ++ [i] = s ++ [j] := h.eq_of_length (by simp)
    exact hij (by simpa using heq)
  rw [childPlaces, List.pairwise_reverse, List.pairwise_map]
  refine List.nodup_range.imp ?_
  intro i j hij
  exact ⟨hne hij.symm, hne hij⟩

/-- What is apart from a place is apart from the places below it. -/
theorem Apart.child (h : Apart s b) (ha : a ∈ childPlaces s v) : Apart a b := by
  simp only [childPlaces, List.mem_reverse, List.mem_map] at ha
  obtain ⟨i, -, rfl⟩ := ha
  constructor
  · intro hb
    exact h.1 ((List.prefix_append s [i]).trans hb)
  · intro hb
    rcases List.prefix_concat_iff.1 hb with rfl | hb
    · exact h.1 (List.prefix_append s [i])
    · exact h.2 hb

/-- The place of a part is not below it. -/
theorem not_prefix_of_child (ha : a ∈ childPlaces s v) : ¬ a <+: s := by
  simp only [childPlaces, List.mem_reverse, List.mem_map] at ha
  obtain ⟨i, -, rfl⟩ := ha
  intro h
  have hle := h.length_le
  rw [List.length_append, List.length_singleton] at hle
  omega

end

/-! ## The invariant -/

section
variable {root v : Value} {taken waiting : List (List Nat)} {rest : List Value} {s : List Nat}

theorem parted_start (v : Value) : Parted v [] [[]] [v] where
  pending := rfl
  nodup := List.nodup_nil
  apart := List.pairwise_singleton _ _
  present := by simp
  mem_taken := by simp

/-- The next value is taken, and its children wait. -/
theorem Parted.turn (h : Parted root taken (s :: waiting) (v :: rest)) :
    Parted root (taken ++ [s]) (childPlaces s v ++ waiting) (turn (v :: rest)) := by
  obtain ⟨hv, hrest⟩ := List.cons.inj h.pending
  replace hv : root.part? s = some v := hv
  obtain ⟨hs, hapart⟩ := List.pairwise_cons.1 h.apart
  have hpresent : (root.part? s).isSome = true := by rw [hv]; rfl
  -- what waits has not been taken, by the invariant
  have hnew : s ∉ taken := fun hmem => (h.mem_taken s hpresent).1 hmem s List.mem_cons_self List.prefix_rfl
  constructor
  case pending =>
    rw [Json.turn, List.map_append, List.map_append, childPlaces_parts hv, hrest]
  case nodup =>
    refine List.nodup_append.2 ⟨h.nodup, List.nodup_singleton s, ?_⟩
    intro a ha b hb
    rw [List.mem_singleton.1 hb]
    rintro rfl
    exact hnew ha
  case apart =>
    refine List.pairwise_append.2 ⟨childPlaces_apart s v, hapart, ?_⟩
    intro a ha b hb
    exact (hs b hb).child ha
  case present =>
    intro a ha
    rcases List.mem_append.1 ha with ha | ha
    · exact h.present a ha
    · rw [List.mem_singleton.1 ha]
      exact hpresent
  case mem_taken =>
    intro a ha
    have hold := h.mem_taken a ha
    rw [List.forall_mem_cons, prefix_iff_child hv ha] at hold
    rw [List.mem_append, List.mem_singleton, List.forall_mem_append]
    constructor
    -- neither below the children nor below what waited: taken before, or the part of this turn
    · rintro (hmem | rfl)
      · obtain ⟨hnot, hwaiting⟩ := hold.1 hmem
        exact ⟨fun p hp hpa => hnot (.inr ⟨p, hp, hpa⟩), hwaiting⟩
      · exact ⟨fun p hp => not_prefix_of_child hp, fun p hp => (hs p hp).2⟩
    · rintro ⟨hchildren, hwaiting⟩
      by_cases has : a = s
      · exact .inr has
      · refine .inl (hold.2 ⟨?_, hwaiting⟩)
        rintro (rfl | ⟨p, hp, hpa⟩)
        · exact has rfl
        · exact hchildren p hp hpa

/-- After every number of turns the parts that have been taken and those that wait make up the value. -/
theorem parted_turns (v : Value) (k : Nat) :
    ∃ taken waiting, taken.map (part? · v) = ((release [v]).take k).map some ∧
      Parted v taken waiting (Json.turn^[k] [v]) := by
  induction k with
  | zero => exact ⟨[], [[]], rfl, parted_start v⟩
  | succ k ih =>
    obtain ⟨taken, waiting, htaken, h⟩ := ih
    have hnext := release_getElem? k [v]
    rw [Function.iterate_succ_apply', List.take_add_one, List.map_append, ← htaken, hnext]
    cases hpending : Json.turn^[k] [v] with
    | nil =>
      rw [hpending] at h
      exact ⟨taken, waiting, (List.append_nil _).symm, h⟩
    | cons w rest =>
      rw [hpending] at h
      obtain ⟨s, more, rfl⟩ : ∃ s more, waiting = s :: more := by
        cases waiting with
        | nil => cases h.pending
        | cons s more => exact ⟨s, more, rfl⟩
      obtain ⟨hw, -⟩ := List.cons.inj h.pending
      refine ⟨taken ++ [s], _, ?_, h.turn⟩
      rw [List.map_append]
      exact congrArg _ (congrArg (fun x => [x]) hw)

end

/-- The loop takes a value apart in as many turns as it has nodes, and each of its nodes in one of them. -/
theorem release_takes_apart (v : Value) : TakenApart v := by
  have hnodes : nodesOfElements [v] = v.nodes := Nat.add_zero _
  constructor
  case ends =>
    intro k
    rw [turns_eq_nil, hnodes]
  case turns =>
    intro k
    exact release_getElem? k [v]
  case length => rw [release_length, hnodes]
  case once =>
    -- when the loop is over, nothing waits
    have hlength : (release [v]).length ≤ v.nodes := Nat.le_of_eq ((release_length [v]).trans hnodes)
    have hover : turn^[v.nodes] [v] = [] := turns_eq_nil.2 (Nat.le_of_eq hnodes)
    obtain ⟨order, waiting, horder, hend⟩ := parted_turns v v.nodes
    rw [List.take_of_length_le hlength] at horder
    rw [hover] at hend
    obtain rfl : waiting = [] := List.map_eq_nil_iff.1 hend.pending
    refine ⟨order, hend.nodup, ?_, horder⟩
    intro place
    constructor
    · exact hend.present place
    · intro hplace
      exact (hend.mem_taken place hplace).2 fun p hp => absurd hp List.not_mem_nil

end ShapeLedger.Json
