/-
The invariant of the ledger: `WF` on tables, `Extends` between them, and what an insertion that
breaks no rule does to both. Rows are numbered from one without a gap, so a row is found by its id
as long as the tables only grow.
-/
import ShapeLedger.Ledger.Database
import ShapeLedger.Proofs.Text.Utf8
import Mathlib.Data.List.Basic
import Mathlib.Data.List.Nodup
import Mathlib.Data.List.Range

namespace ShapeLedger.Ledger

/-! ## Definitions -/

section

variable {α : Type} (id : α → Int)

/-- The ids of the rows are 1, 2, … in the order of their creation, up to the last one given out. -/
def Table.Numbered (t : Table α) : Prop :=
  t.rows.map id = (List.range t.lastId).map (fun n : Nat => (n : Int) + 1)

end

/-- Nothing is changed, removed or reordered: the rows of `a` are the first rows of `b`. -/
structure Table.Extends {α : Type} (a b : Table α) : Prop where
  rows : a.rows <+: b.rows
  lastId : a.lastId ≤ b.lastId

namespace Tables

/-- Well-formed tables: ids without a gap; usernames distinct byte for byte and short enough;
amounts that are numbers; descriptions short enough; and every expense with a user to it. -/
structure WF (t : Tables) : Prop where
  userIds : t.users.Numbered (·.id)
  expenseIds : t.expenses.Numbered (·.id)
  usernames : (t.users.rows.map (fun r => Utf8.encode r.username)).Nodup
  usernameLengths : ∀ r ∈ t.users.rows, storedLength r.username ≤ usernameLimit
  amounts : ∀ x ∈ t.expenses.rows, x.amount.isNaN = false
  descriptionLengths : ∀ x ∈ t.expenses.rows, ∀ s ∈ x.description, storedLength s ≤ descriptionLimit
  owners : ∀ x ∈ t.expenses.rows, ∃ r ∈ t.users.rows, r.id = x.userId

/-- `b` has all that `a` has, in its place. -/
structure Extends (a b : Tables) : Prop where
  users : a.users.Extends b.users
  expenses : a.expenses.Extends b.expenses

end Tables

/-! ## Tables that only grow -/

namespace Table

variable {α : Type} {id : α → Int}

theorem Extends.refl (t : Table α) : t.Extends t := ⟨List.prefix_refl _, le_refl _⟩

theorem Extends.trans {a b c : Table α} (h : a.Extends b) (h' : b.Extends c) : a.Extends c :=
  ⟨h.rows.trans h'.rows, le_trans h.lastId h'.lastId⟩

theorem extends_add (t : Table α) (row : Int → α) : t.Extends (t.add row) :=
  ⟨List.prefix_append _ _, Nat.le_succ _⟩

theorem Numbered.nodup {t : Table α} (h : t.Numbered id) : (t.rows.map id).Nodup := by
  unfold Numbered at h
  rw [h]
  refine List.Nodup.map (fun m n hmn => ?_) List.nodup_range
  have : (m : Int) + 1 = (n : Int) + 1 := hmn
  omega

theorem Numbered.add {t : Table α} (h : t.Numbered id) {row : Int → α} (hrow : ∀ n, id (row n) = n) :
    (t.add row).Numbered id := by
  unfold Numbered at h ⊢
  simp only [Table.add, List.map_append, List.map_cons, List.map_nil, h, hrow, nextId, List.range_succ]

/-- The ids in a table are those from one to the last one given out. -/
theorem Numbered.mem_ids {t : Table α} (h : t.Numbered id) {n : Int} :
    (∃ r ∈ t.rows, id r = n) ↔ 1 ≤ n ∧ n ≤ t.lastId := by
  have hn : (∃ r ∈ t.rows, id r = n) ↔ n ∈ t.rows.map id := by simp
  unfold Numbered at h
  rw [hn, h]
  simp only [List.mem_map, List.mem_range]
  constructor
  · rintro ⟨k, hk, rfl⟩; omega
  · rintro ⟨lo, hi⟩; exact ⟨(n - 1).toNat, by omega, by omega⟩

theorem Numbered.id_le {t : Table α} (h : t.Numbered id) {r : α} (hr : r ∈ t.rows) :
    1 ≤ id r ∧ id r ≤ t.lastId := h.mem_ids.1 ⟨r, hr, rfl⟩

/-- A row is found by its id. -/
theorem Numbered.find?_id {t : Table α} (h : t.Numbered id) {r : α} (hr : r ∈ t.rows) :
    t.rows.find? (fun x => id x = id r) = some r := by
  cases hf : t.rows.find? (fun x => id x = id r) with
  | none =>
    rw [List.find?_eq_none] at hf
    simpa using hf r hr
  | some x =>
    have hx : id x = id r := by simpa using List.find?_some hf
    rw [List.inj_on_of_nodup_map h.nodup (List.mem_of_find?_eq_some hf) hr hx]

theorem add_mem (t : Table α) (row : Int → α) : row t.nextId ∈ (t.add row).rows := by
  simp [add]

theorem mem_add {t : Table α} {row : Int → α} {r : α} :
    r ∈ (t.add row).rows ↔ r ∈ t.rows ∨ r = row t.nextId := by
  simp [add]

end Table

namespace Tables

theorem Extends.refl (t : Tables) : t.Extends t := ⟨.refl _, .refl _⟩

theorem Extends.trans {a b c : Tables} (h : a.Extends b) (h' : b.Extends c) : a.Extends c :=
  ⟨h.users.trans h'.users, h.expenses.trans h'.expenses⟩

theorem addUser_users (t : Tables) (u : NewUser) (now : String) :
    (t.addUser u now).users = t.users.add (fun id => ⟨id, u.username, now⟩) := rfl

theorem addExpense_expenses (t : Tables) (x : NewExpense) (now : String) :
    (t.addExpense x now).expenses = t.expenses.add (fun id =>
      ⟨id, storedAmount x.amount, x.description, x.userId, now⟩) := rfl

theorem extends_addUser (t : Tables) (u : NewUser) (now : String) : t.Extends (t.addUser u now) :=
  ⟨addUser_users t u now ▸ Table.extends_add _ _, .refl _⟩

theorem extends_addExpense (t : Tables) (x : NewExpense) (now : String) :
    t.Extends (t.addExpense x now) :=
  ⟨.refl _, addExpense_expenses t x now ▸ Table.extends_add _ _⟩

/-! ## Insertions keep the invariant -/

theorem empty_wf : Tables.empty.WF := by
  refine ⟨rfl, rfl, List.nodup_nil, ?_, ?_, ?_, ?_⟩ <;> intro r hr <;> cases hr

/-- What the absence of a fault says of a new user. -/
theorem userFault?_eq_none {t : Tables} {u : NewUser} :
    t.userFault? u = none ↔
      storedLength u.username ≤ usernameLimit ∧ ∀ r ∈ t.users.rows, r.username ≠ u.username := by
  unfold userFault?
  split
  · next h => simp; omega
  · next h =>
    split
    · next hd =>
      obtain ⟨r, hr, hu⟩ := List.any_eq_true.1 hd
      simp only [decide_eq_true_eq] at hu
      simp only [reduceCtorEq, false_iff, not_and]
      exact fun _ hn => hn r hr hu
    · next hd =>
      simp only [List.any_eq_true, decide_eq_true_eq, not_exists, not_and] at hd
      simp only [true_iff]
      exact ⟨by omega, hd⟩

/-- What the absence of a fault says of a new expense. -/
theorem expenseFault?_eq_none {t : Tables} {x : NewExpense} :
    t.expenseFault? x = none ↔
      x.amount.isNaN = false ∧ (∀ s ∈ x.description, storedLength s ≤ descriptionLimit) ∧
        ∃ r ∈ t.users.rows, r.id = x.userId := by
  have hd : x.description.any (fun s => descriptionLimit < storedLength s) = true ↔
      ¬ ∀ s ∈ x.description, storedLength s ≤ descriptionLimit := by
    cases x.description <;> simp
  have ho : t.users.rows.all (fun r => r.id ≠ x.userId) = true ↔ ¬ ∃ r ∈ t.users.rows, r.id = x.userId := by
    simp
  unfold expenseFault?
  -- the rules in the order in which they are looked at
  by_cases hn : x.amount.isNaN = true
  · simp [hn]
  · rw [if_neg hn]
    by_cases hl : ∀ s ∈ x.description, storedLength s ≤ descriptionLimit
    · rw [if_neg (fun h => hd.1 h hl)]
      by_cases hr : ∃ r ∈ t.users.rows, r.id = x.userId
      · rw [if_neg (fun h => ho.1 h hr)]
        exact ⟨fun _ => ⟨by simpa using hn, hl, hr⟩, fun _ => rfl⟩
      · rw [if_pos (ho.2 hr)]
        exact ⟨fun h => absurd h (by simp), fun h => absurd h.2.2 hr⟩
    · rw [if_pos (hd.2 hl)]
      exact ⟨fun h => absurd h (by simp), fun h => absurd h.2.1 hl⟩

theorem zero_isNaN : (Binary64.zero false).isNaN = false := by decide

theorem storedAmount_isNaN (x : Binary64) : (storedAmount x).isNaN = x.isNaN := by
  unfold storedAmount
  split
  · next h =>
    have hm : x.magnitude = 0 := by simpa [Binary64.isZero] using h
    rw [zero_isNaN]
    simp [Binary64.isNaN, hm]
  · rfl

/-- Equal as numbers: only the sign of a zero may differ. -/
def SameAmount (x y : Binary64) : Prop :=
  x.isNaN = false ∧ y.isNaN = false ∧ (x = y ∨ x.isZero = true ∧ y.isZero = true)

theorem storedAmount_same {x : Binary64} (h : x.isNaN = false) : SameAmount (storedAmount x) x := by
  refine ⟨(storedAmount_isNaN x).trans h, h, ?_⟩
  unfold storedAmount
  split
  · next hz => exact Or.inr ⟨by decide, hz⟩
  · exact Or.inl rfl

/-- A user who breaks no rule goes into well-formed tables. -/
theorem WF.addUser {t : Tables} (h : t.WF) {u : NewUser} (hu : t.userFault? u = none) (now : String) :
    (t.addUser u now).WF := by
  obtain ⟨hlen, hnew⟩ := userFault?_eq_none.1 hu
  refine ⟨h.userIds.add (fun _ => rfl), h.expenseIds, ?_, ?_, h.amounts, h.descriptionLengths, ?_⟩
  · rw [addUser_users, Table.add, List.map_append, List.map_singleton]
    refine List.nodup_append.2 ⟨h.usernames, List.nodup_singleton _, ?_⟩
    intro a ha b hb
    obtain ⟨r, hr, rfl⟩ := List.mem_map.1 ha
    rw [List.mem_singleton] at hb
    subst hb
    -- the same bytes would be the same name
    exact fun he => hnew r hr (Utf8.encode_injective he)
  · intro r hr
    rcases Table.mem_add.1 hr with hr | rfl
    · exact h.usernameLengths r hr
    · exact hlen
  · intro x hx
    obtain ⟨r, hr, hid⟩ := h.owners x hx
    exact ⟨r, Table.mem_add.2 (Or.inl hr), hid⟩

/-- An expense that breaks no rule goes into well-formed tables. -/
theorem WF.addExpense {t : Tables} (h : t.WF) {x : NewExpense} (hx : t.expenseFault? x = none)
    (now : String) : (t.addExpense x now).WF := by
  obtain ⟨hnum, hlen, hown⟩ := expenseFault?_eq_none.1 hx
  refine ⟨h.userIds, h.expenseIds.add (fun _ => rfl), h.usernames, h.usernameLengths, ?_, ?_, ?_⟩ <;>
    intro r hr <;> rcases Table.mem_add.1 hr with hr | rfl
  · exact h.amounts r hr
  · exact (storedAmount_isNaN _).trans hnum
  · exact h.descriptionLengths r hr
  · exact hlen
  · exact h.owners r hr
  · exact hown

end Tables

end ShapeLedger.Ledger
