/-
Which calls succeed, and why the others do not. A call can break several rules at once; the one reported is
the first of them, looked for in the order NOT NULL, CHECK, UNIQUE, FOREIGN KEY (`fault?_eq_some`). A call
that breaks none adds its row under the next id, provided that the lock is whole and the database may be
written; any other call changes nothing, so that the next one to succeed gets the id that was next before.
-/
import ShapeLedger.Proofs.Ledger.Migration

namespace ShapeLedger.Ledger

/-! ## Definitions -/

/-- Rules of a lower rank are looked at first: NOT NULL, then CHECK, then UNIQUE, then FOREIGN KEY. -/
def Rule.rank : Rule → Nat
  | amountPresent => 0
  | usernameLength | descriptionLength => 1
  | usernameUnique => 2
  | userExists => 3

namespace Call

/-- What it is for a call to break a rule, whatever other rules it breaks. -/
inductive Breaks (t : Tables) : Call → Rule → Prop where
  | amountPresent {x : NewExpense} {now : String} (h : x.amount.isNaN = true) :
      Breaks t (.expense x now) .amountPresent
  | usernameLength {u : NewUser} {now : String} (h : usernameLimit < storedLength u.username) :
      Breaks t (.user u now) .usernameLength
  | descriptionLength {x : NewExpense} {now description : String} (hd : x.description = some description)
      (h : descriptionLimit < storedLength description) : Breaks t (.expense x now) .descriptionLength
  | usernameUnique {u : NewUser} {now : String} {r : User} (hr : r ∈ t.users.rows)
      (h : Utf8.encode r.username = Utf8.encode u.username) : Breaks t (.user u now) .usernameUnique
  | userExists {x : NewExpense} {now : String} (h : ∀ r ∈ t.users.rows, r.id ≠ x.userId) :
      Breaks t (.expense x now) .userExists

/-- The first of the rules that a call breaks. -/
def FirstBroken (t : Tables) (c : Call) (rule : Rule) : Prop :=
  Breaks t c rule ∧ ∀ other, Breaks t c other → rule.rank ≤ other.rank

/-- What a call comes to on a session with the tables `t`. -/
structure Decided (c : Call) (s : Session) (t : Tables) : Prop where
  succeeds : (∃ row, (c.create s).1 = .ok row) ↔
    s.pool.poisoned = false ∧ s.pool.home.writable = true ∧ ∀ rule, ¬ Breaks t c rule
  /-- The insertion on its own, without the row being read back, succeeds in the same cases. -/
  inserts : (∃ id, (c.insert s).1 = .ok id) ↔ ∃ row, (c.create s).1 = .ok row
  /-- A call that succeeds adds its row under the next id. -/
  added : ∀ row, (c.create s).1 = .ok row → row = c.row (c.nextId t) ∧ (c.create s).2.Holds (c.add t)
  /-- Where the pool works and may write, the first rule that is broken is reported. -/
  refused : s.pool.poisoned = false → s.pool.home.writable = true → ∀ e, (c.create s).1 = .error e →
    ∃ rule, e = .constraint rule ∧ e.message = "Constraint violation: " ++ rule.text ∧ FirstBroken t c rule
  poisoned : s.pool.poisoned = true → (c.create s).1 = .error .poisoned
  readOnly : s.pool.poisoned = false → s.pool.home.writable = false →
    (c.create s).1 = .error (.connection .readOnly)
  /-- A call that fails leaves everything as it was. -/
  unchanged : ∀ e, (c.create s).1 = .error e → (c.create s).2 = s ∧ (c.create s).2.Holds t
  /-- The next call to succeed gets the id that was the next one before the failure. -/
  next : ∀ e, (c.create s).1 = .error e → ∀ (later : Call) (row : Row),
    (later.create (c.create s).2).1 = .ok row → row.id = later.nextId t

/-! ## Rules -/

section
variable {t : Tables} {c : Call} {rule : Rule}

theorem not_breaks_iff : (∀ rule, ¬ Breaks t c rule) ↔ c.fault? t = none := by
  cases c with
  | user u now =>
    rw [fault?, Tables.userFault?_eq_none]
    constructor
    · intro h
      refine ⟨Nat.not_lt.1 fun hlen => h _ (.usernameLength hlen), fun r hr he => ?_⟩
      exact h _ (.usernameUnique hr (congrArg Utf8.encode he))
    · rintro ⟨hlen, hnew⟩ rule (_ | hlt | _ | ⟨hr, he⟩)
      · omega
      · exact hnew _ hr (Utf8.encode_injective he)
  | expense x now =>
    rw [fault?, Tables.expenseFault?_eq_none]
    constructor
    · intro h
      refine ⟨Bool.eq_false_iff.2 fun hnan => h _ (.amountPresent hnan), fun d hd => ?_, ?_⟩
      · exact Nat.not_lt.1 fun hlen => h _ (.descriptionLength hd hlen)
      · by_contra hno
        exact h _ (.userExists fun r hr he => hno ⟨r, hr, he⟩)
    · rintro ⟨hnum, hlen, r, hr, hid⟩ rule (hnan | _ | ⟨hd, hlt⟩ | _ | hno)
      · rw [hnum] at hnan; cases hnan
      · have := hlen _ hd; omega
      · exact hno r hr hid

/-- The fault that is found is the first of the rules that are broken. -/
theorem firstBroken_of_fault? (h : c.fault? t = some rule) : FirstBroken t c rule := by
  cases c with
  | user u now =>
    change t.userFault? u = some rule at h
    unfold Tables.userFault? at h
    split at h
    · next hlen =>
      cases h
      refine ⟨.usernameLength hlen, ?_⟩
      rintro other (_ | _ | _ | _) <;> decide
    · next hlen =>
      split at h
      · next htaken =>
        cases h
        obtain ⟨r, hr, hname⟩ := List.any_eq_true.1 htaken
        refine ⟨.usernameUnique hr (congrArg Utf8.encode (of_decide_eq_true hname)), ?_⟩
        -- only the length of a name is looked at before, and this name is not too long
        rintro other (_ | hlt | _ | _)
        · exact absurd hlt hlen
        · decide
      · cases h
  | expense x now =>
    change t.expenseFault? x = some rule at h
    unfold Tables.expenseFault? at h
    split at h
    · next hnan =>
      -- no rule is looked at before this one
      cases h
      exact ⟨.amountPresent hnan, fun other _ => Nat.zero_le _⟩
    · next hnum =>
      split at h
      · next hlong =>
        cases h
        obtain ⟨d, hd, hlen⟩ := (Option.any_eq_true _ _).1 hlong
        refine ⟨.descriptionLength hd (of_decide_eq_true hlen), ?_⟩
        rintro other (hnan | _ | _ | _ | _)
        · exact absurd hnan hnum
        all_goals decide
      · next hshort =>
        split at h
        · next hnobody =>
          cases h
          refine ⟨.userExists fun r hr => by simpa using List.all_eq_true.1 hnobody r hr, ?_⟩
          rintro other (hnan | _ | ⟨hd, hlt⟩ | _ | _)
          · exact absurd hnan hnum
          · exact absurd ((Option.any_eq_true _ _).2 ⟨_, hd, decide_eq_true hlt⟩) hshort
          · decide
        · cases h

/-- The rules of a table have different ranks. -/
theorem Breaks.eq_of_rank {rule other : Rule} (h : Breaks t c rule) (h' : Breaks t c other)
    (hr : rule.rank = other.rank) : rule = other := by
  cases h <;> cases h' <;> first | rfl | cases hr

theorem fault?_eq_some : c.fault? t = some rule ↔ FirstBroken t c rule := by
  refine ⟨firstBroken_of_fault?, fun h => ?_⟩
  cases hf : c.fault? t with
  | none => exact absurd h.1 (not_breaks_iff.2 hf rule)
  | some first =>
    obtain ⟨hb, hle⟩ := firstBroken_of_fault? hf
    rw [hb.eq_of_rank h.1 (Nat.le_antisymm (hle _ h.1) (h.2 _ hb))]

end

/-! ## Calls -/

section
variable {s : Session} {t : Tables}

/-- On tables that are well-formed a call fails and changes nothing, or breaks no rule, adds its row and
answers it. -/
theorem create_cases (h : s.Holds t) (hw : t.WF) (c : Call) :
    (∃ e, (c.insert s).1 = .error e ∧ c.create s = (.error e, s)) ∨
    ∃ s', c.insert s = (.ok (c.nextId t), s') ∧ c.create s = (.ok (c.row (c.nextId t)), s') ∧
      c.fault? t = none ∧ s.pool.poisoned = false ∧ s.pool.home.writable = true ∧ s'.Serves (c.add t) := by
  rcases insert_cases h c with ⟨e, he⟩ | ⟨s', hi, hf, hp, hwr, h', hp', -⟩
  · exact .inl ⟨e, by rw [he], create_of_insert he⟩
  · refine .inr ⟨s', hi, ?_, hf, hp, hwr, hp', h', wf_add hw hf⟩
    rw [create_eq_insert ⟨hp, h, hw⟩, hi]
    rfl

/-- An insertion has its three conditions: the lock, the right to write, and the rules. -/
theorem insert_succeeds_iff (h : s.Holds t) (c : Call) : (∃ id, (c.insert s).1 = .ok id) ↔
    s.pool.poisoned = false ∧ s.pool.home.writable = true ∧ c.fault? t = none := by
  constructor
  · rintro ⟨id, hid⟩
    rcases insert_cases h c with ⟨e, he⟩ | ⟨s', -, hf, hp, hw, -⟩
    · rw [he] at hid; cases hid
    · exact ⟨hp, hw, hf⟩
  · rintro ⟨hp, hw, hf⟩
    rw [insert_eq h]
    unfold Session.insertion
    rw [hp, hw, hf]
    exact ⟨_, rfl⟩

/-- A call succeeds just when its insertion does. -/
theorem insert_ok_iff_create (h : s.Holds t) (hw : t.WF) (c : Call) :
    (∃ id, (c.insert s).1 = .ok id) ↔ ∃ row, (c.create s).1 = .ok row := by
  rcases create_cases h hw c with ⟨e, he, hc⟩ | ⟨s', hi, hc, -⟩
  · simp [he, hc]
  · simp [hi, hc]

/-- A call that succeeds answers its row under the next id, and has added it. -/
theorem create_ok (h : s.Holds t) (hw : t.WF) {c : Call} {row : Row} (hrow : (c.create s).1 = .ok row) :
    row = c.row (c.nextId t) ∧ (c.create s).2.Holds (c.add t) := by
  rcases create_cases h hw c with ⟨e, -, hc⟩ | ⟨s', -, hc, -, -, -, h'⟩ <;> rw [hc] at hrow ⊢ <;> cases hrow
  exact ⟨rfl, h'.holds⟩

theorem create_error_unchanged (h : s.Holds t) (hw : t.WF) {c : Call} {e : Error}
    (he : (c.create s).1 = .error e) : (c.create s).2 = s := by
  rcases create_cases h hw c with ⟨e', -, hc⟩ | ⟨s', -, hc, -⟩ <;> rw [hc] at he ⊢
  cases he

/-- Where the lock is whole and the database may be written, a call fails for the first rule that it breaks. -/
theorem create_refused (h : s.Holds t) (hw : t.WF) (hp : s.pool.poisoned = false)
    (hwritable : s.pool.home.writable = true) {c : Call} {e : Error} (he : (c.create s).1 = .error e) :
    ∃ rule, e = .constraint rule ∧ FirstBroken t c rule := by
  cases hf : c.fault? t with
  | some rule =>
    rw [create_of_insert (insert_of_fault_eq_some h hp hwritable hf)] at he
    cases he
    exact ⟨rule, rfl, fault?_eq_some.1 hf⟩
  | none =>
    obtain ⟨row, hrow⟩ := (insert_ok_iff_create h hw c).1 ((insert_succeeds_iff h c).2 ⟨hp, hwritable, hf⟩)
    rw [he] at hrow
    cases hrow

/-- Any call on a migrated ledger, at any moment of any history, with texts that the engine takes: they have at
most 10^9 bytes. -/
theorem insertion_decided {db : Database} (reachable : db.Reachable) (migrated : s.database = .ok db)
    (c : Call) : ∃ t, s.Holds t ∧ t.WF ∧ Decided c s t := by
  obtain ⟨t, rfl, hwf⟩ := reachable.wf
  have h : s.Holds t := migrated
  have hinserts := insert_ok_iff_create h hwf c
  -- the other parts come from what an insertion and its failure do to one session
  refine ⟨t, h, hwf, ?succeeds, hinserts, fun _ => create_ok h hwf, ?refused, ?poisoned, ?readOnly, ?unchanged,
    ?next⟩
  case succeeds => rw [← hinserts, insert_succeeds_iff h, not_breaks_iff]
  case refused =>
    intro hp hw e he
    obtain ⟨rule, rfl, hfirst⟩ := create_refused h hwf hp hw he
    exact ⟨rule, rfl, rfl, hfirst⟩
  case poisoned =>
    intro hp
    rw [create_of_insert (insert_poisoned h hp c)]
  case readOnly =>
    intro hp hw
    rw [create_of_insert (insert_readOnly h hp hw c)]
  case unchanged =>
    intro e he
    rw [create_error_unchanged h hwf he]
    exact ⟨rfl, h⟩
  case next =>
    intro e he later row hrow
    rw [create_error_unchanged h hwf he] at hrow
    rw [(create_ok h hwf hrow).1, row_id]

/-- An expense that breaks all the rules of its table, on a ledger without users. -/
theorem insertion_decided_threeRules :
    Database.fresh.Reachable ∧ (Session.inMemory Files.Directory.empty).database = .ok .fresh ∧
      ∃ t, (Session.inMemory Files.Directory.empty).Holds t ∧ t.WF ∧
        Decided (.expense ⟨.nan, some (String.ofList (List.replicate 201 'x')), 1⟩ "1")
          (Session.inMemory Files.Directory.empty) t :=
  ⟨.fresh, rfl, insertion_decided .fresh rfl _⟩

/-- A ledger that may only be read refuses a user who breaks no rule. -/
theorem unwritable_refused :
    ∃ disk s, Session.openPath disk (Path.ofString "file:a.db?mode=ro") = (.ok s, disk) ∧
      s.pool.poisoned = false ∧ Database.fresh.Reachable ∧ s.database = .ok .fresh ∧
      storedLength "ada" ≤ usernameLimit ∧
      (∀ t, s.Holds t → ∀ r ∈ t.users.rows, Utf8.encode r.username ≠ Utf8.encode "ada") ∧
      (create (.user ⟨"ada"⟩ "1") s).1 = .error (.connection .readOnly) := by
  let disk : Disk := Files.Directory.empty.put ["a.db"] (.file (.database .fresh))
  have hentry : Files.Directory.entry? disk ["a.db"] = some (.file (.database .fresh)) :=
    Files.Directory.entry?_put (by decide) _
  let s : Session := ⟨disk, ⟨.file ["a.db"] false, false⟩⟩
  have hdatabase : s.database = .ok .fresh := Disk.database_eq_ok.2 ⟨_, hentry, rfl, rfl⟩
  refine ⟨disk, s, ?_, rfl, .fresh, hdatabase, by decide, ?_, ?_⟩
  · exact Session.openPath_readOnly rfl hentry
  · intro t ht r hr
    obtain rfl : Tables.empty = t := by simpa [Session.Holds, hdatabase, Database.fresh] using ht
    cases hr
  · rw [create_eq, insert_eq (t := .empty) hdatabase]
    rfl

end

end Call

end ShapeLedger.Ledger
