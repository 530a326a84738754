/-
What the lines of a settings document do to the tables on their way. A change edits one key of a table and looks
at no other, and a way makes such a change of the change at its end. So a table without some of its keys shows
the same change where the key of the change is kept, and none where it is not.
-/
import ShapeLedger.Toml.Document

namespace ShapeLedger.Toml

/-! ## Edits of one key -/

/-- What is done to the item of a key. -/
inductive Edit where
  | keep
  | put (item : Item)
  | drop

namespace Members
variable {P : String → Bool} {members : Members} {key k : String} {item : Item} {e : Edit}

/-- The members whose keys have a property. -/
def restrict (P : String → Bool) (members : Members) : Members := members.filter (fun m => P m.1)

/-- A new key comes last. -/
def put (key : String) (item : Item) (members : Members) : Members :=
  match members.lookup key with
  | none => members ++ [(key, item)]
  | some _ => members.set key item

def edit (key : String) (members : Members) : Edit → Members
  | .keep => members
  | .put item => members.put key item
  | .drop => members.without key

theorem lookup_restrict (h : P key = true) (members : Members) :
    (members.restrict P).lookup key = members.lookup key := by
  induction members with
  | nil => rfl
  | cons m members ih =>
    obtain ⟨k, i⟩ := m
    by_cases hk : key = k
    · subst hk
      simp [restrict, h]
    · have hne : (key == k) = false := by simpa using hk
      rw [List.lookup_cons, hne]
      cases hP : P k with
      | true => simpa [restrict, hP, List.lookup_cons, hne] using ih
      | false => simpa [restrict, hP] using ih

theorem restrict_set (members : Members) :
    (members.set key item).restrict P = (members.restrict P).set key item := by
  unfold restrict set
  rw [List.filter_map]
  congr 1
  refine List.filter_congr (fun m _ => ?_)
  by_cases hm : m.1 = key <;> simp [hm]

/-- Where the key is kept, the edit is the same. -/
theorem restrict_edit (h : P key = true) (members : Members) (e : Edit) :
    (members.edit key e).restrict P = (members.restrict P).edit key e := by
  cases e with
  | keep => rfl
  | put item =>
    simp only [edit, put, lookup_restrict h]
    cases members.lookup key with
    | none => simp [restrict, h]
    | some i => exact restrict_set members
  | drop =>
    simp only [edit, restrict, without, List.filter_filter]
    exact List.filter_congr (fun m _ => Bool.and_comm _ _)

/-- Where the key is not kept, there is no edit. -/
theorem restrict_edit_of_false (h : P key = false) (members : Members) (e : Edit) :
    (members.edit key e).restrict P = members.restrict P := by
  have hne {m : String × Item} (hm : m ∈ members.restrict P) : m.1 ≠ key := by
    rintro rfl
    rw [(List.mem_filter.1 hm).2] at h
    cases h
  cases e with
  | keep => rfl
  | put item =>
    simp only [edit, put]
    cases members.lookup key with
    | none => simp [restrict, h]
    | some i =>
      simp only [restrict_set]
      refine (List.map_congr_left (fun m hm => ?_)).trans (List.map_id _)
      rw [if_neg (hne hm), id]
  | drop =>
    simp only [edit, restrict, without, List.filter_filter]
    refine List.filter_congr (fun m _ => ?_)
    by_cases hm : m.1 = key <;> simp [hm, h]

/-! ### Keys and their items -/

theorem lookup_append (hk : members.lookup key = none) :
    (members ++ [(key, item)]).lookup k = if k = key then some item else members.lookup k := by
  induction members with
  | nil =>
    by_cases h : k = key
    · subst h
      simp
    · simp [h]
  | cons m members ih =>
    obtain ⟨l, i⟩ := m
    rw [List.lookup_cons] at hk
    by_cases hl : key = l
    · subst hl
      simp at hk
    · have hne : (key == l) = false := by simpa using hl
      rw [hne] at hk
      rw [List.cons_append, List.lookup_cons, List.lookup_cons]
      by_cases hkl : k = l
      · subst hkl
        simp [Ne.symm hl]
      · have hne' : (k == l) = false := by simpa using hkl
        rw [hne']
        exact ih hk

theorem lookup_set (members : Members) : (members.set key item).lookup k =
    if k = key then (members.lookup key).map (fun _ => item) else members.lookup k := by
  induction members with
  | nil => simp [set]
  | cons m members ih =>
    obtain ⟨l, i⟩ := m
    have hcons : Members.set key item ((l, i) :: members) =
        (if l = key then (key, item) else (l, i)) :: Members.set key item members := rfl
    rw [hcons]
    by_cases hl : l = key
    · subst hl
      rw [if_pos rfl, List.lookup_cons, List.lookup_cons, List.lookup_cons]
      by_cases hk : k = l
      · subst hk
        simp
      · have hne : (k == l) = false := by simpa using hk
        rw [hne, if_neg hk]
        rwa [if_neg hk] at ih
    · have hne : (key == l) = false := by simpa using Ne.symm hl
      rw [if_neg hl, List.lookup_cons, List.lookup_cons, List.lookup_cons, hne]
      by_cases hk : k = l
      · subst hk
        simp [hl]
      · have hne' : (k == l) = false := by simpa using hk
        rw [hne']
        exact ih

theorem lookup_without (members : Members) :
    (members.without key).lookup k = if k = key then none else members.lookup k := by
  by_cases hk : k = key
  · subst hk
    rw [if_pos rfl, List.lookup_eq_none_iff]
    intro m hm
    have hne : m.1 ≠ k := by simpa using (List.mem_filter.1 hm).2
    simpa using hne.symm
  · rw [if_neg hk]
    exact lookup_restrict (P := (· ≠ key)) (by simpa using hk) members

/-- An edit changes the item of its key, and no other. -/
theorem lookup_edit (members : Members) (e : Edit) : (members.edit key e).lookup k =
    if k = key then (match e with | .keep => members.lookup key | .put item => some item | .drop => none)
    else members.lookup k := by
  cases e with
  | keep =>
    by_cases hk : k = key
    · rw [if_pos hk, hk]
      rfl
    · rw [if_neg hk]
      rfl
  | put item =>
    show (members.put key item).lookup k = if k = key then some item else members.lookup k
    unfold put
    cases h : members.lookup key with
    | none => exact lookup_append h
    | some i => exact (lookup_set members).trans (by rw [h]; rfl)
  | drop => exact lookup_without members

/-- An edit does not repeat a key. -/
theorem nodup_edit (h : (members.map Prod.fst).Nodup) (key : String) (e : Edit) :
    ((members.edit key e).map Prod.fst).Nodup := by
  cases e with
  | keep => exact h
  | put item =>
    simp only [edit, put]
    cases hkey : members.lookup key with
    | none =>
      simp only [List.map_append, List.map_cons, List.map_nil]
      refine List.nodup_append.2 ⟨h, by simp, ?_⟩
      intro k hk l hl
      rw [List.mem_singleton.1 hl]
      rintro rfl
      obtain ⟨m, hm, rfl⟩ := List.mem_map.1 hk
      exact absurd (List.lookup_eq_none_iff.1 hkey m hm) (by simp)
    | some i =>
      have hkeys : (members.set key item).map Prod.fst = members.map Prod.fst := by
        unfold set
        rw [List.map_map]
        refine List.map_congr_left (fun m _ => ?_)
        by_cases hm : m.1 = key <;> simp [hm]
      simpa only [hkeys] using h
  | drop => exact h.sublist (List.filter_sublist.map _)

end Members

/-! ## Changes at one key -/

section
variable {α β : Type} {key x : String} {made here : Origin} {before rest : List String}
  {f : Origin → Option Item → Option (Edit × α)} {P : String → Bool}

/-- A change of a table that looks at the item of one key, and edits it. -/
def atKey (key : String) (f : Origin → Option Item → Option (Edit × α)) (origin : Origin) (members : Members) :
    Option (Members × α) :=
  (f origin (members.lookup key)).map (fun r => (members.edit key r.1, r.2))

theorem restrict_atKey (h : P key = true) (origin : Origin) (members : Members) :
    atKey key f origin (members.restrict P) =
      (atKey key f origin members).map (fun r => (r.1.restrict P, r.2)) := by
  unfold atKey
  rw [Members.lookup_restrict h, Option.map_map]
  congr 1
  funext r
  exact congrArg (·, r.2) (Members.restrict_edit h members r.1).symm

/-- A table without the key does not show the change. -/
theorem restrict_atKey_of_false (h : P key = false) {origin : Origin} {members : Members} {r : Members × α}
    (hr : atKey key f origin members = some r) : r.1.restrict P = members.restrict P := by
  obtain ⟨e, -, rfl⟩ := Option.map_eq_some_iff.1 hr
  exact Members.restrict_edit_of_false h members e.1

/-- What a way does to the item of its first key. -/
def reach (made : Origin) (rest : List String) (change : Origin → Members → Option (Members × α)) :
    Option Item → Option (Edit × α)
  | none => (Members.within made made [] rest change).map (fun r => (.put (.table made r.1), r.2))
  | some (.table origin inner) =>
    if origin = .braces && made ≠ .dotted || made = .dotted && !origin.isImplicit then none
    else (Members.within made origin inner rest change).map (fun r => (.put (.table origin r.1), r.2))
  | some (.tables elements) =>
    match elements.reverse with
    | [] => none
    | last :: before =>
      (Members.within made .header last rest change).map
        (fun r => (.put (.tables (r.1 :: before).reverse), r.2))
  | some _ => none

theorem within_nil (made here : Origin) (members : Members) (change : Origin → Members → Option (Members × α)) :
    members.within made here [] change = change here members := by rw [Members.within]

theorem within_cons (made here : Origin) (members : Members)
    (change : Origin → Members → Option (Members × α)) :
    members.within made here (key :: rest) change =
      atKey key (fun _ => reach made rest change) here members := by
  simp only [Members.within, atKey]
  cases h : members.lookup key with
  | none =>
    simp only [reach, Option.map_map, Function.comp_def, Members.edit, Members.put, h]
    exact Option.map_eq_bind.symm
  | some item =>
    cases item with
    | table origin inner =>
      simp only [reach]
      split
      · rfl
      · simp only [Option.map_map, Function.comp_def, Members.edit, Members.put, h]
        exact Option.map_eq_bind.symm
    | tables elements =>
      simp only [reach]
      cases elements.reverse with
      | nil => rfl
      | cons last before =>
        simp only [Option.map_map, Function.comp_def, Members.edit, Members.put, h]
        exact Option.map_eq_bind.symm
    | _ => rfl

/-- A change at the end of a way is a change at the first key of the whole. -/
theorem within_atKey (hpath : before ++ [key] = x :: rest) (made : Origin)
    (f : Origin → Option Item → Option (Edit × α)) :
    ∃ g, ∀ origin members, Members.within made origin members before (atKey key f) = atKey x g origin members := by
  cases before with
  | nil =>
    obtain ⟨rfl, -⟩ := List.cons.inj hpath
    exact ⟨f, fun origin members => within_nil made origin members _⟩
  | cons y before =>
    obtain ⟨rfl, -⟩ := List.cons.inj hpath
    exact ⟨_, fun origin members => within_cons made origin members _⟩

end

/-! ## Fields of tables -/

section
variable {α : Type} {known : String → String → Bool} {t x key : String} {made here : Origin}
  {before rest path : List String} {f : Origin → Option Item → Option (Edit × α)} {root : Members}

variable (known) in
/-- An item with the fields erased, where it is the table of a key. -/
def eraseItem (t : String) : Item → Item
  | .table origin members => .table origin (Members.restrict (fun k => !known t k) members)
  | i => i

variable (known) in
def eraseFields (root : Members) : Members := root.map (fun m => (m.1, eraseItem known m.1 m.2))

variable (known) in
def Edit.erase (t : String) : Edit → Edit
  | .put item => .put (eraseItem known t item)
  | e => e

theorem lookup_eraseFields (root : Members) (t : String) :
    (eraseFields known root).lookup t = (root.lookup t).map (eraseItem known t) := by
  induction root with
  | nil => rfl
  | cons m root ih =>
    obtain ⟨k, i⟩ := m
    have hcons : eraseFields known ((k, i) :: root) = (k, eraseItem known k i) :: eraseFields known root := rfl
    rw [hcons, List.lookup_cons, List.lookup_cons]
    by_cases hk : t = k
    · subst hk
      simp
    · have hne : (t == k) = false := by simpa using hk
      rw [hne]
      exact ih

theorem edit_eraseFields (root : Members) (t : String) (e : Edit) :
    (eraseFields known root).edit t (e.erase known t) = eraseFields known (root.edit t e) := by
  cases e with
  | keep => rfl
  | put item =>
    show (eraseFields known root).put t (eraseItem known t item) = eraseFields known (root.put t item)
    unfold Members.put
    rw [lookup_eraseFields]
    cases root.lookup t with
    | none => simp [eraseFields]
    | some i =>
      show Members.set t (eraseItem known t item) (eraseFields known root) =
        eraseFields known (Members.set t item root)
      simp only [Members.set, eraseFields, List.map_map]
      refine List.map_congr_left (fun m _ => ?_)
      by_cases hm : m.1 = t <;> simp [hm]
  | drop =>
    show Members.without t (eraseFields known root) = eraseFields known (Members.without t root)
    unfold Members.without eraseFields
    rw [List.filter_map]
    rfl

/-- A change of one table without its fields, from the change of its item. -/
theorem eraseFields_atKey {β : Type} (f' : Origin → Option Item → Option (Edit × β))
    (f : Origin → Option Item → Option (Edit × α)) (g : α → β) (here : Origin) (root : Members)
    (hf : ∀ i, f' here (i.map (eraseItem known t)) = (f here i).map (fun r => (r.1.erase known t, g r.2))) :
    atKey t f' here (eraseFields known root) =
      (atKey t f here root).map (fun r => (eraseFields known r.1, g r.2)) := by
  unfold atKey
  rw [lookup_eraseFields, hf, Option.map_map, Option.map_map]
  congr 1
  funext r
  exact congrArg (·, g r.2) (edit_eraseFields root t r.1)

/-- A way into a table, past its fields, is the same without them. -/
theorem eraseFields_within (root : Members) (hpath : before ++ [key] = x :: rest) (hx : known t x = false) :
    (eraseFields known root).within made here (t :: before) (atKey key f) =
      (root.within made here (t :: before) (atKey key f)).map (fun r => (eraseFields known r.1, r.2)) := by
  obtain ⟨g, hg⟩ := within_atKey hpath made f
  have hinner (origin : Origin) (members : Members) :
      Members.within made origin (members.restrict (fun k => !known t k)) before (atKey key f) =
        (Members.within made origin members before (atKey key f)).map
          (fun r => (r.1.restrict (fun k => !known t k), r.2)) := by
    rw [hg, hg]
    exact restrict_atKey (by simp [hx]) origin members
  rw [within_cons, within_cons]
  refine eraseFields_atKey _ _ id here root (fun i => ?_)
  cases i with
  | none =>
    -- a table that is made on the way has no fields
    have hnil := hinner made []
    rw [show Members.restrict (fun k => !known t k) [] = [] from rfl] at hnil
    simp only [Option.map_none, reach]
    rw [Option.map_map]
    refine (congrArg (Option.map _) hnil).trans ?_
    rw [Option.map_map]
    rfl
  | some item =>
    cases item with
    | table origin inner =>
      simp only [Option.map_some, eraseItem, reach]
      split
      · rfl
      · rw [hinner, Option.map_map, Option.map_map]
        rfl
    | tables elements =>
      simp only [Option.map_some, eraseItem, reach]
      cases elements.reverse with
      | nil => rfl
      | cons last before =>
        simp only [Option.map_map]
        rfl
    | _ => rfl

variable (known) in
/-- The fields of the table of a key, which is empty where it is missing, if it is a table. -/
def itemFields (t : String) : Option Item → Option Members
  | none => some []
  | some (.table _ members) => some (Members.restrict (known t) members)
  | some _ => none

variable (known) in
def fieldsAt (t : String) (root : Members) : Option Members := itemFields known t (root.lookup t)

theorem fieldsAt_edit_of_ne {s : String} (h : t ≠ s) (e : Edit) :
    fieldsAt known t (root.edit s e) = fieldsAt known t root := by
  unfold fieldsAt
  rw [Members.lookup_edit, if_neg h]

/-- A way into a table, past its fields, leaves all fields alone. -/
theorem fieldsAt_within {s : String} (hpath : before ++ [key] = x :: rest) (hx : known s x = false)
    {r : Members × α} (hr : root.within made here (s :: before) (atKey key f) = some r) (t : String) :
    fieldsAt known t r.1 = fieldsAt known t root := by
  obtain ⟨g, hg⟩ := within_atKey hpath made f
  have hinner {origin : Origin} {members : Members} {r : Members × α}
      (hr : Members.within made origin members before (atKey key f) = some r) :
      r.1.restrict (known s) = members.restrict (known s) := by
    rw [hg] at hr
    exact restrict_atKey_of_false hx hr
  -- past the first name only that table is edited, and in it only what is behind a key that is no field
  rw [within_cons] at hr
  obtain ⟨⟨e, a⟩, he, rfl⟩ := Option.map_eq_some_iff.1 hr
  by_cases hts : t = s
  · subst hts
    unfold fieldsAt
    rw [Members.lookup_edit, if_pos rfl]
    cases hlookup : root.lookup t with
    | none =>
      rw [hlookup] at he
      obtain ⟨q, hq, hput⟩ := Option.map_eq_some_iff.1 he
      cases hput
      exact congrArg some (hinner hq)
    | some item =>
      rw [hlookup] at he
      cases item with
      | table origin inner =>
        simp only [reach] at he
        split at he
        · cases he
        · obtain ⟨q, hq, hput⟩ := Option.map_eq_some_iff.1 he
          cases hput
          exact congrArg some (hinner hq)
      | tables elements =>
        simp only [reach] at he
        -- the last element is the one that is reached, and elements have no fields
        cases hlast : elements.reverse with
        | nil =>
          rw [hlast] at he
          cases he
        | cons last before =>
          rw [hlast] at he
          obtain ⟨q, hq, hput⟩ := Option.map_eq_some_iff.1 he
          cases hput
          rfl
      | _ => cases he
  · exact fieldsAt_edit_of_ne hts e

end

end ShapeLedger.Toml
