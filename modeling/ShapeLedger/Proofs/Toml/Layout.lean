/-
Documents in which some lines set fields, keys of tables that a program knows, and the other lines are anything
that keeps away from them. Such a document builds whatever the other lines build without the fields, and its
tables have the fields as their lines set them, in that order.

Every other line does the same to a draft with its fields and to the draft without them, so the whole document
builds wherever the other lines build: a field only has to be new to its table, which is so if no field is set
twice.
-/
import Mathlib.Data.List.Nodup
import ShapeLedger.Proofs.Toml.Edits
import ShapeLedger.Proofs.Toml.Values

namespace ShapeLedger.Toml

open Grammar

/-! ## Drafts -/

namespace Draft
variable {d d' : Draft} {path before rest : List String} {key : String} {item : Item} {root : Members}

/-- The current table takes its place: a new key, or one more element of an array. -/
def closing (inArray : Bool) (current : Members) : Option Item → Option (Edit × Unit)
  | none => if inArray then none else some (.put (.table .header current), ())
  | some (.tables elements) => if inArray then some (.put (.tables (elements ++ [current])), ()) else none
  | some _ => none

def starting : Option Item → Option (Edit × Members)
  | none => some (.keep, [])
  | some (.table .passed inner) => some (.drop, inner)
  | some _ => none

def adding : Option Item → Option (Edit × Unit)
  | none => some (.put (.tables []), ())
  | some (.tables _) => some (.keep, ())
  | some _ => none

/-- A key is set in a table that is open to it; `direct` says that no path leads to the table. -/
def assigning (direct : Bool) (item : Item) (origin : Origin) : Option Item → Option (Edit × Unit)
  | none => if decide (origin = .dotted) = direct then none else some (.put item, ())
  | some _ => none

theorem split?_append (before : List String) (key : String) : split? (before ++ [key]) = some (before, key) := by
  simp [split?]

theorem close?_eq (h : d.path = before ++ [key]) : d.close? =
    (d.root.within .passed .header before (atKey key (fun _ => closing d.inArray d.current))).map Prod.fst := by
  rw [close?, h, split?_append]
  refine Option.map_eq_bind.symm.trans (congrArg
    (fun change => (d.root.within .passed .header before change).map Prod.fst) (funext₂ fun _ members => ?_))
  unfold atKey
  cases d.inArray with
  | true =>
    cases hkey : members.lookup key with
    | none => rfl
    | some i => cases i <;> simp [closing, Members.edit, Members.put, hkey]
  | false =>
    cases hkey : members.lookup key with
    | none => simp [closing, Members.edit, Members.put, hkey]
    | some i => cases i <;> rfl

theorem close?_nil (h : d.path = []) : d.close? = some d.current := by
  rw [close?, h]
  rfl

/-- Closes the current table and goes to another one, which begins with some members. -/
def start? {α : Type} (d : Draft) (before : List String) (key : String) (inArray : Bool)
    (f : Option Item → Option (Edit × α)) (first : α → Members) : Option Draft :=
  d.close?.bind (fun root => (root.within .passed .header before (atKey key (fun _ => f))).map
    (fun r => ⟨r.1, before ++ [key], inArray, first r.2⟩))

theorem start?_path {α : Type} {inArray : Bool} {f : Option Item → Option (Edit × α)} {first : α → Members}
    (h : d.start? before key inArray f first = some d') : d'.path = before ++ [key] := by
  obtain ⟨root, -, h⟩ := Option.bind_eq_some_iff.1 h
  obtain ⟨r, -, rfl⟩ := Option.map_eq_some_iff.1 h
  rfl

theorem startTable?_nil (d : Draft) : d.startTable? [] = none := by
  rw [startTable?]
  cases d.close? <;> rfl

theorem startElement?_nil (d : Draft) : d.startElement? [] = none := by
  rw [startElement?]
  cases d.close? <;> rfl

theorem startTable?_eq (d : Draft) (before : List String) (key : String) :
    d.startTable? (before ++ [key]) = d.start? before key false starting id := by
  rw [startTable?, start?, split?_append]
  refine congrArg _ (funext fun root => Option.map_eq_bind.symm.trans (congrArg
    (fun change => (root.within .passed .header before change).map
      (fun r => (⟨r.1, before ++ [key], false, r.2⟩ : Draft))) (funext₂ fun _ members => ?_)))
  unfold atKey
  cases members.lookup key with
  | none => rfl
  | some i =>
    cases i with
    | table origin inner => cases origin <;> rfl
    | _ => rfl

theorem startElement?_eq (d : Draft) (before : List String) (key : String) :
    d.startElement? (before ++ [key]) = d.start? before key true adding (fun _ => []) := by
  rw [startElement?, start?, split?_append]
  refine congrArg _ (funext fun root => Option.map_eq_bind.symm.trans (congrArg
    (fun change => (root.within .passed .header before change).map
      (fun r => (⟨r.1, before ++ [key], true, []⟩ : Draft))) (funext₂ fun _ members => ?_)))
  unfold atKey
  cases hkey : members.lookup key with
  | none => simp [adding, Members.edit, Members.put, hkey]
  | some i => cases i <;> rfl

theorem assign?_eq (d : Draft) (path : List String) (key : String) (item : Item) : d.assign? path key item =
    (d.current.within .dotted .header path (atKey key (assigning path.isEmpty item))).map
      (fun r => { d with current := r.1 }) := by
  have hchange : (fun (origin : Origin) (inner : Members) =>
      if decide (origin = .dotted) = path.isEmpty then none
      else if (inner.lookup key).isSome then none
      else some (inner ++ [(key, item)], ())) = atKey key (assigning path.isEmpty item) := by
    funext origin members
    unfold atKey
    cases hkey : members.lookup key with
    | none =>
      simp only [assigning]
      split
      · rfl
      · simp [Members.edit, Members.put, hkey]
    | some i => simp [assigning]
  rw [assign?, Members.assign, ← hchange]
  simp only [Option.bind_eq_bind, Option.pure_def, Option.bind_assoc, Option.bind_some]
  exact Option.map_eq_bind.symm

end Draft

/-! ## Lines that are no fields -/

section
variable {known : String → String → Bool} {d d' : Draft} {t x key : String} {path rest : List String}
  {item : Item} {root : Members}

variable (known) in
/-- A path that does not lead to a field or through one. -/
def Foreign (path : List String) : Prop := ∀ t key, known t key = true → ¬ [t, key] <+: path

variable (known) in
/-- A path that leads to no table with fields, either. -/
def Apart (path : List String) : Prop := Foreign known path ∧ ∀ t key, known t key = true → path ≠ [t]

theorem Foreign.unknown (h : Foreign known (t :: x :: rest)) : known t x = false :=
  Bool.eq_false_iff.2 (fun hx => h t x hx ⟨rest, rfl⟩)

theorem Foreign.exists_unknown {before : List String} (h : Foreign known (t :: (before ++ [key]))) :
    ∃ x rest, before ++ [key] = x :: rest ∧ known t x = false := by
  obtain ⟨x, rest, hrest⟩ : ∃ x rest, before ++ [key] = x :: rest := List.exists_cons_of_ne_nil (by simp)
  rw [hrest] at h
  exact ⟨x, rest, hrest, h.unknown⟩

theorem foreign_singleton (t : String) : Foreign known [t] := fun s k _ h => by
  have := h.length_le
  simp at this

theorem apart_singleton (h : ∀ k, known t k = false) : Apart known [t] := by
  refine ⟨foreign_singleton t, fun s k hk he => ?_⟩
  obtain rfl : t = s := by simpa using he
  rw [h k] at hk
  cases hk

theorem apart_cons_cons (h : known t x = false) (rest : List String) : Apart known (t :: x :: rest) := by
  refine ⟨fun s k hk hprefix => ?_, fun s k _ he => by cases he⟩
  obtain ⟨u, hu⟩ := hprefix
  cases hu
  rw [h] at hk
  cases hk

theorem Apart.unknown (h : Apart known [t]) (key : String) : known t key = false :=
  Bool.eq_false_iff.2 (fun hx => h.2 t key hx rfl)

theorem restrict_of_apart (h : Apart known [t]) (members : Members) :
    members.restrict (fun k => !known t k) = members :=
  List.filter_eq_self.2 (fun m _ => by simp [h.unknown m.1])

theorem eraseItem_of_apart (h : Apart known [t]) (item : Item) : eraseItem known t item = item := by
  cases item with
  | table origin members => exact congrArg _ (restrict_of_apart h members)
  | _ => rfl

variable (known) in
/-- The table that a path leads to, without its fields. -/
def eraseAt : List String → Members → Members
  | [], members => eraseFields known members
  | [t], members => members.restrict (fun k => !known t k)
  | _, members => members

namespace Draft

variable (known) in
def erase (d : Draft) : Draft := ⟨eraseFields known d.root, d.path, d.inArray, eraseAt known d.path d.current⟩

variable (known) in
/-- A draft whose lines so far have kept away from fields. -/
structure Settled (d : Draft) : Prop where
  foreign : Foreign known d.path
  apart : d.inArray = true → Apart known d.path

theorem eraseAt_of_between (t : String) (before : List String) (key : String) (members : Members) :
    eraseAt known (t :: (before ++ [key])) members = members := by cases before <;> rfl

theorem close?_erase (h : d.Settled known) : (d.erase known).close? = d.close?.map (eraseFields known) := by
  obtain ⟨root, path, inArray, current⟩ := d
  obtain rfl | ⟨before, key, rfl⟩ := path.eq_nil_or_concat'
  · rw [close?_nil rfl, close?_nil rfl]
    rfl
  · rw [close?_eq rfl, close?_eq rfl]
    cases before with
    | nil =>
      -- the only tables with fields are at the top, and no element of an array is one of them
      have hclose (i : Option Item) :
          closing inArray (Members.restrict (fun k => !known key k) current) (i.map (eraseItem known key)) =
            (closing inArray current i).map (fun r => (r.1.erase known key, id r.2)) := by
        cases hin : inArray with
        | true =>
          rw [restrict_of_apart (h.apart hin)]
          cases i with
          | none => rfl
          | some i => cases i <;> rfl
        | false =>
          cases i with
          | none => rfl
          | some i => cases i <;> rfl
      have hchange :=
        eraseFields_atKey (fun _ => closing inArray (Members.restrict (fun k => !known key k) current))
          (fun _ => closing inArray current) id .header root hclose
      rw [within_nil, within_nil]
      refine (congrArg (Option.map Prod.fst) hchange).trans ?_
      rw [Option.map_map, Option.map_map]
      rfl
    | cons t before =>
      obtain ⟨x, rest, hrest, hx⟩ := Foreign.exists_unknown h.foreign
      have hcurrent : eraseAt known (t :: (before ++ [key])) current = current :=
        eraseAt_of_between t before key current
      refine (congrArg (Option.map Prod.fst) (eraseFields_within root hrest hx)).trans ?_
      rw [Option.map_map, Option.map_map]
      exact congrArg (fun c => ((root.within .passed .header (t :: before)
        (atKey key (fun _ => closing inArray c))).map (fun r => eraseFields known r.1))) hcurrent

/-- Another table is started alike without the fields, where it begins with the same members but for them. -/
theorem start?_erase {α : Type} {before : List String} {inArray : Bool} {f : Option Item → Option (Edit × α)}
    {first : α → Members} (h : d.Settled known) (hpath : Foreign known (before ++ [key])) (g : α → α)
    (hf : ∀ i, f (i.map (eraseItem known key)) = (f i).map (fun r => (r.1.erase known key, g r.2)))
    (hfirst : ∀ a, first (g a) = Members.restrict (fun k => !known key k) (first a)) :
    (d.erase known).start? before key inArray f first =
      (d.start? before key inArray f first).map (erase known) := by
  -- the draft is closed first, with and without the fields; then the new table is looked up in what came of it
  unfold start?
  rw [close?_erase h]
  cases d.close? with
  | none => rfl
  | some root =>
    simp only [Option.map_some, Option.bind_some]
    cases before with
    | nil =>
      rw [within_nil, within_nil, eraseFields_atKey (fun _ => f) (fun _ => f) g .header root hf,
        Option.map_map, Option.map_map]
      congr 1
      funext r
      exact congrArg (fun m => (⟨eraseFields known r.1, [key], inArray, m⟩ : Draft)) (hfirst r.2)
    | cons t before =>
      -- a way that goes on below the first table ends at none with fields
      obtain ⟨x, rest, hrest, hx⟩ := hpath.exists_unknown
      rw [eraseFields_within root hrest hx, Option.map_map, Option.map_map]
      congr 1
      funext r
      exact congrArg (fun m => (⟨eraseFields known r.1, t :: (before ++ [key]), inArray, m⟩ : Draft))
        (eraseAt_of_between t before key (first r.2)).symm

theorem startTable?_erase (h : d.Settled known) (hpath : Foreign known path) :
    (d.erase known).startTable? path = (d.startTable? path).map (erase known) := by
  obtain rfl | ⟨before, key, rfl⟩ := path.eq_nil_or_concat'
  · rw [startTable?_nil, startTable?_nil]
    rfl
  · rw [startTable?_eq, startTable?_eq]
    refine start?_erase h hpath (Members.restrict (fun k => !known key k)) (fun i => ?_) (fun _ => rfl)
    cases i with
    | none => rfl
    | some i =>
      cases i with
      | table origin inner => cases origin <;> rfl
      | _ => rfl

theorem startElement?_erase (h : d.Settled known) (hpath : Foreign known path) :
    (d.erase known).startElement? path = (d.startElement? path).map (erase known) := by
  obtain rfl | ⟨before, key, rfl⟩ := path.eq_nil_or_concat'
  · rw [startElement?_nil, startElement?_nil]
    rfl
  · rw [startElement?_eq, startElement?_eq]
    refine start?_erase h hpath id (fun i => ?_) (fun _ => rfl)
    cases i with
    | none => rfl
    | some i => cases i <;> rfl

theorem assign?_erase (h : Apart known (d.path ++ (path ++ [key]))) :
    (d.erase known).assign? path key item = (d.assign? path key item).map (erase known) := by
  obtain ⟨root, scope, inArray, current⟩ := d
  rw [assign?_eq, assign?_eq]
  -- at the top, in a table of the top, or further down, where there are no fields at all
  match scope with
  | [] =>
    rw [List.nil_append] at h
    match path with
    | [] =>
      have hassign (i : Option Item) : assigning true item .header (i.map (eraseItem known key)) =
          (assigning true item .header i).map (fun r => (r.1.erase known key, id r.2)) := by
        cases i with
        | none => simp [assigning, Edit.erase, eraseItem_of_apart h]
        | some i => rfl
      simp only [within_nil]
      refine (congrArg (Option.map _) (eraseFields_atKey _ _ id .header current hassign)).trans ?_
      rw [Option.map_map, Option.map_map]
      rfl
    | t :: before =>
      obtain ⟨x, rest, hrest, hx⟩ := Foreign.exists_unknown h.1
      refine (congrArg (Option.map _) (eraseFields_within current hrest hx)).trans ?_
      rw [Option.map_map, Option.map_map]
      rfl
  | [t] =>
    obtain ⟨x, rest, hrest, hx⟩ := Foreign.exists_unknown h.1
    obtain ⟨g, hg⟩ := within_atKey hrest .dotted (assigning path.isEmpty item)
    rw [hg, hg]
    refine (congrArg (Option.map _) (restrict_atKey (P := fun k => !known t k) (by simp [hx]) _ current)).trans ?_
    rw [Option.map_map, Option.map_map]
    rfl
  | t :: x :: rest =>
    rw [Option.map_map]
    rfl

/-! ### Fields of drafts -/

/-- The top table, as far as it has been closed. -/
def top (d : Draft) : Members :=
  match d.path with
  | [] => d.current
  | _ => d.root

variable (known) in
/-- The fields of a table so far, if it is one. -/
def fieldsOf (t : String) (d : Draft) : Option Members :=
  match d.path with
  | [] => fieldsAt known t d.current
  | [s] => if t = s then some (d.current.restrict (known t)) else fieldsAt known t d.root
  | _ => fieldsAt known t d.root

theorem fieldsOf_between (t s : String) (before : List String) (key : String) (root current : Members)
    (inArray : Bool) :
    fieldsOf known t ⟨root, s :: (before ++ [key]), inArray, current⟩ = fieldsAt known t root := by
  cases before <;> rfl

theorem nodup_within {α : Type} {made here : Origin} {before : List String} {members : Members}
    {f : Origin → Option Item → Option (Edit × α)} {r : Members × α} (h : (members.map Prod.fst).Nodup)
    (hr : members.within made here before (atKey key f) = some r) : (r.1.map Prod.fst).Nodup := by
  have hkey {k : String} {f : Origin → Option Item → Option (Edit × α)} (hr : atKey k f here members = some r) :
      (r.1.map Prod.fst).Nodup := by
    obtain ⟨e, -, rfl⟩ := Option.map_eq_some_iff.1 hr
    exact Members.nodup_edit h k e.1
  cases before with
  | nil => exact hkey (by rwa [within_nil] at hr)
  | cons s before => exact hkey (by rwa [within_cons] at hr)

theorem close?_fieldsAt (h : d.Settled known) (hclose : d.close? = some root) (ht : known t x = true) :
    fieldsAt known t root = d.fieldsOf known t := by
  obtain ⟨before, path, inArray, current⟩ := d
  obtain rfl | ⟨before, key, rfl⟩ := path.eq_nil_or_concat'
  · rw [close?_nil rfl] at hclose
    cases hclose
    rfl
  · rw [close?_eq rfl] at hclose
    obtain ⟨r, hr, rfl⟩ := Option.map_eq_some_iff.1 hclose
    cases before with
    | cons s before =>
      obtain ⟨y, rest, hrest, hy⟩ := Foreign.exists_unknown h.foreign
      exact (fieldsAt_within hrest hy hr t).trans (fieldsOf_between t s before key _ _ _).symm
    | nil =>
      rw [within_nil] at hr
      obtain ⟨⟨e, u⟩, he, rfl⟩ := Option.map_eq_some_iff.1 hr
      show _ = if t = key then some (current.restrict (known t)) else _
      by_cases hkey : t = key
      · subst hkey
        -- an element of an array would have to keep away from the fields
        have hin : inArray = false := Bool.eq_false_iff.2 (fun hin => (h.apart hin).2 t x ht rfl)
        rw [if_pos rfl, fieldsAt, Members.lookup_edit, if_pos rfl]
        simp only [hin] at he
        generalize before.lookup t = i at he
        cases i with
        | none =>
          cases he
          rfl
        | some i => cases i <;> cases he
      · rw [if_neg hkey]
        exact fieldsAt_edit_of_ne hkey e

theorem close?_nodup (h : (d.top.map Prod.fst).Nodup) (hclose : d.close? = some root) :
    (root.map Prod.fst).Nodup := by
  obtain ⟨before, path, inArray, current⟩ := d
  obtain rfl | ⟨before, key, rfl⟩ := path.eq_nil_or_concat'
  · rw [close?_nil rfl] at hclose
    cases hclose
    exact h
  · rw [close?_eq rfl] at hclose
    obtain ⟨r, hr, rfl⟩ := Option.map_eq_some_iff.1 hclose
    refine nodup_within ?_ hr
    cases before <;> exact h

variable (known) in
/-- A draft with these fields so far, in this order, whose other lines have kept away from them. -/
structure Ready (fields : String → Members) (d : Draft) : Prop extends Settled known d where
  nodup : (d.top.map Prod.fst).Nodup
  fields_eq : ∀ t k, known t k = true → d.fieldsOf known t = some (fields t)

section
variable {fields : String → Members}

/-- Another table is started with the fields that it had when it was closed. -/
theorem Ready.start? {α : Type} {before : List String} {inArray : Bool} {f : Option Item → Option (Edit × α)}
    {first : α → Members} (h : d.Ready known fields) (hpath : Foreign known (before ++ [key]))
    (harray : inArray = true → Apart known (before ++ [key]))
    (hf : before = [] → ∀ k, known key k = true → ∀ i e a, f i = some (e, a) →
      itemFields known key i = some ((first a).restrict (known key)))
    (hd : d.start? before key inArray f first = some d') : d'.Ready known fields := by
  obtain ⟨root, hclose, hd⟩ := Option.bind_eq_some_iff.1 hd
  obtain ⟨r, hr, rfl⟩ := Option.map_eq_some_iff.1 hd
  refine ⟨⟨hpath, harray⟩, ?_, fun t k ht => ?_⟩
  · have hnodup := nodup_within (close?_nodup h.nodup hclose) hr
    cases before <;> exact hnodup
  · rw [← h.fields_eq t k ht, ← close?_fieldsAt h.toSettled hclose ht]
    cases before with
    | cons s before =>
      obtain ⟨y, rest, hrest, hy⟩ := Foreign.exists_unknown hpath
      exact (fieldsOf_between t s before key _ _ _).trans (fieldsAt_within hrest hy hr t)
    | nil =>
      rw [within_nil] at hr
      obtain ⟨⟨e, a⟩, he, rfl⟩ := Option.map_eq_some_iff.1 hr
      -- the table itself has left the root for the draft, or is new and has no fields in either
      show (if t = key then some ((first a).restrict (known t)) else _) = _
      by_cases hkey : t = key
      · subst hkey
        rw [if_pos rfl]
        exact (hf rfl k ht _ e a he).symm
      · rw [if_neg hkey]
        exact fieldsAt_edit_of_ne hkey e

theorem Ready.startTable? (h : d.Ready known fields) (hpath : Foreign known path)
    (hd : d.startTable? path = some d') : d'.Ready known fields ∧ d'.path = path := by
  obtain rfl | ⟨before, key, rfl⟩ := path.eq_nil_or_concat'
  · rw [startTable?_nil] at hd
    cases hd
  · rw [startTable?_eq] at hd
    refine ⟨h.start? hpath ?_ (fun _ k _ i e a he => ?_) hd, start?_path hd⟩
    · simp
    · cases i with
      | none =>
        cases he
        rfl
      | some i =>
        cases i with
        | table origin inner => cases origin <;> cases he; rfl
        | _ => cases he

theorem Ready.startElement? (h : d.Ready known fields) (hpath : Apart known path)
    (hd : d.startElement? path = some d') : d'.Ready known fields ∧ d'.path = path := by
  obtain rfl | ⟨before, key, rfl⟩ := path.eq_nil_or_concat'
  · rw [startElement?_nil] at hd
    cases hd
  · rw [startElement?_eq] at hd
    refine ⟨h.start? hpath.1 (fun _ => hpath) (fun hbefore k hk => ?_) hd, start?_path hd⟩
    subst hbefore
    exact absurd rfl (hpath.2 key k hk)

/-- A pair away from the fields leaves them alone. -/
theorem Ready.assign? (h : d.Ready known fields) (hpath : Apart known (d.path ++ (path ++ [key])))
    (hd : d.assign? path key item = some d') : d'.Ready known fields ∧ d'.path = d.path := by
  rw [assign?_eq] at hd
  obtain ⟨r, hr, rfl⟩ := Option.map_eq_some_iff.1 hd
  -- where the draft stands is not changed by a pair, so only keys and fields are to be looked at
  refine ⟨⟨⟨h.foreign, h.apart⟩, ?_, fun t k ht => ?_⟩, rfl⟩
  · have hnodup := h.nodup
    obtain ⟨root, scope, inArray, current⟩ := d
    cases scope with
    | nil => exact nodup_within hnodup hr
    | cons s scope => exact hnodup
  · rw [← h.fields_eq t k ht]
    obtain ⟨root, scope, inArray, current⟩ := d
    -- the pair goes to the top, to a table of the top, or further down, where there are no fields at all
    match scope with
    | [] =>
      rw [List.nil_append] at hpath
      show fieldsAt known t r.1 = fieldsAt known t current
      match path with
      | [] =>
        rw [within_nil] at hr
        obtain ⟨e, -, rfl⟩ := Option.map_eq_some_iff.1 hr
        -- the key itself would be the name of a table with fields
        have hne : t ≠ key := by
          rintro rfl
          exact hpath.2 t k ht rfl
        exact fieldsAt_edit_of_ne hne e.1
      | s :: before =>
        -- the way goes on below its first name, through a key that is no field there
        obtain ⟨y, rest, hrest, hy⟩ := Foreign.exists_unknown hpath.1
        exact fieldsAt_within hrest hy hr t
    | [s] =>
      obtain ⟨y, rest, hrest, hy⟩ := Foreign.exists_unknown hpath.1
      -- in a table of the top the pair is an edit at its first key, and that is no field either
      obtain ⟨g, hg⟩ := within_atKey hrest .dotted (assigning path.isEmpty item)
      rw [hg] at hr
      show (if t = s then some (r.1.restrict (known t)) else _) =
        if t = s then some (current.restrict (known t)) else _
      by_cases hts : t = s
      · subst hts
        rw [if_pos rfl, if_pos rfl, restrict_atKey_of_false hy hr]
      · rw [if_neg hts, if_neg hts]
    | s :: y :: rest => rfl

/-- A field that has not been set yet is set, and only the fields show it. -/
theorem Ready.field (item : Item) (h : d.Ready known fields) (hscope : d.path = [t]) (hkey : known t key = true)
    (fresh : key ∉ (fields t).map Prod.fst) : ∃ d', d.assign? [] key item = some d' ∧
      d'.erase known = d.erase known ∧ d'.path = d.path ∧
      d'.Ready known (fun s => if s = t then fields t ++ [(key, item)] else fields s) := by
  obtain ⟨root, scope, inArray, current⟩ := d
  obtain rfl : scope = [t] := hscope
  have hfields : current.restrict (known t) = fields t := by
    have hsome := h.fields_eq t key hkey
    change (if t = t then some (current.restrict (known t)) else _) = _ at hsome
    rw [if_pos rfl] at hsome
    exact Option.some.inj hsome
  -- the key is not among the fields so far, so it is not in the table at all
  have hlookup : current.lookup key = none := by
    rw [← Members.lookup_restrict hkey current, hfields, List.lookup_eq_none_iff]
    intro m hm
    have hne : key ≠ m.1 := fun he => fresh (he ▸ List.mem_map_of_mem hm)
    simpa using hne
  have hassign : (⟨root, [t], inArray, current⟩ : Draft).assign? [] key item =
      some ⟨root, [t], inArray, current.edit key (.put item)⟩ := by
    rw [assign?_eq, within_nil, atKey, hlookup]
    rfl
  refine ⟨_, hassign, ?_, rfl, ⟨⟨h.foreign, h.apart⟩, h.nodup, fun s k hs => ?_⟩⟩
  -- without the fields nothing has changed, and with them one field more is at the end
  · refine congrArg (fun m => (⟨eraseFields known root, [t], inArray, m⟩ : Draft)) ?_
    exact @Members.restrict_edit_of_false (fun k => !known t k) key (by simp [hkey]) current (.put item)
  · by_cases hst : s = t
    · subst hst
      show (if s = s then some (Members.restrict (known s) (current.edit key (.put item))) else _) = _
      rw [if_pos rfl, if_pos rfl, Members.restrict_edit hkey, hfields]
      have hnone : (fields s).lookup key = none := by
        rw [← hfields, Members.lookup_restrict hkey, hlookup]
      simp [Members.edit, Members.put, hnone]
    · rw [if_neg hst, ← h.fields_eq s k hs]
      show (if s = t then some _ else fieldsAt known s root) = if s = t then some _ else fieldsAt known s root
      rw [if_neg hst, if_neg hst]

end

end Draft

end

/-! ## Documents -/

variable (known : String → String → Bool) in
/-- A line that keeps away from the fields, in the scope of a header, and the scope behind it. -/
inductive Away : List String → Line → List String → Prop where
  | nothing {scope : List String} : Away scope .nothing scope
  | pair {scope path : List String} {key : String} {item : Item}
      (hpath : Apart known (scope ++ (path ++ [key]))) : Away scope (.pair path key item) scope
  | table {scope path : List String} (hpath : Foreign known path) : Away scope (.table path) path
  | element {scope path : List String} (hpath : Apart known path) : Away scope (.element path) path

variable (known : String → String → Bool) in
/-- Lines in the scope of a header, of which some set fields: the other lines, and the fields with the tables
that they belong to, in the order of their lines. -/
inductive Layout : List String → List Line → List Line → List (String × String × Item) → Prop where
  | nil {scope : List String} : Layout scope [] [] []
  | field {t key : String} {item : Item} {ls others : List Line} {fields : List (String × String × Item)}
      (hkey : known t key = true) (h : Layout [t] ls others fields) :
      Layout [t] (.pair [] key item :: ls) others ((t, key, item) :: fields)
  | other {scope scope' : List String} {l : Line} {ls others : List Line}
      {fields : List (String × String × Item)} (hl : Away known scope l scope')
      (h : Layout scope' ls others fields) : Layout scope (l :: ls) (l :: others) fields

/-- The fields of one table. -/
def fieldsIn (t : String) (fields : List (String × String × Item)) : Members :=
  (fields.filter (·.1 = t)).map Prod.snd

section
variable {known : String → String → Bool} {scope scope' : List String} {l : Line} {ls others : List Line}
  {fields : List (String × String × Item)} {d : Draft} {before : String → Members} {root : Members}

theorem fieldsIn_cons (t s key : String) (item : Item) (fields : List (String × String × Item)) :
    fieldsIn t ((s, key, item) :: fields) =
      if t = s then (key, item) :: fieldsIn t fields else fieldsIn t fields := by
  by_cases h : t = s
  · subst h
    simp [fieldsIn]
  · simp [fieldsIn, h, Ne.symm h]

/-- Fields that are set once are set once in each table. -/
theorem nodup_fieldsIn (h : (fields.map (fun f => (f.1, f.2.1))).Nodup) (t : String) :
    ((fieldsIn t fields).map Prod.fst).Nodup := by
  have hpairs : ((fields.filter (·.1 = t)).map (fun f => (f.1, f.2.1))).Nodup :=
    h.sublist (List.filter_sublist.map _)
  -- a field of one table is told from another one by its key alone
  have htitle : (fields.filter (·.1 = t)).map (fun f => (f.1, f.2.1)) =
      ((fieldsIn t fields).map Prod.fst).map (fun key => (t, key)) := by
    rw [fieldsIn, List.map_map, List.map_map]
    refine List.map_congr_left (fun f hf => ?_)
    have hft : f.1 = t := by simpa using (List.mem_filter.1 hf).2
    exact congrArg (·, f.2.1) hft
  rw [htitle] at hpairs
  exact List.Nodup.of_map _ hpairs

/-- A line away from the fields does the same without them. -/
theorem Away.perform?_erase (hl : Away known d.path l scope') (hd : d.Settled known) :
    (d.erase known).perform? l = (d.perform? l).map (Draft.erase known) := by
  cases hl with
  | nothing => rfl
  | @pair path key item hpath =>
    simp only [Draft.perform?]
    cases checked? item with
    | none => rfl
    | some item => exact Draft.assign?_erase hpath
  | table hpath => exact Draft.startTable?_erase hd hpath
  | element hpath => exact Draft.startElement?_erase hd hpath.1

/-- A line away from the fields leaves them alone. -/
theorem Away.ready (hl : Away known d.path l scope') (hd : d.Ready known before) {d' : Draft}
    (hperform : d.perform? l = some d') : d'.Ready known before ∧ d'.path = scope' := by
  cases hl with
  | nothing =>
    cases hperform
    exact ⟨hd, rfl⟩
  | pair hpath =>
    obtain ⟨item, -, hassign⟩ := Option.bind_eq_some_iff.1 hperform
    exact hd.assign? hpath hassign
  | table hpath => exact hd.startTable? hpath hperform
  | element hpath => exact hd.startElement? hpath hperform

/-- From a draft on, lines build what the lines beside the fields build, and the fields. -/
theorem Layout.run (h : Layout known scope ls others fields) (hd : d.Ready known before) (hscope : d.path = scope)
    (fresh : ∀ t, ((before t ++ fieldsIn t fields).map Prod.fst).Nodup)
    (hitems : ∀ field ∈ fields, checked? field.2.2 = some field.2.2)
    (hothers : (d.erase known).finish? others = some root) :
    ∃ built, d.finish? ls = some built ∧ (built.map Prod.fst).Nodup ∧
      ∀ t k, known t k = true → fieldsAt known t built = some (before t ++ fieldsIn t fields) := by
  -- a field goes from those to come to those of the draft, so that all of them together stay the same
  induction h generalizing d before with
  | nil =>
    change (d.erase known).close? = some root at hothers
    rw [Draft.close?_erase hd.toSettled] at hothers
    obtain ⟨built, hclose, rfl⟩ := Option.map_eq_some_iff.1 hothers
    refine ⟨built, hclose, Draft.close?_nodup hd.nodup hclose, fun t k ht => ?_⟩
    rw [Draft.close?_fieldsAt hd.toSettled hclose ht, hd.fields_eq t k ht, fieldsIn, List.filter_nil, List.map_nil,
      List.append_nil]
  | @field t key item ls others fields hkey h ih =>
    have hfresh : key ∉ (before t).map Prod.fst := by
      have := fresh t
      rw [fieldsIn_cons, if_pos rfl, List.map_append, List.nodup_append] at this
      exact fun hmem => this.2.2 key hmem key (by simp) rfl
    obtain ⟨d', hassign, herase, hpath, hready⟩ := hd.field item hscope hkey hfresh
    have hstep : d.perform? (.pair [] key item) = some d' := by
      rw [Draft.perform?, hitems _ (.head _)]
      exact hassign
    have hmove (s : String) : (if s = t then before t ++ [(key, item)] else before s) ++ fieldsIn s fields =
        before s ++ fieldsIn s ((t, key, item) :: fields) := by
      rw [fieldsIn_cons]
      by_cases hs : s = t
      · subst hs
        rw [if_pos rfl, if_pos rfl, List.append_assoc]
        rfl
      · rw [if_neg hs, if_neg hs]
    obtain ⟨built, hbuilt, hnodup, hfields⟩ := ih hready (hpath.trans hscope)
      (fun s => by rw [hmove]; exact fresh s) (fun f hf => hitems f (.tail _ hf)) (by rwa [herase])
    refine ⟨built, ?_, hnodup, fun s k hs => ?_⟩
    · rw [Draft.finish?_cons, hstep]
      exact hbuilt
    · rw [hfields s k hs, hmove]
  | @other scope scope' l ls others fields hl h ih =>
    subst hscope
    rw [Draft.finish?_cons, hl.perform?_erase hd.toSettled] at hothers
    -- the line does the same on the draft without the fields, so it succeeds on both
    obtain ⟨e, hstep, hothers⟩ := Option.bind_eq_some_iff.1 hothers
    obtain ⟨d', hperform, rfl⟩ := Option.map_eq_some_iff.1 hstep
    obtain ⟨hready, hscope⟩ := hl.ready hd hperform
    obtain ⟨built, hbuilt, hother⟩ := ih hready hscope fresh hitems hothers
    refine ⟨built, ?_, hother⟩
    rw [Draft.finish?_cons, hperform]
    exact hbuilt

theorem Draft.ready_blank (known : String → String → Bool) : Draft.blank.Ready known (fun _ => []) where
  foreign := fun t key _ h => by
    have := h.length_le
    simp [blank] at this
  apart := fun h => by cases h
  nodup := List.nodup_nil
  fields_eq := fun _ _ _ => rfl

/-- A document builds what its other lines build and its fields, if the fields fit. -/
theorem Layout.build?_eq_some (h : Layout known [] ls others fields)
    (hkeys : (fields.map (fun f => (f.1, f.2.1))).Nodup)
    (hitems : ∀ field ∈ fields, checked? field.2.2 = some field.2.2) (hothers : build? others = some root) :
    ∃ built, build? ls = some built ∧ (built.map Prod.fst).Nodup ∧
      ∀ t k, known t k = true → fieldsAt known t built = some (fieldsIn t fields) := by
  exact h.run (Draft.ready_blank known) rfl (nodup_fieldsIn hkeys) hitems hothers

/-- A field that does not fit spoils the document. -/
theorem Layout.build?_eq_none (h : Layout known scope ls others fields) {field : String × String × Item}
    (hmem : field ∈ fields) (hitem : checked? field.2.2 = none) (d : Draft) : d.finish? ls = none := by
  induction h generalizing d with
  | nil => cases hmem
  | @field t key item ls others fields hkey h ih =>
    rw [Draft.finish?_cons]
    rcases List.mem_cons.1 hmem with rfl | hmem
    · rw [Draft.perform?, hitem]
      rfl
    · cases d.perform? (.pair [] key item) with
      | none => rfl
      | some d' => exact ih hmem d'
  | other hl h ih =>
    rw [Draft.finish?_cons]
    cases d.perform? _ with
    | none => rfl
    | some d' => exact ih hmem d'

end

end ShapeLedger.Toml
