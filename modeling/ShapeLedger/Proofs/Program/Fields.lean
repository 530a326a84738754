/-
Settings files that set some of the settings and leave out the others. Their lines may stand in any order and
among any others; each setting is the one that is written, or the standard one, and an integer that does not
fit is refused with the whole file.
-/
import ShapeLedger.Proofs.Program.Settings
import ShapeLedger.Proofs.Text.Utf8
import ShapeLedger.Proofs.Toml.Layout

namespace ShapeLedger.Settings

open Files Toml Toml.Grammar

/-! ## Definitions -/

/-- The keys of the tables that are settings. -/
def isField (title key : String) : Bool :=
  title = "server" && key ∈ ["host", "port", "body_limit"] || title = "database" && key = "path"

/-- The settings that a file has, with integers of any size. -/
structure Fields where
  host : Option String
  port : Option Int
  bodyLimit : Option Int
  database : Option String

namespace Fields

def entries (f : Fields) : List (String × String × Item) :=
  f.host.toList.map (fun s => ("server", "host", .text s)) ++
    f.port.toList.map (fun n => ("server", "port", .integer n)) ++
    f.bodyLimit.toList.map (fun n => ("server", "body_limit", .integer n)) ++
    f.database.toList.map (fun s => ("database", "path", .text s))

/-- A text that writes these settings, in any order, among lines that write no setting and that may stand in a
document without them. -/
structure Written (f : Fields) (bounds : Bounds) (text : String) (ls others : List Line) : Prop where
  document : DocumentText bounds text ls
  layout : ∃ fields, Layout isField [] ls others fields ∧ fields.Perm f.entries
  others : ∃ members, build? others = some members

/-- The integers are in the ranges of their settings. -/
structure InRange (f : Fields) : Prop where
  port : ∀ n ∈ f.port, 0 ≤ n ∧ n ≤ 65535
  bodyLimit : ∀ n ∈ f.bodyLimit, 0 ≤ n ∧ n < 9223372036854775808

/-- What is loaded where these settings are in the file at a path. -/
structure Loaded (f : Fields) (disk : Ledger.Disk) (named : Option Path) (p : Path) : Prop where
  success : ∀ value, (∃ s, load disk named value = .ok s) ↔ f.InRange
  exact : ∀ s, load disk named none = .ok s → s.server.host = f.host.getD "127.0.0.1" ∧
    (s.server.port.toNat : Int) = f.port.getD 5000 ∧ (s.server.bodyLimit : Int) = f.bodyLimit.getD 1048576 ∧
    s.database = .ofString (f.database.getD "jsonsage.db")
  environment : ∀ d, load disk named (some d) =
    if d = "" then load disk named none
    else (load disk named none).map (fun s => { s with database := .ofString d })
  failure : ∀ value e, load disk named value = .error e → e.message = "Invalid config file " ++ p.toString

end Fields

/-! ## Items of keys -/

section
variable {members : Members} {key title : String} {item : Item} {fields : Members}

theorem lookup_eq_some_iff_mem (h : (members.map Prod.fst).Nodup) :
    members.lookup key = some item ↔ (key, item) ∈ members := by
  induction members with
  | nil => simp
  | cons m members ih =>
    obtain ⟨k, i⟩ := m
    rw [List.map_cons, List.nodup_cons] at h
    rw [List.lookup_cons, List.mem_cons]
    by_cases hk : key = k
    · subst hk
      have hnot : (key, item) ∉ members := fun hm => h.1 (List.mem_map.2 ⟨_, hm, rfl⟩)
      simp [hnot, eq_comm]
    · have hne : (key == k) = false := by simpa using hk
      rw [hne]
      simp [ih h.2, hk]

theorem last?_eq_some_iff_mem (h : (members.map Prod.fst).Nodup) :
    last? key members = some item ↔ (key, item) ∈ members := by
  have hreverse : (members.reverse.map Prod.fst).Nodup := by
    rw [List.map_reverse]
    exact List.nodup_reverse.2 h
  rw [last?, lookup_eq_some_iff_mem hreverse, List.mem_reverse]

theorem last?_restrict {P : String → Bool} (h : P key = true) (members : Members) :
    last? key (members.restrict P) = last? key members := by
  have hreverse : (members.restrict P).reverse = Members.restrict P members.reverse :=
    List.filter_reverse.symm
  rw [last?, hreverse, Members.lookup_restrict h]
  rfl

/-- What a document has for a setting is what its table has among the fields. -/
theorem item?_eq_last? {σ : Type} {form : Section σ} (hnodup : (members.map Prod.fst).Nodup)
    (hfound : fieldsAt isField title members = some fields) (hkey : isField title key = true) :
    item? form title key members = last? key fields := by
  have hlast : last? title members = members.lookup title := by
    refine Option.ext (fun i => ?_)
    rw [last?_eq_some_iff_mem hnodup, lookup_eq_some_iff_mem hnodup]
  rw [item?, hlast]
  unfold fieldsAt at hfound
  cases hlookup : members.lookup title with
  | none =>
    rw [hlookup] at hfound
    cases hfound
    rfl
  | some i =>
    rw [hlookup] at hfound
    cases i <;> cases hfound
    exact (last?_restrict hkey _).symm

end

/-! ## Success -/

section
variable {σ : Type} {members : Members} {title : String} {fields : Members}

/-- Pairs are set if each of them can be set. -/
theorem foldlM_ok_iff {set : σ → String → Item → Read σ} {Fits : String → Item → Prop}
    (hset : ∀ s key item, (∃ s', set s key item = .ok s') ↔ Fits key item) (pairs : List (String × Item))
    (start : σ) :
    (∃ s, pairs.foldlM (fun s (key, item) => set s key item) start = .ok s) ↔ ∀ m ∈ pairs, Fits m.1 m.2 := by
  induction pairs generalizing start with
  | nil => simp [pure, Except.pure]
  | cons m pairs ih =>
    obtain ⟨key, item⟩ := m
    rw [List.forall_mem_cons, ← hset start key item]
    constructor
    · rintro ⟨s, h⟩
      rw [List.foldlM_cons] at h
      obtain ⟨t, ht, hs⟩ := Json.bind_eq_ok h
      exact ⟨⟨t, ht⟩, (ih t).1 ⟨s, hs⟩⟩
    · rintro ⟨⟨t, ht⟩, hpairs⟩
      obtain ⟨s, hs⟩ := (ih t).2 hpairs
      exact ⟨s, by rw [List.foldlM_cons]; simp only [ht]; exact hs⟩

/-- A section of a document is read if each of its fields can be. -/
theorem section_ok_iff {form : Section σ} {start : σ} {Fits : String → Item → Prop}
    (hset : ∀ s key item, (∃ s', form.set s key item = .ok s') ↔ Fits key item)
    (hother : ∀ key item, isField title key = false → Fits key item) (hnodup : (members.map Prod.fst).Nodup)
    (hfields : fieldsAt isField title members = some fields) :
    (∀ item, (title, item) ∈ members → ∃ s, form.read start item = .ok s) ↔ ∀ m ∈ fields, Fits m.1 m.2 := by
  unfold fieldsAt at hfields
  cases hlookup : members.lookup title with
  | none =>
    rw [hlookup] at hfields
    cases hfields
    have hno (item : Item) : (title, item) ∉ members := by
      rw [← lookup_eq_some_iff_mem hnodup, hlookup]
      exact nofun
    simp [hno]
  | some i =>
    rw [hlookup] at hfields
    have hmem (item : Item) : (title, item) ∈ members ↔ i = item := by
      rw [← lookup_eq_some_iff_mem hnodup, hlookup, Option.some.injEq]
    cases i with
    | table origin inner =>
      cases hfields
      have hread : (∃ s, form.read start (.table origin inner) = .ok s) ↔ ∀ m ∈ inner, Fits m.1 m.2 :=
        foldlM_ok_iff hset inner start
      constructor
      · exact fun h m hm => hread.1 (h _ ((hmem _).2 rfl)) m (List.mem_of_mem_filter hm)
      · intro h item hitem
        obtain rfl := (hmem item).1 hitem
        -- a key that is no setting is passed over, whatever its item is
        refine hread.2 (fun m hm => ?_)
        cases hknown : isField title m.1 with
        | true => exact h m (List.mem_filter.2 ⟨hm, hknown⟩)
        | false => exact hother _ _ hknown
    | _ => cases hfields

/-- The items that the keys of the server's section take. -/
structure FitsServer (key : String) (item : Item) : Prop where
  host : key = "host" → ∃ a, readText item = .ok a
  port : key = "port" → ∃ a, readPort item = .ok a
  bodyLimit : key = "body_limit" → ∃ a, readSize item = .ok a

theorem map_ok_iff {ε α β : Type} {f : α → β} {x : Except ε α} : (∃ b, x.map f = .ok b) ↔ ∃ a, x = .ok a := by
  cases x <;> simp [Except.map]

theorem serverSection_ok_iff (s : Server) (key : String) (item : Item) :
    (∃ s', serverSection.set s key item = .ok s') ↔ FitsServer key item := by
  simp only [serverSection]
  split
  · next hkey =>
    subst hkey
    rw [map_ok_iff]
    exact ⟨fun h => ⟨fun _ => h, fun h => absurd h (by decide), fun h => absurd h (by decide)⟩, fun h => h.host rfl⟩
  · next hhost =>
    split
    · next hkey =>
      subst hkey
      rw [map_ok_iff]
      exact ⟨fun h => ⟨fun h => absurd h hhost, fun _ => h, fun h => absurd h (by decide)⟩, fun h => h.port rfl⟩
    · next hport =>
      split
      · next hkey =>
        subst hkey
        rw [map_ok_iff]
        exact ⟨fun h => ⟨fun h => absurd h hhost, fun h => absurd h hport, fun _ => h⟩, fun h => h.bodyLimit rfl⟩
      · next hlimit =>
        exact ⟨fun _ => ⟨fun h => absurd h hhost, fun h => absurd h hport, fun h => absurd h hlimit⟩,
          fun _ => ⟨s, rfl⟩⟩

theorem databaseSection_ok_iff (s : Path) (key : String) (item : Item) :
    (∃ s', databaseSection.set s key item = .ok s') ↔ (key = "path" → ∃ a, readPath item = .ok a) := by
  simp only [databaseSection]
  split
  · next hkey => exact ⟨fun h _ => h, fun h => h hkey⟩
  · next hkey => exact ⟨fun _ h => absurd h hkey, fun _ => ⟨s, rfl⟩⟩

theorem setSection_ok_iff (s : Settings) (key : String) (item : Item) :
    (∃ s', setSection s key item = .ok s') ↔
      (key = "server" → ∃ a, serverSection.read standardServer item = .ok a) ∧
      (key = "database" → ∃ a, databaseSection.read standard.database item = .ok a) := by
  unfold setSection
  split
  · next hkey =>
    subst hkey
    rw [map_ok_iff]
    exact ⟨fun h => ⟨fun _ => h, fun h => absurd h (by decide)⟩, fun h => h.1 rfl⟩
  · next hserver =>
    split
    · next hkey =>
      subst hkey
      rw [map_ok_iff]
      exact ⟨fun h => ⟨fun h => absurd h hserver, fun _ => h⟩, fun h => h.2 rfl⟩
    · next hdatabase =>
      exact ⟨fun _ => ⟨fun h => absurd h hserver, fun h => absurd h hdatabase⟩, fun _ => ⟨s, rfl⟩⟩

/-- Settings are taken from a document if each of its fields can be. -/
theorem ofMembers_ok_iff {server database : Members} (hnodup : (members.map Prod.fst).Nodup)
    (hserver : fieldsAt isField "server" members = some server)
    (hdatabase : fieldsAt isField "database" members = some database) :
    (∃ s, ofMembers members = .ok s) ↔ (∀ m ∈ server, FitsServer m.1 m.2) ∧
      ∀ m ∈ database, m.1 = "path" → ∃ a, readPath m.2 = .ok a := by
  have hno {t key : String} (hfalse : isField t key = false) {k : String} (htrue : isField t k = true) :
      key ≠ k := by
    rintro rfl
    rw [hfalse] at htrue
    cases htrue
  rw [← section_ok_iff serverSection_ok_iff
      (fun key item hkey => ⟨fun h => absurd h (hno hkey (by decide)), fun h => absurd h (hno hkey (by decide)),
        fun h => absurd h (hno hkey (by decide))⟩) hnodup hserver,
    ← section_ok_iff databaseSection_ok_iff
      (fun key item hkey h => absurd h (hno hkey (by decide))) hnodup hdatabase]
  refine (foldlM_ok_iff setSection_ok_iff members standard).trans ⟨fun h => ⟨?_, ?_⟩, ?_⟩
  · exact fun item hmem => (h _ hmem).1 rfl
  · exact fun item hmem => (h _ hmem).2 rfl
  · rintro ⟨hserver, hdatabase⟩ ⟨key, item⟩ hmem
    exact ⟨fun hkey => hserver item (hkey ▸ hmem), fun hkey => hdatabase item (hkey ▸ hmem)⟩

end

/-! ## Entries -/

namespace Fields
variable {f : Fields} {fields : List (String × String × Item)} {title key : String} {item : Item}

theorem mem_entries : (title, key, item) ∈ f.entries ↔
    (title = "server" ∧ key = "host" ∧ ∃ s ∈ f.host, item = .text s) ∨
    (title = "server" ∧ key = "port" ∧ ∃ n ∈ f.port, item = .integer n) ∨
    (title = "server" ∧ key = "body_limit" ∧ ∃ n ∈ f.bodyLimit, item = .integer n) ∨
    (title = "database" ∧ key = "path" ∧ ∃ s ∈ f.database, item = .text s) := by
  simp only [entries, List.mem_append, List.mem_map, Option.mem_toList, Prod.mk.injEq]
  constructor
  · rintro (((⟨a, ha, rfl, rfl, rfl⟩ | ⟨a, ha, rfl, rfl, rfl⟩) | ⟨a, ha, rfl, rfl, rfl⟩) | ⟨a, ha, rfl, rfl, rfl⟩)
    · exact .inl ⟨rfl, rfl, a, ha, rfl⟩
    · exact .inr (.inl ⟨rfl, rfl, a, ha, rfl⟩)
    · exact .inr (.inr (.inl ⟨rfl, rfl, a, ha, rfl⟩))
    · exact .inr (.inr (.inr ⟨rfl, rfl, a, ha, rfl⟩))
  · rintro (⟨rfl, rfl, a, ha, rfl⟩ | ⟨rfl, rfl, a, ha, rfl⟩ | ⟨rfl, rfl, a, ha, rfl⟩ | ⟨rfl, rfl, a, ha, rfl⟩)
    · exact .inl (.inl (.inl ⟨a, ha, rfl, rfl, rfl⟩))
    · exact .inl (.inl (.inr ⟨a, ha, rfl, rfl, rfl⟩))
    · exact .inl (.inr ⟨a, ha, rfl, rfl, rfl⟩)
    · exact .inr ⟨a, ha, rfl, rfl, rfl⟩

theorem nodup_entries (f : Fields) : (f.entries.map (fun e => (e.1, e.2.1))).Nodup := by
  obtain ⟨host, port, bodyLimit, database⟩ := f
  cases host <;> cases port <;> cases bodyLimit <;> cases database <;> simp [entries]

theorem mem_fieldsIn {m : String × Item} : m ∈ fieldsIn title fields ↔ (title, m) ∈ fields := by
  unfold fieldsIn
  simp only [List.mem_map, List.mem_filter, decide_eq_true_eq]
  constructor
  · rintro ⟨f, ⟨hmem, rfl⟩, rfl⟩
    exact hmem
  · exact fun h => ⟨_, ⟨h, rfl⟩, rfl⟩

theorem checked?_integer {n : Int} :
    checked? (.integer n) = some (.integer n) ↔ -9223372036854775808 ≤ n ∧ n < 9223372036854775808 := by
  have h63 : ((twoPow 63 : Nat) : Int) = 9223372036854775808 := rfl
  simp [checked?, integer?, h63]

theorem checked?_eq_none (h : checked? item ≠ some item) : checked? item = none := by
  cases item with
  | integer n =>
    simp only [checked?, integer?] at h ⊢
    split
    · next hn => exact absurd (if_pos hn) h
    · rfl
  | _ => exact absurd rfl h

/-- An integer that takes more than 64 bits is in no range. -/
theorem InRange.checked? (h : f.InRange) {e : String × String × Item} (he : e ∈ f.entries) :
    checked? e.2.2 = some e.2.2 := by
  obtain ⟨title, key, item⟩ := e
  rcases mem_entries.1 he with ⟨-, -, a, ha, rfl⟩ | ⟨-, -, n, hn, rfl⟩ | ⟨-, -, n, hn, rfl⟩ | ⟨-, -, a, ha, rfl⟩
  · rfl
  · have := h.port n hn
    exact checked?_integer.2 (by omega)
  · have := h.bodyLimit n hn
    exact checked?_integer.2 (by omega)
  · rfl

theorem readPort_ok_iff {n : Int} : (∃ a, readPort (.integer n) = .ok a) ↔ 0 ≤ n ∧ n ≤ 65535 := by
  have h16 : ((twoPow 16 : Nat) : Int) = 65536 := rfl
  simp only [readPort, h16, Bool.and_eq_true, decide_eq_true_eq]
  split
  · next h => exact ⟨fun _ => by omega, fun _ => ⟨_, rfl⟩⟩
  · next h => exact ⟨nofun, fun h => by omega⟩

theorem readSize_ok_iff {n : Int} : (∃ a, readSize (.integer n) = .ok a) ↔ 0 ≤ n := by
  simp only [readSize]
  split
  · next h => exact ⟨fun _ => h, fun _ => ⟨_, rfl⟩⟩
  · next h => exact ⟨nofun, fun h' => absurd h' h⟩

/-- Where no integer takes more than 64 bits, the settings can be read if the integers are in their ranges. -/
theorem fits_iff_inRange (hitems : ∀ e ∈ f.entries, checked? e.2.2 = some e.2.2) :
    ((∀ key item, ("server", key, item) ∈ f.entries → FitsServer key item) ∧
      ∀ key item, ("database", key, item) ∈ f.entries → key = "path" → ∃ a, readPath item = .ok a) ↔ f.InRange := by
  constructor
  · rintro ⟨hserver, -⟩
    constructor
    · intro n hn
      have hmem : ("server", "port", .integer n) ∈ f.entries := mem_entries.2 (.inr (.inl ⟨rfl, rfl, n, hn, rfl⟩))
      exact readPort_ok_iff.1 ((hserver _ _ hmem).port rfl)
    · intro n hn
      have hmem : ("server", "body_limit", .integer n) ∈ f.entries :=
        mem_entries.2 (.inr (.inr (.inl ⟨rfl, rfl, n, hn, rfl⟩)))
      exact ⟨readSize_ok_iff.1 ((hserver _ _ hmem).bodyLimit rfl), (checked?_integer.1 (hitems _ hmem)).2⟩
  · intro h
    constructor
    · intro key item hmem
      rcases mem_entries.1 hmem with ⟨-, rfl, a, -, rfl⟩ | ⟨-, rfl, n, hn, rfl⟩ | ⟨-, rfl, n, hn, rfl⟩ | ⟨ht, -⟩
      · exact ⟨fun _ => ⟨a, rfl⟩, fun h => absurd h (by decide), fun h => absurd h (by decide)⟩
      · exact ⟨fun h => absurd h (by decide), fun _ => readPort_ok_iff.2 (h.port n hn),
          fun h => absurd h (by decide)⟩
      · exact ⟨fun h => absurd h (by decide), fun h => absurd h (by decide),
          fun _ => readSize_ok_iff.2 (h.bodyLimit n hn).1⟩
      · exact absurd ht (by decide)
    · intro key item hmem _
      rcases mem_entries.1 hmem with ⟨ht, -⟩ | ⟨ht, -⟩ | ⟨ht, -⟩ | ⟨-, -, a, -, rfl⟩
      · exact absurd ht (by decide)
      · exact absurd ht (by decide)
      · exact absurd ht (by decide)
      · exact ⟨.ofString a, rfl⟩

end Fields

/-! ## Loading -/

section
variable {f : Fields} {disk : Ledger.Disk} {p : Path} {text : String}

theorem holds_of_readText (h : disk.readText p = .ok text) : Directory.holds disk p = true := by
  unfold Ledger.Disk.readText at h
  unfold Directory.holds
  split at h
  · cases h
  · next hread => rw [hread]

/-- A file that can be read is the one that settings are loaded from. -/
theorem load_of_readText (named : Option Path) (h : disk.readText (named.getD standardFile) = .ok text) :
    load disk named none = (parse text).mapError (⟨named.getD standardFile, ·⟩) := by
  have hfile : readFile disk (named.getD standardFile) = (parse text).mapError (⟨named.getD standardFile, ·⟩) := by
    rw [readFile, h]
  unfold load
  cases named with
  | some p =>
    simp only [Option.getD_some] at hfile ⊢
    rw [hfile]
    cases parse text <;> rfl
  | none =>
    simp only [Option.getD_none] at h hfile ⊢
    rw [if_pos (holds_of_readText h), hfile]
    cases parse text <;> rfl

/-- The environment is asked after the file, and for the database alone. -/
theorem load_some (disk : Ledger.Disk) (named : Option Path) (d : String) : load disk named (some d) =
    if d = "" then load disk named none
    else (load disk named none).map (fun s => { s with database := .ofString d }) := by
  unfold load
  simp only [String.isEmpty_iff]
  split
  · split <;> rfl
  · split <;> rfl

/-- The settings of a document with these fields. -/
structure Fields.Built (f : Fields) (members : Members) : Prop where
  nodup : (members.map Prod.fst).Nodup
  fields : ∃ fields : List (String × String × Item), fields.Perm f.entries ∧
    ∀ t k, isField t k = true → fieldsAt isField t members = some (fieldsIn t fields)

/-- A text with these settings builds a document with them, unless an integer takes more than 64 bits. -/
theorem Fields.Written.document?_eq {ls others : List Line} (h : f.Written limits text ls others) :
    (∃ members, document? text = some members ∧ f.Built members ∧
      ∀ e ∈ f.entries, checked? e.2.2 = some e.2.2) ∨
    document? text = none ∧ ¬ f.InRange := by
  obtain ⟨fields, hlayout, hperm⟩ := h.layout
  obtain ⟨root, hothers⟩ := h.others
  rw [Toml.document?_eq h.document]
  by_cases hitems : ∀ e ∈ f.entries, checked? e.2.2 = some e.2.2
  · have hkeys : (fields.map (fun e => (e.1, e.2.1))).Nodup := (hperm.map _).nodup_iff.2 f.nodup_entries
    obtain ⟨members, hbuilt, hnodup, hfields⟩ :=
      hlayout.build?_eq_some hkeys (fun e he => hitems e (hperm.mem_iff.1 he)) hothers
    exact .inl ⟨members, hbuilt, ⟨hnodup, fields, hperm, hfields⟩, hitems⟩
  · simp only [not_forall] at hitems
    obtain ⟨e, he, hitem⟩ := hitems
    have hnone := hlayout.build?_eq_none (hperm.mem_iff.2 he) (Fields.checked?_eq_none hitem) .blank
    exact .inr ⟨hnone, fun hrange => hitem (hrange.checked? he)⟩

variable {members : Members}

theorem Fields.Built.ok_iff (h : f.Built members) (hitems : ∀ e ∈ f.entries, checked? e.2.2 = some e.2.2) :
    (∃ s, ofMembers members = .ok s) ↔ f.InRange := by
  obtain ⟨fields, hperm, hfields⟩ := h.fields
  rw [← Fields.fits_iff_inRange hitems,
    ofMembers_ok_iff h.nodup (hfields "server" "host" (by decide)) (hfields "database" "path" (by decide))]
  have hmem {t : String} {m : String × Item} : m ∈ fieldsIn t fields ↔ (t, m) ∈ f.entries :=
    Fields.mem_fieldsIn.trans hperm.mem_iff
  exact ⟨fun h => ⟨fun key item he => h.1 _ (hmem.2 he), fun key item he => h.2 _ (hmem.2 he)⟩,
    fun h => ⟨fun m hm => h.1 _ _ (hmem.1 hm), fun m hm => h.2 _ _ (hmem.1 hm)⟩⟩

/-- The item that a document has for a setting is the one that is written. -/
theorem Fields.Built.item? {σ : Type} {form : Section σ} {title key : String} (h : f.Built members)
    (hkey : isField title key = true) (item : Item) :
    item? form title key members = some item ↔ (title, key, item) ∈ f.entries := by
  obtain ⟨fields, hperm, hfields⟩ := h.fields
  have hkeys : (fields.map (fun e => (e.1, e.2.1))).Nodup := (hperm.map _).nodup_iff.2 f.nodup_entries
  rw [item?_eq_last? h.nodup (hfields title key hkey) hkey, last?_eq_some_iff_mem (nodup_fieldsIn hkeys title),
    Fields.mem_fieldsIn, hperm.mem_iff]

/-- What is read from a value that may be missing stands for the value, if what is read from one does. -/
theorem Reads.getD {α β γ : Type} {read : Item → Read α} {make : β → Item} {o : Option β} {a : Option α}
    (h : Reads read (o.map make) a) (taken : α → γ) (written : β → γ)
    (hread : ∀ x y, read (make x) = .ok y → taken y = written x) {y : α} {x : β} (h0 : taken y = written x) :
    taken (a.getD y) = written (o.getD x) := by
  cases o with
  | none =>
    cases h
    exact h0
  | some z =>
    cases h with
    | some hz => exact hread _ _ hz

/-- The settings that are taken from a document are those that are written. -/
theorem Fields.Built.exact {s : Settings} (h : f.Built members) (hs : ofMembers members = .ok s) :
    s.server.host = f.host.getD "127.0.0.1" ∧ (s.server.port.toNat : Int) = f.port.getD 5000 ∧
      (s.server.bodyLimit : Int) = f.bodyLimit.getD 1048576 ∧
      s.database = .ofString (f.database.getD "jsonsage.db") := by
  obtain ⟨g, hg, rfl⟩ := ofMembers_eq_ok hs
  have hhost : Settings.item? serverSection "server" "host" members = f.host.map .text :=
    Option.ext (fun i => by rw [h.item? (by decide), Fields.mem_entries]; simp [eq_comm])
  have hport : Settings.item? serverSection "server" "port" members = f.port.map .integer :=
    Option.ext (fun i => by rw [h.item? (by decide), Fields.mem_entries]; simp [eq_comm])
  have hlimit : Settings.item? serverSection "server" "body_limit" members = f.bodyLimit.map .integer :=
    Option.ext (fun i => by rw [h.item? (by decide), Fields.mem_entries]; simp [eq_comm])
  have hdatabase : Settings.item? databaseSection "database" "path" members = f.database.map .text :=
    Option.ext (fun i => by rw [h.item? (by decide), Fields.mem_entries]; simp [eq_comm])
  -- what is read of a field is what is written in it
  have hreadHost (x y : String) (h : readText (.text x) = .ok y) : id y = id x := (Except.ok.inj h).symm
  have hreadPort (n : Int) (y : UInt16) (h : readPort (.integer n) = .ok y) : (y.toNat : Int) = n := by
    have hn := Fields.readPort_ok_iff.1 ⟨y, h⟩
    simp only [readPort] at h
    split at h
    · cases h
      rw [UInt16.toNat_ofNat']
      omega
    · cases h
  have hreadSize (n : Int) (y : Nat) (h : readSize (.integer n) = .ok y) : (y : Int) = n := by
    have hn := Fields.readSize_ok_iff.1 ⟨y, h⟩
    simp only [readSize, if_pos hn] at h
    cases h
    omega
  have hreadPath (x : String) (y : Path) (h : readPath (.text x) = .ok y) : id y = .ofString x :=
    (Except.ok.inj h).symm
  exact ⟨(hhost ▸ hg.host).getD id id hreadHost rfl, (hport ▸ hg.port).getD _ _ hreadPort rfl,
    (hlimit ▸ hg.bodyLimit).getD _ _ hreadSize rfl, (hdatabase ▸ hg.database).getD id Path.ofString hreadPath rfl⟩

end

/-! ## Files -/

section
variable {f : Fields} {disk : Ledger.Disk} {text : String} {ls others : List Line}

/-- The environment decides neither whether settings are loaded nor why they are not. -/
theorem load_outcome (disk : Ledger.Disk) (named : Option Path) (value : Option String) :
    ((∃ s, load disk named value = .ok s) ↔ ∃ s, load disk named none = .ok s) ∧
      ∀ e, load disk named value = .error e → load disk named none = .error e := by
  cases value with
  | none => exact ⟨Iff.rfl, fun _ h => h⟩
  | some d =>
    rw [load_some]
    split
    · exact ⟨Iff.rfl, fun _ h => h⟩
    · refine ⟨map_ok_iff, fun e he => ?_⟩
      cases hload : load disk named none with
      | ok s =>
        rw [hload] at he
        cases he
      | error e' =>
        rw [hload] at he
        cases he
        rfl

theorem message_eq (p : Path) {cause : Cause} (h : ∀ e, cause ≠ .unreadable e) :
    (⟨p, cause⟩ : Error).message = "Invalid config file " ++ p.toString := by
  cases cause with
  | unreadable e => exact absurd rfl (h e)
  | malformed => rfl
  | mismatch m => rfl

/-- A file is refused for what is in it. -/
theorem parse_ne_unreadable {cause : Cause} (h : parse text = .error cause) (e : FileError) :
    cause ≠ .unreadable e := by
  rintro rfl
  unfold parse at h
  split at h
  · cases h
  · next members _ =>
    generalize ofMembers members = r at h
    cases r <;> cases h

/-- A file that sets some of the settings is loaded if its integers are in their ranges. Each setting is then
the one that is written, or the standard one, but for the database that the environment names. -/
theorem written_loaded (named : Option Path) (h : f.Written ⟨79, 79, false⟩ text ls others)
    (hread : disk.readText (named.getD (.ofString "jsonsage.toml")) = .ok text) :
    f.Loaded disk named (named.getD (.ofString "jsonsage.toml")) := by
  have hload : load disk named none = (parse text).mapError (⟨named.getD (.ofString "jsonsage.toml"), ·⟩) :=
    load_of_readText named hread
  have hparse : ((∃ s, parse text = .ok s) ↔ f.InRange) ∧ ∀ s, parse text = .ok s →
      s.server.host = f.host.getD "127.0.0.1" ∧ (s.server.port.toNat : Int) = f.port.getD 5000 ∧
      (s.server.bodyLimit : Int) = f.bodyLimit.getD 1048576 ∧
      s.database = .ofString (f.database.getD "jsonsage.db") := by
    unfold parse
    -- the document is built, or a number in it has no room in 64 bits
    rcases h.document?_eq with ⟨members, hdocument, hbuilt, hitems⟩ | ⟨hdocument, hrange⟩
    · rw [hdocument]
      have hok (s : Settings) :
          (ofMembers members).mapError Cause.mismatch = .ok s ↔ ofMembers members = .ok s := by
        cases ofMembers members <;> simp [Except.mapError]
      simp only [hok]
      exact ⟨hbuilt.ok_iff hitems, fun s hs => hbuilt.exact hs⟩
    · rw [hdocument]
      exact ⟨⟨fun ⟨_, h⟩ => (nomatch h), fun h => absurd h hrange⟩, nofun⟩
  have hok (s : Settings) : load disk named none = .ok s ↔ parse text = .ok s := by
    rw [hload]
    cases parse text <;> simp [Except.mapError]
  constructor
  · exact fun value => (load_outcome disk named value).1.trans ((exists_congr hok).trans hparse.1)
  · exact fun s hs => hparse.2 s ((hok s).1 hs)
  · exact load_some disk named
  · intro value e he
    have hnone := (load_outcome disk named value).2 e he
    rw [hload] at hnone
    -- the file has been read, so the fault is in its text
    cases hcause : parse text with
    | ok s =>
      rw [hcause] at hnone
      cases hnone
    | error cause =>
      rw [hcause] at hnone
      cases hnone
      exact message_eq _ (parse_ne_unreadable hcause)

end

/-- A disk with nothing on it but a settings file. -/
def fileOf (text : String) : Ledger.Disk :=
  Directory.empty.put ["jsonsage.toml"] (.file (.bytes (Utf8.encode text)))

theorem readText_fileOf (text : String) : (fileOf text).readText (.ofString "jsonsage.toml") = .ok text := by
  have hread : Directory.read (fileOf text) (.ofString "jsonsage.toml") = .ok (.bytes (Utf8.encode text)) := rfl
  rw [Ledger.Disk.readText, hread]
  simp only [Ledger.Contents.text?, Utf8.decode?_encode]

theorem blanks_nil : Blanks [] := by simp [Blanks]

theorem blanks_space : Blanks [' '] := by simp [Blanks]

theorem bareKey (t : Chars) (some : t ≠ []) (h : t.all isKeyChar = true) : KeyText t (String.ofList t) :=
  .bare some (List.all_eq_true.1 h)

/-- Two settings among other lines, one of them with an escape. -/
def sample : String := "x = true\n[database]\npath = \"\\u0061\"\n[server]\ny.z = []\nport = 80\n"

def sampleFields : Fields := ⟨none, some 80, none, some "a"⟩

def sampleLines : List Line :=
  [.pair [] "x" (.boolean true), .table ["database"], .pair [] "path" (.text "a"), .table ["server"],
    .pair ["y"] "z" (.array []), .pair [] "port" (.integer 80), .nothing]

def sampleOthers : List Line :=
  [.pair [] "x" (.boolean true), .table ["database"], .table ["server"], .pair ["y"] "z" (.array []), .nothing]

theorem sample_document : DocumentText ⟨79, 79, false⟩ sample sampleLines := by
  have hkey (t : Chars) (some : t ≠ []) (h : t.all isKeyChar = true) :
      PathText 79 (t ++ [' ']) [String.ofList t] :=
    .last (w := []) blanks_nil (bareKey t some h) blanks_space
  have hheader (t : Chars) (some : t ≠ []) (h : t.all isKeyChar = true) :
      LineText ⟨79, 79, false⟩ ('[' :: (t ++ [']'])) (.table [String.ofList t]) := by
    have hpath : PathText 79 t [String.ofList t] := by
      have := PathText.last (n := 78) (w := []) blanks_nil (bareKey t some h) blanks_nil
      simpa using this
    exact .table (w := []) blanks_nil hpath (.blank blanks_nil)
  have hpair (p : Chars) (path : List String) {s : Chars} {key : String} {i : Item}
      (hp : PathText 79 p (path ++ [key])) (hs : Writes ⟨79, 79, false⟩ 79 s (.item i)) :
      LineText ⟨79, 79, false⟩ (p ++ '=' :: ' ' :: (s ++ [])) (.pair path key i) :=
    .pair (w := [' ']) hp blanks_space hs (.blank blanks_nil)
  have hx : LineText ⟨79, 79, false⟩ "x = true".toList (.pair [] "x" (.boolean true)) :=
    hpair ['x', ' '] [] (hkey ['x'] (by decide) (by decide)) .true
  have hpath : LineText ⟨79, 79, false⟩ "path = \"\\u0061\"".toList (.pair [] "path" (.text "a")) := by
    have hescape : Escape "u0061".toList 'a' := .short ⟨rfl, List.all_eq_true.1 (by decide), by decide⟩
    exact hpair "path ".toList [] (hkey "path".toList (by decide) (by decide))
      (.text (.basic (.escape hescape .nil)))
  have hnested : LineText ⟨79, 79, false⟩ "y.z = []".toList (.pair ["y"] "z" (.array [])) := by
    have hz : PathText 78 ['z', ' '] ["z"] :=
      .last (w := []) blanks_nil (bareKey ['z'] (by decide) (by decide)) blanks_space
    exact hpair "y.z ".toList ["y"]
      (.dot (w := []) blanks_nil (bareKey ['y'] (by decide) (by decide)) blanks_nil hz)
      (.array (.noElements .nil))
  have hport : LineText ⟨79, 79, false⟩ "port = 80".toList (.pair [] "port" (.integer 80)) := by
    have hinteger : IntegerText "80".toList 80 :=
      .decimal .none (.digits (.next (by decide) (.last (by decide))) (by decide))
    exact hpair "port ".toList [] (hkey "port".toList (by decide) (by decide))
      (.integer hinteger (by decide) (by decide))
  have hlines := LinesText.next hx .feed (.next (hheader "database".toList (by decide) (by decide)) .feed
    (.next hpath .feed (.next (hheader "server".toList (by decide) (by decide)) .feed
      (.next hnested .feed (.next hport .feed (.last (.nothing (.blank blanks_nil))))))))
  exact ⟨_, .inl (by decide +kernel), hlines⟩

theorem isField_x (key : String) : isField "x" key = false := by
  simp [isField]

theorem sample_layout : Layout isField [] sampleLines sampleOthers
    [("database", "path", .text "a"), ("server", "port", .integer 80)] :=
  .other (.pair (apart_singleton isField_x)) (.other (.table (foreign_singleton _)) (.field (by decide)
    (.other (.table (foreign_singleton _)) (.other (.pair (apart_cons_cons (by decide) _)) (.field (by decide)
      (.other .nothing .nil))))))

theorem written_loaded_sample : sampleFields.Written ⟨79, 79, false⟩ sample sampleLines sampleOthers ∧
    (fileOf sample).readText (.ofString "jsonsage.toml") = .ok sample ∧
    sampleFields.Loaded (fileOf sample) none (.ofString "jsonsage.toml") := by
  have hwritten : sampleFields.Written ⟨79, 79, false⟩ sample sampleLines sampleOthers :=
    ⟨sample_document, ⟨_, sample_layout, .swap _ _ []⟩, Option.isSome_iff_exists.1 (by decide +kernel)⟩
  exact ⟨hwritten, readText_fileOf sample, written_loaded none hwritten (readText_fileOf sample)⟩

/-- No settings at all. -/
def noFields : Fields := ⟨none, none, none, none⟩

/-- Arrays, one inside the other. -/
def nest : Nat → Item
  | 0 => .array []
  | n + 1 => .array [nest n]

/-- A key with 80 brackets open inside one another in its value. -/
def deep : String := String.ofList (['x'] ++ '=' :: (List.replicate 80 '[' ++ List.replicate 80 ']'))

/-- A key of 80 parts. -/
def long : String := String.ofList ((List.replicate 79 ['x', '.']).flatten ++ ['x'] ++ '=' :: ['0'])

/-- A decimal beyond the finite data. -/
def vast : String := "x=1e400"

theorem writes_nest {bounds : Bounds} (n : Nat) :
    Writes bounds (n + 1) (List.replicate (n + 1) '[' ++ List.replicate (n + 1) ']') (.item (nest n)) := by
  induction n with
  | zero => exact .array (.noElements .nil)
  | succ n ih =>
    have h := Writes.array (.lastElement (w := []) .nil ih .nil)
    have htext : '[' :: ([] ++ (List.replicate (n + 1) '[' ++ List.replicate (n + 1) ']' ++ []) ++ [']']) =
        List.replicate (n + 2) '[' ++ List.replicate (n + 2) ']' := by
      rw [List.replicate_succ' (n := n + 1) (a := ']')]
      simp [List.replicate_succ]
    rw [← htext]
    exact h

theorem pathText_long (n : Nat) : PathText (n + 1) ((List.replicate n ['x', '.']).flatten ++ ['x'])
    (List.replicate n "x" ++ ["x"]) := by
  have hx : KeyText ['x'] "x" := bareKey ['x'] (by decide) (by decide)
  induction n with
  | zero => exact .last (w := []) blanks_nil hx blanks_nil
  | succ n ih => exact .dot (w := []) blanks_nil hx blanks_nil ih

/-- A text with one unknown key, where the reader gives up. -/
theorem not_loaded {text : String} (h : (document? text).isNone = true) :
    ¬ noFields.Loaded (fileOf text) none (.ofString "jsonsage.toml") := by
  intro hloaded
  obtain ⟨s, hs⟩ := (hloaded.success none).2 ⟨by simp [noFields], by simp [noFields]⟩
  have hparse : parse text = .error .malformed := by rw [parse, Option.isNone_iff_eq_none.1 h]
  rw [load_of_readText none (readText_fileOf text), hparse] at hs
  cases hs

theorem written_of_line {bounds : Bounds} {s : Chars} {path : List String} {key : String} {item : Item}
    (hs : LineText bounds s (.pair path key item)) (hpath : Apart isField (path ++ [key]))
    (hbuild : (build? [.pair path key item]).isSome = true) :
    noFields.Written bounds (String.ofList s) [.pair path key item] [.pair path key item] :=
  ⟨⟨s, .inl String.toList_ofList, .last hs⟩, ⟨[], .other (.pair hpath) .nil, .refl _⟩,
    Option.isSome_iff_exists.1 hbuild⟩

/-- The reader stops at 80 brackets, at 80 parts of a key, and at a decimal that is infinite. -/
theorem limits_refuse :
    (∃ ls others, noFields.Written ⟨80, 79, false⟩ deep ls others ∧
      (fileOf deep).readText (.ofString "jsonsage.toml") = .ok deep ∧
      ¬ noFields.Loaded (fileOf deep) none (.ofString "jsonsage.toml")) ∧
    (∃ ls others, noFields.Written ⟨79, 80, false⟩ long ls others ∧
      (fileOf long).readText (.ofString "jsonsage.toml") = .ok long ∧
      ¬ noFields.Loaded (fileOf long) none (.ofString "jsonsage.toml")) ∧
    ∃ ls others, noFields.Written ⟨79, 79, true⟩ vast ls others ∧
      (fileOf vast).readText (.ofString "jsonsage.toml") = .ok vast ∧
      ¬ noFields.Loaded (fileOf vast) none (.ofString "jsonsage.toml") := by
  have hx (n : Nat) : PathText (n + 1) ['x'] ([] ++ ["x"]) :=
    .last (w := []) blanks_nil (bareKey ['x'] (by decide) (by decide)) blanks_nil
  have hpair {b : Bounds} {p s : Chars} {path : List String} {key : String} {i : Item}
      (hp : PathText b.parts p (path ++ [key])) (hs : Writes b b.depth s (.item i)) :
      LineText b (p ++ '=' :: s) (.pair path key i) := by
    simpa using LineText.pair (w := []) hp blanks_nil hs (.blank blanks_nil)
  have hdeep : LineText ⟨80, 79, false⟩ (['x'] ++ '=' :: (List.replicate 80 '[' ++ List.replicate 80 ']'))
      (.pair [] "x" (nest 79)) := hpair (hx 78) (writes_nest 79)
  have hlong : LineText ⟨79, 80, false⟩ ((List.replicate 79 ['x', '.']).flatten ++ ['x'] ++ '=' :: ['0'])
      (.pair (List.replicate 79 "x") "x" (.integer 0)) :=
    hpair (pathText_long 79) (.integer (.decimal .none .zero) (by decide) (by decide))
  have hvast : LineText ⟨79, 79, true⟩ (['x'] ++ '=' :: ['1', 'e', '4', '0', '0'])
      (.pair [] "x" (.real (Binary64.ofDecimal false 1 400))) := by
    have hdigits : Run 10 ['4', '0', '0'] ['4', '0', '0'] :=
      .next (by decide) (.next (by decide) (.last (by decide)))
    have hdecimal := DecimalText.mk .none (.digits (.last (c := '1') (by decide)) (by decide)) .absent
      (.present (.inl rfl) .none hdigits) (.inr (by simp))
    exact hpair (hx 78) (.decimal hdecimal (.inl rfl))
  refine ⟨⟨_, _, written_of_line hdeep (apart_singleton isField_x) rfl, readText_fileOf deep, not_loaded ?_⟩,
    ⟨_, _, written_of_line hlong (apart_cons_cons (isField_x _) _) ?_, readText_fileOf long, not_loaded ?_⟩,
    ⟨_, _, written_of_line hvast (apart_singleton isField_x) rfl, readText_fileOf vast, not_loaded ?_⟩⟩
  · decide +kernel
  · decide +kernel
  · decide +kernel
  · decide +kernel

end ShapeLedger.Settings
