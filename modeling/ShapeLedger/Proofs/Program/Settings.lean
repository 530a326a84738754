/-
What a settings file gives, and what the settings are then. A file gives a setting by the last item of its
key in the last section of that name; a section is a table, or an array of values in the order of the keys.
Settings that are loaded are those that the file gives, and the standard ones for the rest, but for the
database, which the environment may name instead.
-/
import ShapeLedger.Json.Reader
import ShapeLedger.Proofs.Files.Ways
import ShapeLedger.Settings
import Mathlib.Data.List.Induction

namespace ShapeLedger

open Files Toml
open Json (map_eq_ok bind_eq_ok)

namespace Settings

/-! ## Definitions -/

/-- The settings that a file gives. -/
structure Given where
  host : Option String
  port : Option UInt16
  bodyLimit : Option Nat
  database : Option Path

/-- The items that an item gives to the keys of a section. -/
def Section.pairs {σ : Type} (form : Section σ) : Item → List (String × Item)
  | .table _ members => members
  | .array elements => form.keys.zip elements
  | .tables elements => form.keys.zip (elements.map (.table .header ·))
  | _ => []

/-- The last item of a key. -/
def last? (key : String) (pairs : List (String × Item)) : Option Item := pairs.reverse.lookup key

/-- The item that a document has for a key of a section. -/
def item? {σ : Type} (form : Section σ) (title key : String) (members : Members) : Option Item :=
  (last? title members).bind (fun item => last? key (form.pairs item))

/-- What is read from an item, if there is one. -/
def Reads {α : Type} (read : Item → Read α) : Option Item → Option α → Prop :=
  Option.Rel (fun item a => read item = .ok a)

/-- A document gives these settings. -/
structure Gives (members : Members) (g : Given) : Prop where
  host : Reads readText (item? serverSection "server" "host" members) g.host
  port : Reads readPort (item? serverSection "server" "port" members) g.port
  bodyLimit : Reads readSize (item? serverSection "server" "body_limit" members) g.bodyLimit
  database : Reads readPath (item? databaseSection "database" "path" members) g.database

/-- The settings that are given where a file is named, where the standard file is there, and where it is
not. -/
inductive Source (disk : Ledger.Disk) : Option Path → Given → Prop where
  | named {p : Path} {text : String} {members : Members} {g : Given} (read : disk.readText p = .ok text)
      (document : document? text = some members) (gives : Gives members g) : Source disk (some p) g
  | standard {text : String} {members : Members} {g : Given}
      (there : Directory.holds disk (.ofString "jsonsage.toml") = true)
      (read : disk.readText (.ofString "jsonsage.toml") = .ok text)
      (document : document? text = some members) (gives : Gives members g) : Source disk none g
  | absent (h : Directory.holds disk (.ofString "jsonsage.toml") = false) :
      Source disk none ⟨none, none, none, none⟩

/-- The database that the environment names, if its variable is set and not empty. -/
def fromVariable (value : Option String) : Option Path :=
  value.bind (fun s => if s = "" then none else some (.ofString s))

/-! ## Sections -/

section
variable {σ α : Type} {read : Item → Read α} {key : String} {pairs : List (String × Item)}

theorem last?_append (k : String) (item : Item) :
    last? key (pairs ++ [(k, item)]) = if k = key then some item else last? key pairs := by
  unfold last?
  rw [List.reverse_append, List.reverse_singleton, List.singleton_append, List.lookup_cons]
  by_cases hk : k = key
  · simp [hk]
  · have hne : (key == k) = false := by simpa using Ne.symm hk
    simp [hk, hne]

/-- A setting that is set by one key has what is read from the last item of that key, or else what it had at
the start. -/
theorem foldlM_field {set : σ → String → Item → Read σ} (field : σ → α)
    (hset : ∀ s k item s', set s k item = .ok s' →
      if k = key then read item = .ok (field s') else field s' = field s)
    {start s : σ} (h : pairs.foldlM (fun s (k, item) => set s k item) start = .ok s) :
    ∃ a, Reads read (last? key pairs) a ∧ field s = a.getD (field start) := by
  induction pairs using List.reverseRecOn generalizing s with
  | nil =>
    cases h
    exact ⟨none, .none, rfl⟩
  | append_singleton pairs pair ih =>
    obtain ⟨k, item⟩ := pair
    rw [List.foldlM_append] at h
    obtain ⟨t, hrest, h⟩ := bind_eq_ok h
    obtain ⟨u, hstep, hu⟩ := bind_eq_ok h
    cases hu
    have hfield := hset t k item s hstep
    rw [last?_append]
    by_cases hk : k = key
    · rw [if_pos hk] at hfield ⊢
      exact ⟨some (field s), .some hfield, rfl⟩
    · rw [if_neg hk] at hfield ⊢
      obtain ⟨a, ha, he⟩ := ih hrest
      exact ⟨a, ha, hfield.trans he⟩

theorem Section.read_eq_ok {form : Section σ} {start s : σ} {item : Item} (h : form.read start item = .ok s) :
    form.setAll start (form.pairs item) = .ok s := by
  cases item <;> first | exact h | cases h

/-- A setting of a section, in a document where the section may be missing. -/
theorem Section.field {form : Section σ} (field : σ → α)
    (hset : ∀ s k item s', form.set s k item = .ok s' →
      if k = key then read item = .ok (field s') else field s' = field s)
    {title : String} {members : Members} {start : σ} {value : Option σ}
    (h : Reads (form.read start) (last? title members) value) :
    ∃ a, Reads read (item? form title key members) a ∧ field (value.getD start) = a.getD (field start) := by
  unfold item?
  cases hlast : last? title members with
  | none =>
    rw [hlast] at h
    cases h
    exact ⟨none, .none, rfl⟩
  | some item =>
    rw [hlast] at h
    cases h with
    | some h => exact foldlM_field field hset (Section.read_eq_ok h)

end

/-! ## Documents -/

section
variable {members : Members} {s : Settings}

/-- What one key of the server's section does. -/
theorem serverSection_set {t t' : Server} {k : String} {item : Item} (h : serverSection.set t k item = .ok t') :
    (k = "host" ∧ readText item = .ok t'.host ∧ t'.port = t.port ∧ t'.bodyLimit = t.bodyLimit) ∨
    (k = "port" ∧ readPort item = .ok t'.port ∧ t'.host = t.host ∧ t'.bodyLimit = t.bodyLimit) ∨
    (k = "body_limit" ∧ readSize item = .ok t'.bodyLimit ∧ t'.host = t.host ∧ t'.port = t.port) ∨
    (k ≠ "host" ∧ k ≠ "port" ∧ k ≠ "body_limit" ∧ t' = t) := by
  simp only [serverSection] at h
  split at h
  · next hk =>
    obtain ⟨a, ha, rfl⟩ := map_eq_ok h
    exact .inl ⟨hk, ha, rfl, rfl⟩
  · next hhost =>
    split at h
    · next hk =>
      obtain ⟨a, ha, rfl⟩ := map_eq_ok h
      exact .inr (.inl ⟨hk, ha, rfl, rfl⟩)
    · next hport =>
      split at h
      · next hk =>
        obtain ⟨a, ha, rfl⟩ := map_eq_ok h
        exact .inr (.inr (.inl ⟨hk, ha, rfl, rfl⟩))
      · next hlimit =>
        cases h
        exact .inr (.inr (.inr ⟨hhost, hport, hlimit, rfl⟩))

/-- What one section does. -/
theorem setSection_set {t t' : Settings} {k : String} {item : Item} (h : setSection t k item = .ok t') :
    (k = "server" ∧ serverSection.read standardServer item = .ok t'.server ∧ t'.database = t.database) ∨
    (k = "database" ∧ databaseSection.read standard.database item = .ok t'.database ∧ t'.server = t.server) ∨
    (k ≠ "server" ∧ k ≠ "database" ∧ t' = t) := by
  unfold setSection at h
  split at h
  · next hk =>
    obtain ⟨a, ha, rfl⟩ := map_eq_ok h
    exact .inl ⟨hk, ha, rfl⟩
  · next hserver =>
    split at h
    · next hk =>
      obtain ⟨a, ha, rfl⟩ := map_eq_ok h
      exact .inr (.inl ⟨hk, ha, rfl⟩)
    · next hdatabase =>
      cases h
      exact .inr (.inr ⟨hserver, hdatabase, rfl⟩)

/-- The server's settings are those that its section gives, and the standard ones for the rest. -/
theorem server_given {value : Option Server}
    (h : Reads (serverSection.read standardServer) (last? "server" members) value) :
    ∃ host port bodyLimit, Reads readText (item? serverSection "server" "host" members) host ∧
      Reads readPort (item? serverSection "server" "port" members) port ∧
      Reads readSize (item? serverSection "server" "body_limit" members) bodyLimit ∧
      value.getD standardServer =
        ⟨host.getD "127.0.0.1", port.getD 5000, bodyLimit.getD (1024 * 1024)⟩ := by
  -- each setting of the section changes one field, and leaves the two others
  obtain ⟨host, hhost, hh⟩ : ∃ a, Reads readText (item? serverSection "server" "host" members) a ∧
      (value.getD standardServer).host = a.getD standardServer.host := by
    refine Section.field Server.host (fun t k item t' hset => ?_) h
    rcases serverSection_set hset with ⟨rfl, hr, -⟩ | ⟨rfl, -, he, -⟩ | ⟨rfl, -, he, -⟩ | ⟨hk, -, -, rfl⟩
    · rwa [if_pos rfl]
    · rwa [if_neg (by decide)]
    · rwa [if_neg (by decide)]
    · rw [if_neg hk]
  obtain ⟨port, hport, hp⟩ : ∃ a, Reads readPort (item? serverSection "server" "port" members) a ∧
      (value.getD standardServer).port = a.getD standardServer.port := by
    refine Section.field Server.port (fun t k item t' hset => ?_) h
    rcases serverSection_set hset with ⟨rfl, -, he, -⟩ | ⟨rfl, hr, -⟩ | ⟨rfl, -, -, he⟩ | ⟨-, hk, -, rfl⟩
    · rwa [if_neg (by decide)]
    · rwa [if_pos rfl]
    · rwa [if_neg (by decide)]
    · rw [if_neg hk]
  obtain ⟨limit, hlimit, hl⟩ : ∃ a, Reads readSize (item? serverSection "server" "body_limit" members) a ∧
      (value.getD standardServer).bodyLimit = a.getD standardServer.bodyLimit := by
    refine Section.field Server.bodyLimit (fun t k item t' hset => ?_) h
    rcases serverSection_set hset with ⟨rfl, -, -, he⟩ | ⟨rfl, -, -, he⟩ | ⟨rfl, hr, -⟩ | ⟨-, -, hk, rfl⟩
    · rwa [if_neg (by decide)]
    · rwa [if_neg (by decide)]
    · rwa [if_pos rfl]
    · rw [if_neg hk]
  refine ⟨host, port, limit, hhost, hport, hlimit, ?_⟩
  generalize value.getD standardServer = server at hh hp hl
  obtain ⟨_, _, _⟩ := server
  simp only at hh hp hl
  rw [hh, hp, hl]
  rfl

theorem database_given {value : Option Path}
    (h : Reads (databaseSection.read standard.database) (last? "database" members) value) :
    ∃ database, Reads readPath (item? databaseSection "database" "path" members) database ∧
      value.getD standard.database = database.getD (.ofString "jsonsage.db") := by
  refine Section.field id (fun t k item t' hset => ?_) h
  simp only [databaseSection] at hset
  split at hset
  · next hk => rwa [if_pos hk]
  · next hk =>
    cases hset
    rw [if_neg hk]

/-- The settings of a document are those that it gives, and the standard ones for the rest. -/
theorem ofMembers_eq_ok (h : ofMembers members = .ok s) : ∃ g, Gives members g ∧
    s = ⟨⟨g.host.getD "127.0.0.1", g.port.getD 5000, g.bodyLimit.getD (1024 * 1024)⟩,
      g.database.getD (.ofString "jsonsage.db")⟩ := by
  obtain ⟨server, hserver, hs⟩ : ∃ v, Reads (serverSection.read standardServer) (last? "server" members) v ∧
      s.server = v.getD standard.server := by
    refine foldlM_field Settings.server (fun t k item t' hset => ?_) h
    rcases setSection_set hset with ⟨rfl, hr, -⟩ | ⟨rfl, -, he⟩ | ⟨hk, -, rfl⟩
    · rwa [if_pos rfl]
    · rwa [if_neg (by decide)]
    · rw [if_neg hk]
  obtain ⟨database, hdatabase, hd⟩ : ∃ v,
      Reads (databaseSection.read standard.database) (last? "database" members) v ∧
        s.database = v.getD standard.database := by
    refine foldlM_field Settings.database (fun t k item t' hset => ?_) h
    rcases setSection_set hset with ⟨rfl, -, he⟩ | ⟨rfl, hr, -⟩ | ⟨-, hk, rfl⟩
    · rwa [if_neg (by decide)]
    · rwa [if_pos rfl]
    · rw [if_neg hk]
  obtain ⟨host, port, limit, hhost, hport, hlimit, hes⟩ := server_given hserver
  obtain ⟨path, hpath, hed⟩ := database_given hdatabase
  refine ⟨⟨host, port, limit, path⟩, ⟨hhost, hport, hlimit, hpath⟩, ?_⟩
  obtain ⟨_, _⟩ := s
  cases hs.trans hes
  cases hd.trans hed
  rfl

end

/-! ## Loading -/

section
variable {disk : Ledger.Disk} {named : Option Path} {value : Option String} {s : Settings} {g : Given}

theorem readFile_eq_ok {p : Path} (h : readFile disk p = .ok s) : ∃ text members g,
    disk.readText p = .ok text ∧ document? text = some members ∧ Gives members g ∧
      s = ⟨⟨g.host.getD "127.0.0.1", g.port.getD 5000, g.bodyLimit.getD (1024 * 1024)⟩,
        g.database.getD (.ofString "jsonsage.db")⟩ := by
  unfold readFile at h
  cases hread : disk.readText p with
  | error e =>
    rw [hread] at h
    cases h
  | ok text =>
    simp only [hread, parse] at h
    cases hdocument : document? text with
    | none =>
      rw [hdocument] at h
      cases h
    | some members =>
      simp only [hdocument] at h
      cases hmembers : ofMembers members with
      | error e =>
        rw [hmembers] at h
        cases h
      | ok t =>
        rw [hmembers] at h
        cases h
        obtain ⟨g, hg, he⟩ := ofMembers_eq_ok hmembers
        exact ⟨text, members, g, rfl, hdocument, hg, he⟩

/-- The environment is asked once the file has been read. -/
theorem load_environment (h : load disk named value = .ok s) : ∃ t, load disk named none = .ok t ∧
    s.server = t.server ∧ s.database = (fromVariable value).getD t.database := by
  unfold load at h ⊢
  simp only at h ⊢
  split at h
  · cases h
  · next t ht =>
    refine ⟨t, rfl, ?_⟩
    cases value with
    | none =>
      cases h
      exact ⟨rfl, rfl⟩
    | some path =>
      simp only [String.isEmpty_iff] at h
      by_cases hpath : path = ""
      · rw [if_pos hpath] at h
        cases h
        exact ⟨rfl, by simp [fromVariable, hpath]⟩
      · rw [if_neg hpath] at h
        cases h
        exact ⟨rfl, by simp [fromVariable, hpath]⟩

/-- What is loaded: each setting is the one that the file gives, or the standard one; the environment goes
before the file for the database, and is asked for nothing else. -/
theorem load_eq_ok (h : load disk named value = .ok s) : ∃ g, Source disk named g ∧
    s.server = ⟨g.host.getD "127.0.0.1", g.port.getD 5000, g.bodyLimit.getD (1024 * 1024)⟩ ∧
    s.database = ((fromVariable value).or g.database).getD (.ofString "jsonsage.db") := by
  obtain ⟨t, ht, hserver, hdatabase⟩ := load_environment h
  -- what the file gives, before the environment is asked
  obtain ⟨g, hg, he⟩ : ∃ g, Source disk named g ∧
      t = ⟨⟨g.host.getD "127.0.0.1", g.port.getD 5000, g.bodyLimit.getD (1024 * 1024)⟩,
        g.database.getD (.ofString "jsonsage.db")⟩ := by
    unfold load at ht
    cases named with
    | some p =>
      simp only at ht
      split at ht
      · cases ht
      · next hread =>
        cases ht
        obtain ⟨text, members, g, hread, hdocument, hg, he⟩ := readFile_eq_ok hread
        exact ⟨g, .named hread hdocument hg, he⟩
    | none =>
      by_cases hthere : Directory.holds disk standardFile = true
      · simp only [hthere, if_true] at ht
        split at ht
        · cases ht
        · next hread =>
          cases ht
          obtain ⟨text, members, g, hread, hdocument, hg, he⟩ := readFile_eq_ok hread
          exact ⟨g, .standard hthere hread hdocument hg, he⟩
      · simp only [hthere] at ht
        cases ht
        exact ⟨_, .absent (Bool.eq_false_iff.2 hthere), rfl⟩
  refine ⟨g, hg, ?_, ?_⟩
  · rw [hserver, he]
  · rw [hdatabase, he]
    cases fromVariable value <;> rfl

/-- A path that a file gives has been read from a text. -/
theorem Source.database (h : Source disk named g) {p : Path} (hp : g.database = some p) :
    ∃ text, p = .ofString text := by
  have hgives {members : Members} (hg : Gives members g) : ∃ text, p = .ofString text := by
    have hread := hg.database
    generalize item? databaseSection "database" "path" members = item? at hread
    rw [hp] at hread
    cases hread with
    | @some item _ hread =>
      unfold readPath at hread
      split at hread
      · cases hread
        exact ⟨_, rfl⟩
      · cases hread
  cases h with
  | named _ _ hg => exact hgives hg
  | standard _ _ _ hg => exact hgives hg
  | absent => cases hp

theorem Reads.unique {α : Type} {read : Item → Read α} {item? : Option Item} {a b : Option α}
    (h : Reads read item? a) (h' : Reads read item? b) : a = b := by
  cases h with
  | none =>
    cases h'
    rfl
  | some ha =>
    cases h' with
    | some hb => rw [Except.ok.inj (ha.symm.trans hb)]

theorem Gives.unique {members : Members} {g' : Given} (h : Gives members g) (h' : Gives members g') : g = g' := by
  obtain ⟨_, _, _, _⟩ := g
  obtain ⟨_, _, _, _⟩ := g'
  obtain rfl := h.host.unique h'.host
  obtain rfl := h.port.unique h'.port
  obtain rfl := h.bodyLimit.unique h'.bodyLimit
  obtain rfl := h.database.unique h'.database
  rfl

/-- Only one thing is given by what is on the disk. -/
theorem Source.unique {g' : Given} (h : Source disk named g) (h' : Source disk named g') : g = g' := by
  have hgives {p : Path} {text text' : String} {members members' : Members}
      (hr : disk.readText p = .ok text) (hd : document? text = some members) (hg : Gives members g)
      (hr' : disk.readText p = .ok text') (hd' : document? text' = some members')
      (hg' : Gives members' g') : g = g' := by
    cases Except.ok.inj (hr.symm.trans hr')
    cases Option.some.inj (hd.symm.trans hd')
    exact hg.unique hg'
  cases h with
  | named hr hd hg =>
    cases h' with
    | named hr' hd' hg' => exact hgives hr hd hg hr' hd' hg'
  | standard hthere hr hd hg =>
    cases h' with
    | standard _ hr' hd' hg' => exact hgives hr hd hg hr' hd' hg'
    | absent hnot =>
      rw [hthere] at hnot
      cases hnot
  | absent hnot =>
    cases h' with
    | standard hthere _ _ _ =>
      rw [hthere] at hnot
      cases hnot
    | absent _ => rfl

/-- A file that is named gives the same settings whatever is at another location, unless a directory is
there. -/
theorem load_elsewhere {disk' : Ledger.Disk} {p : Path} {l : Location}
    (hsame : ∀ k ≠ l, disk'.entry? k = disk.entry? k) (hl : disk.entry? l ≠ some .directory)
    (hp : Directory.destination p ≠ l) (h : load disk (some p) value = .ok s) :
    load disk' (some p) value = .ok s := by
  have hread (text : String) (hr : disk.readText p = .ok text) : disk'.readText p = .ok text := by
    unfold Ledger.Disk.readText at hr ⊢
    split at hr
    · cases hr
    · next c hc => rwa [Directory.read_elsewhere hsame hl hp hc]
  have hfile (t : Settings) (ht : readFile disk p = .ok t) : readFile disk' p = .ok t := by
    unfold readFile at ht ⊢
    split at ht
    · cases ht
    · next text htext => rwa [hread text htext]
  unfold load at h ⊢
  simp only at h ⊢
  split at h
  · cases h
  · next t ht =>
    rw [hfile t ht]
    exact h

end

end Settings

end ShapeLedger
