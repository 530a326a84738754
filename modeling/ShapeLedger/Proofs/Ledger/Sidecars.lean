/-
The files beside a database: its journal, the changes written ahead, and their index. Looking at a database
and writing it remove such files and no others, and neither makes or removes a directory; so whatever is not
in one of these places is left alone, except the database itself. No two databases have a place in common
unless one of them is itself in a place beside the other.
-/
import ShapeLedger.Ledger.Disk
import ShapeLedger.Proofs.Files.Elsewhere

namespace ShapeLedger.Ledger

open Files

/-! ## Places -/

/-- A place beside the database at `l`. -/
inductive Sidecar (l : Location) : Location → Prop where
  | journal : Sidecar l (journalOf l)
  | ahead : Sidecar l (aheadOf l)
  | index : Sidecar l (indexOf l)

theorem sidecar_iff {l k : Location} : Sidecar l k ↔ k = journalOf l ∨ k = aheadOf l ∨ k = indexOf l := by
  constructor
  · rintro (_ | _ | _) <;> simp
  · rintro (rfl | rfl | rfl)
    exacts [.journal, .ahead, .index]

instance (l k : Location) : Decidable (Sidecar l k) := decidable_of_iff _ sidecar_iff.symm

/-- A place beside the database at `l` where a directory would be in its way. -/
inductive Blocking (l : Location) : Location → Prop where
  | journal : Blocking l (journalOf l)
  | ahead : Blocking l (aheadOf l)

theorem Blocking.sidecar {l k : Location} (h : Blocking l k) : Sidecar l k := by
  cases h
  exacts [.journal, .ahead]

theorem blocking_iff {l k : Location} : Blocking l k ↔ k = journalOf l ∨ k = aheadOf l := by
  constructor
  · rintro (_ | _) <;> simp
  · rintro (rfl | rfl)
    exacts [.journal, .ahead]

instance (l k : Location) : Decidable (Blocking l k) := decidable_of_iff _ blocking_iff.symm

/-- The database at `m` is neither in the file at `l` nor in the way of that, and that is not beside it. -/
structure Apart (l m : Location) : Prop where
  ne : m ≠ l
  notBlocking : ¬ Blocking l m
  notUnder : ¬ Sidecar m l

section
variable {l m k : Location} {s t : String}

theorem beside_ne (h : s ≠ "") (l : Location) : beside l s ≠ l := by
  rcases List.eq_nil_or_concat' l with rfl | ⟨init, n, rfl⟩
  · exact List.cons_ne_nil _ _
  · intro he
    rw [beside, List.dropLast_concat, List.getLast?_concat] at he
    have hname : n ++ s = n := List.singleton_inj.1 (List.append_cancel_left he)
    have hlength := congrArg String.length hname
    rw [String.length_append] at hlength
    exact h (String.length_eq_zero_iff.1 (by omega))

theorem Sidecar.ne (h : Sidecar l k) : k ≠ l := by
  cases h <;> exact beside_ne (by decide) l

theorem Sidecar.not_self : ¬ Sidecar l l := fun h => h.ne rfl

/-- What is beside two files can be told from its name, where the suffixes can. -/
theorem eq_of_beside_eq (hl : l ≠ []) (hm : m ≠ []) (hst : ∀ x y : String, x ++ s = y ++ t → x = y)
    (h : beside l s = beside m t) : l = m := by
  obtain ⟨init, n, rfl⟩ := (List.eq_nil_or_concat' l).resolve_left hl
  obtain ⟨init', n', rfl⟩ := (List.eq_nil_or_concat' m).resolve_left hm
  simp only [beside, List.dropLast_concat, List.getLast?_concat, Option.getD_some] at h
  obtain ⟨rfl, hname⟩ := List.append_inj' h rfl
  rw [hst n n' (List.singleton_inj.1 hname)]

/-- A place is beside one database only. -/
theorem Sidecar.unique (hl : l ≠ []) (hm : m ≠ []) (h : Sidecar l k) (h' : Sidecar m k) : l = m := by
  have hsame (s x y : String) (he : x ++ s = y ++ s) : x = y := by
    have hlist := congrArg String.toList he
    rw [String.toList_append, String.toList_append] at hlist
    exact String.toList_inj.1 (List.append_cancel_right hlist)
  -- two suffixes that differ do so in one of their last three letters
  have hdiffer {s t : String} (hst : s.toList.reverse.take 3 ≠ t.toList.reverse.take 3)
      (hs : 3 ≤ s.toList.length) (ht : 3 ≤ t.toList.length) (x y : String) (he : x ++ s = y ++ t) : x = y := by
    have hlist := congrArg (fun u : String => u.toList.reverse.take 3) he
    simp only [String.toList_append, List.reverse_append] at hlist
    rw [List.take_append_of_le_length (by simpa using hs), List.take_append_of_le_length (by simpa using ht)]
      at hlist
    exact absurd hlist hst
  generalize hk : k = k' at h'
  cases h <;> cases h' <;> refine eq_of_beside_eq hl hm ?_ hk <;>
    first
    | exact hsame _
    | exact hdiffer (by decide) (by decide) (by decide)

theorem Apart.disjoint (h : Apart l m) (hl : l ≠ []) (hm : m ≠ []) (hk : k = m ∨ Sidecar m k) :
    k ≠ l ∧ ¬ Blocking l k := by
  rcases hk with rfl | hk
  · exact ⟨h.ne, h.notBlocking⟩
  · exact ⟨fun he => h.notUnder (he ▸ hk), fun hs => h.ne (hs.sidecar.unique hl hm hk).symm⟩

end

/-! ## Databases -/

namespace Disk

section
variable {d e : Disk} {l k : Location} {old new db : Database}

/-- The same entry is at the location in both, and the same places beside it are directories. -/
structure Agree (l : Location) (d e : Disk) : Prop where
  here : d.entry? l = e.entry? l
  journal : d.entry? (journalOf l) = some .directory ↔ e.entry? (journalOf l) = some .directory
  ahead : d.entry? (aheadOf l) = some .directory ↔ e.entry? (aheadOf l) = some .directory

theorem obstruction?_eq_none : d.obstruction? l = none ↔
    d.entry? (journalOf l) ≠ some .directory ∧ d.entry? (aheadOf l) ≠ some .directory := by
  unfold obstruction?
  simp only [Ne, ← Directory.isDirectoryAt_iff]
  split <;> simp_all

theorem Agree.obstruction? (h : Agree l d e) : d.obstruction? l = e.obstruction? l := by
  have hjournal : d.isDirectoryAt (journalOf l) = e.isDirectoryAt (journalOf l) := by
    rw [Bool.eq_iff_iff, Directory.isDirectoryAt_iff, Directory.isDirectoryAt_iff, h.journal]
  have hahead : d.isDirectoryAt (aheadOf l) = e.isDirectoryAt (aheadOf l) := by
    rw [Bool.eq_iff_iff, Directory.isDirectoryAt_iff, Directory.isDirectoryAt_iff, h.ahead]
  have hdata : d.holdsData l = e.holdsData l := by
    unfold holdsData
    rw [h.here]
  simp only [Disk.obstruction?, hjournal, hahead, hdata]

theorem Agree.database (h : Agree l d e) : d.database l = e.database l := by
  simp only [Disk.database, h.obstruction?, h.here]

theorem database_eq_ok : d.database l = .ok db ↔
    ∃ c, d.entry? l = some (.file c) ∧ d.obstruction? l = none ∧ c.database? = .ok db := by
  unfold database
  rcases d.entry? l with _ | c | _
  · simp
  · cases d.obstruction? l <;> simp
  · simp

theorem kind?_of_database (h : d.database l = .ok db) : d.kind? l = some (.file ()) := by
  obtain ⟨c, hc, -⟩ := database_eq_ok.1 h
  exact Directory.kind?_eq_file.2 ⟨c, hc⟩

/-! ## Looking at a database -/

theorem dropJournal_trims (d : Disk) (l : Location) : Directory.Trims (Sidecar l) d (d.dropJournal l) := by
  unfold dropJournal
  split
  · exact Directory.trims_removeFile .journal d
  · exact .refl d

theorem dropAhead_trims (d : Disk) (l : Location) : Directory.Trims (Sidecar l) d (d.dropAhead l) := by
  unfold dropAhead
  split
  · have hahead := Directory.trims_removeFile (Sidecar.ahead (l := l)) d
    simp only
    split
    · exact hahead.trans (Directory.trims_removeFile .index _)
    · exact hahead
  · exact .refl d

/-- Looking at a database removes files beside it, and nothing else. -/
theorem recovered_trims (d : Disk) (l : Location) : Directory.Trims (Sidecar l) d (d.recovered l) := by
  unfold recovered
  split
  · exact .refl d
  · exact (dropJournal_trims d l).trans (dropAhead_trims _ l)

/-- Where files beside it have been removed, the database is what it was. -/
theorem agree_of_trims (h : Directory.Trims (Sidecar l) d e) : Agree l d e :=
  ⟨(h.entry_eq fun hl => absurd rfl hl.ne).symm, h.directory.symm, h.directory.symm⟩

/-- Neither a journal of the database at `l` nor changes written ahead are there. -/
structure NoneBeside (d : Disk) (l : Location) : Prop where
  journal : d.kind? (journalOf l) ≠ some (.file ())
  ahead : d.kind? (aheadOf l) ≠ some (.file ())

/-- Then looking at the database changes nothing. -/
theorem NoneBeside.recovered (h : d.NoneBeside l) : d.recovered l = d := by
  -- nothing is stale that is not there
  have hjournal : d.dropJournal l = d := by
    have hno : d.hasStaleJournal l = false := by
      unfold hasStaleJournal
      split
      · next c hc => exact absurd (Directory.kind?_eq_file.2 ⟨c, hc⟩) h.journal
      · rfl
    rw [dropJournal, hno, if_neg Bool.false_ne_true]
  have hahead : d.dropAhead l = d := by
    have hno : d.holdsData (aheadOf l) = false := by
      unfold holdsData
      split
      · next c hc => exact absurd (Directory.kind?_eq_file.2 ⟨c, hc⟩) h.ahead
      · rfl
    rw [dropAhead, hno, if_neg Bool.false_ne_true]
  unfold Disk.recovered
  split
  · rfl
  · rw [hjournal, hahead]

theorem NoneBeside.adds {here : Location → Prop} (h : d.NoneBeside l) (ha : Directory.Adds here d e) :
    e.NoneBeside l := by
  have hkept {k : Location} (hk : d.kind? k ≠ some (.file ())) : e.kind? k ≠ some (.file ()) := by
    rcases ha k with he | ⟨-, hd, -⟩
    · rwa [Directory.kind?, he]
    · rw [Directory.kind?_eq_directory.2 hd]
      simp
  exact ⟨hkept h.journal, hkept h.ahead⟩

theorem NoneBeside.put (h : d.NoneBeside l) (x : Entry Contents) : Disk.NoneBeside (Directory.put d l x) l := by
  constructor
  · rw [Directory.kind?, Directory.entry?_put_of_ne Sidecar.journal.ne]
    exact h.journal
  · rw [Directory.kind?, Directory.entry?_put_of_ne Sidecar.ahead.ne]
    exact h.ahead

/-! ## Writing a database -/

/-- A database that is written is put in its place, and then files beside it are removed. -/
theorem write_trims (d : Disk) (l : Location) (db : Database) : d.write l db = d ∨
    Directory.Trims (Blocking l) (d.put l (.file (.database db))) (d.write l db) := by
  unfold write
  split
  · exact .inl rfl
  · exact .inr (Directory.trims_removeFile .journal _)

/-- The database that is written is found afterwards. -/
theorem database_write (h : d.database l = .ok old) (new : Database) : (d.write l new).database l = .ok new := by
  obtain ⟨c, hc, hfree, -⟩ := database_eq_ok.1 h
  have ha : Directory.isAround l = false := Directory.isAround_of_entry? (by rw [hc]; simp)
  unfold write
  split
  · next hsame =>
    rw [h] at hsame
    rw [h, Option.some.inj hsame]
  -- the file is put there, and what is removed afterwards is beside it
  · have htrims := Directory.trims_removeFile (Sidecar.journal (l := l)) (d.put l (.file (.database new)))
    rw [← (agree_of_trims htrims).database, database_eq_ok]
    refine ⟨_, Directory.entry?_put ha _, ?_, rfl⟩
    rw [obstruction?_eq_none] at hfree ⊢
    rwa [Directory.entry?_put_of_ne Sidecar.journal.ne, Directory.entry?_put_of_ne Sidecar.ahead.ne]

/-- What is written changes no other entry, but that files beside the database are removed. -/
theorem write_keeps (h : d.kind? l = some (.file ())) (db : Database) :
    Directory.Keeps (Sidecar l) d (d.write l db) := by
  rcases write_trims d l db with he | ht
  · rw [he]
    exact .refl d
  · exact (Directory.keeps_put h).trans (ht.keeps.mono fun _ => Blocking.sidecar)

/-- Where no journal is, writing a database changes its file only. -/
theorem entry?_write (hj : d.kind? (journalOf l) ≠ some (.file ())) (hk : k ≠ l) (db : Database) :
    Directory.entry? (d.write l db) k = d.entry? k := by
  have hput : (d.put l (.file (.database db))).removeFile (journalOf l) = d.put l (.file (.database db)) := by
    refine Directory.removeFile_eq_self ?_
    rwa [Directory.kind?, Directory.entry?_put_of_ne Sidecar.journal.ne]
  unfold write
  split
  · rfl
  · rw [hput, Directory.entry?_put_of_ne hk]

end

/-! ## Another file -/

section
variable {d e : Disk} {l m : Location} {beside : Location → Prop} {db : Database}

theorem write_spares (hne : l ≠ m) (h : ¬ Sidecar m l) (hm : d.kind? m = some (.file ())) (db : Database) :
    Directory.Spares l beside d (d.write m db) := by
  rcases write_trims d m db with he | ht
  · rw [he]
    exact .refl l d
  · refine (Directory.spares_put hne fun hd => ?_).trans (ht.spares fun hb => h hb.sidecar)
    rw [Directory.kind?_eq_directory.2 hd] at hm
    cases hm

/-- Databases that have nothing to do with the file in which two disks differ are the same in both. -/
theorem agree_of_twins (h : Directory.Twins l (Blocking l) d e) (hm : Apart l m) : Agree m d e :=
  ⟨h.elsewhere m hm.ne hm.notBlocking, h.directory, h.directory⟩

/-- Writing a file leaves twins, with the disk as it was. -/
theorem twins_write (h : d.kind? l = some (.file ())) (db : Database) :
    Directory.Twins l (Blocking l) d (d.write l db) := by
  rcases write_trims d l db with he | ht
  · rw [he]
    exact .refl h
  -- first the file gets its contents, and then a journal may go
  · have hput : Directory.Keeps (Sidecar l) d (d.put l (.file (.database db))) := Directory.keeps_put h
    have hfile : (d.write l db).kind? l = some (.file ()) := (write_keeps h db).file l Sidecar.not_self h
    have hdirectory (k : Location) (hk : k ≠ l) :
        d.kind? k = some .directory ↔ (d.write l db).kind? k = some .directory := by
      rw [Directory.kind?_eq_directory, Directory.kind?_eq_directory, ht.directory, Directory.entry?_put_of_ne hk]
    refine ⟨(ht.keeps.above.trans hput.above).symm, ⟨h, hfile⟩, fun k hk => hdirectory k hk.sidecar.ne, fun k hk hs => ?_⟩
    rw [ht.entry_eq fun hlost => absurd hlost hs, Directory.entry?_put_of_ne hk]

end

/-! ## Another database, on both of two disks -/

section
variable {d e : Disk} {l m k : Location}

theorem holdsData_congr (h : d.entry? k = e.entry? k) : d.holdsData k = e.holdsData k := by
  unfold holdsData
  rw [h]

/-- Twins have the same in the places of another database. -/
theorem entry?_of_twins (h : Directory.Twins l (Blocking l) d e) (hl : l ≠ []) (hm : m ≠ []) (ha : Apart l m)
    (hk : k = m ∨ Sidecar m k) : d.entry? k = e.entry? k :=
  h.elsewhere k (ha.disjoint hl hm hk).1 (ha.disjoint hl hm hk).2

theorem removeFile_twins (h : Directory.Twins l (Blocking l) d e) (hl : l ≠ []) (hm : m ≠ []) (ha : Apart l m)
    (hk : Sidecar m k) : Directory.Twins l (Blocking l) (d.removeFile k) (e.removeFile k) :=
  h.removeFile (ha.disjoint hl hm (.inr hk)).1 (ha.disjoint hl hm (.inr hk)).2

theorem dropJournal_twins (h : Directory.Twins l (Blocking l) d e) (hl : l ≠ []) (hm : m ≠ []) (ha : Apart l m) :
    Directory.Twins l (Blocking l) (d.dropJournal m) (e.dropJournal m) := by
  have hstale : d.hasStaleJournal m = e.hasStaleJournal m := by
    unfold hasStaleJournal
    rw [entry?_of_twins h hl hm ha (.inr .journal), holdsData_congr (entry?_of_twins h hl hm ha (.inl rfl))]
  unfold dropJournal
  rw [hstale]
  split
  · exact removeFile_twins h hl hm ha .journal
  · exact h

theorem dropAhead_twins (h : Directory.Twins l (Blocking l) d e) (hl : l ≠ []) (hm : m ≠ []) (ha : Apart l m) :
    Directory.Twins l (Blocking l) (d.dropAhead m) (e.dropAhead m) := by
  unfold dropAhead
  rw [holdsData_congr (entry?_of_twins h hl hm ha (.inr .ahead)),
    holdsData_congr (entry?_of_twins h hl hm ha (.inl rfl))]
  have hahead := removeFile_twins h hl hm ha .ahead
  split
  · simp only
    split
    · exact removeFile_twins hahead hl hm ha .index
    · exact hahead
  · exact h

/-- Looking at another database on both leaves twins. -/
theorem recovered_twins (h : Directory.Twins l (Blocking l) d e) (hl : l ≠ []) (hm : m ≠ []) (ha : Apart l m) :
    Directory.Twins l (Blocking l) (d.recovered m) (e.recovered m) := by
  unfold recovered
  rw [(agree_of_twins h ha).obstruction?]
  split
  · exact h
  · exact dropAhead_twins (dropJournal_twins h hl hm ha) hl hm ha

/-- Writing another database on both leaves twins. -/
theorem write_twins (h : Directory.Twins l (Blocking l) d e) (hl : l ≠ []) (hm : m ≠ []) (ha : Apart l m)
    (db : Database) : Directory.Twins l (Blocking l) (d.write m db) (e.write m db) := by
  unfold write
  rw [(agree_of_twins h ha).database]
  split
  · exact h
  · exact removeFile_twins (h.put ha.ne ha.notBlocking _) hl hm ha .journal

end

end Disk

end ShapeLedger.Ledger
