/-
What the operations on a directory leave alone. Most of them only add entries: what was found at a location is
found there afterwards, as it was after directories have been made, and at least of the same kind after a file
has been written. Files may be removed, directories never; so a way that could be gone once can be gone ever
after, since where a path leads depends on the directories alone.
-/
import ShapeLedger.Files.Directory
import Mathlib.Data.List.Basic

namespace ShapeLedger.Files

/-! ## Definitions -/

deriving instance DecidableEq for Entry

/-- An entry without what it holds. -/
def Entry.kind {α : Type} : Entry α → Entry Unit
  | .file _ => .file ()
  | .directory => .directory

namespace Directory

variable {α : Type}

/-- What kind of entry is at a location. -/
def kind? (d : Directory α) (l : Location) : Option (Entry Unit) := Option.map Entry.kind <| d.entry? l

/-- What is in `d` is in `e` too, and of the same kind, but for files at such locations. -/
structure Keeps (lost : Location → Prop) (d e : Directory α) : Prop where
  above : e.above = d.above
  directory : ∀ l, d.entry? l = some .directory → e.entry? l = some .directory
  file : ∀ l, ¬ lost l → d.kind? l = some (.file ()) → e.kind? l = some (.file ())

/-- What is in `d` is in `e` as it was. -/
structure Extends (d e : Directory α) : Prop where
  above : e.above = d.above
  entry : ∀ l x, d.entry? l = some x → e.entry? l = some x

/-- Nothing has changed but that files at such locations have been removed. -/
structure Trims (lost : Location → Prop) (d e : Directory α) : Prop where
  above : e.above = d.above
  entry : ∀ l, e.entry? l = d.entry? l ∨ lost l ∧ d.kind? l = some (.file ()) ∧ e.entry? l = none

/-! ## Entries -/

section
variable {d e f : Directory α} {l l' : Location} {x : Entry α} {lost : Location → Prop}

/-- What is put at a location inside the working directory is found there. -/
theorem entry?_put (h : isAround l = false) (x : Entry α) : entry? (d.put l x) l = some x := by
  unfold entry?
  simp [put, h]

/-- An entry that is taken out of a list is not there any more, and the others are. -/
theorem lookup_filter_ne (entries : List (Location × Entry α)) :
    (entries.filter (fun y => y.1 ≠ l)).lookup l' = if l' = l then none else entries.lookup l' := by
  induction entries with
  | nil => simp
  | cons y rest ih =>
    by_cases hy : y.1 = l
    · rw [List.filter_cons_of_neg (by simpa using hy), ih, List.lookup_cons]
      by_cases hl : l' = l
      · rw [if_pos hl, if_pos hl]
      · simp [hl, show (l' == y.1) = false by simpa [hy] using hl]
    · rw [List.filter_cons_of_pos (by simpa using hy), List.lookup_cons, List.lookup_cons, ih]
      by_cases hl : l' = l
      · have hne : (l' == y.1) = false := by simpa [hl] using Ne.symm hy
        simp only [hne, if_pos hl]
      · simp only [if_neg hl]

/-- What is put at a location is not found at another one. -/
theorem entry?_put_of_ne (h : l' ≠ l) (x : Entry α) : entry? (d.put l x) l' = d.entry? l' := by
  have hhead : (l' == l) = false := by simpa using h
  unfold entry? put
  simp only [List.lookup_cons, hhead, lookup_filter_ne, if_neg h]

/-- An entry that is no directory is inside the working directory. -/
theorem isAround_of_entry? (h : d.entry? l ≠ some .directory) : isAround l = false := by
  unfold entry? at h
  cases ha : isAround l with
  | false => rfl
  | true => simp [ha] at h

theorem kind?_eq_directory : d.kind? l = some .directory ↔ d.entry? l = some .directory := by
  unfold kind?
  rcases d.entry? l with _ | _ | _ <;> simp [Entry.kind]

theorem kind?_eq_file : d.kind? l = some (.file ()) ↔ ∃ c, d.entry? l = some (.file c) := by
  unfold kind?
  rcases d.entry? l with _ | _ | _ <;> simp [Entry.kind]

theorem kind?_eq_none : d.kind? l = none ↔ d.entry? l = none := by
  unfold kind?
  simp

/-- Where no file is, none is removed. -/
theorem removeFile_eq_self (h : d.kind? l ≠ some (.file ())) : d.removeFile l = d := by
  unfold removeFile
  split
  · next c hc => exact absurd (kind?_eq_file.2 ⟨c, hc⟩) h
  · rfl

/-- A file that is removed is not there any more. -/
theorem entry?_removeFile (h : d.kind? l = some (.file ())) : entry? (d.removeFile l) l = none := by
  obtain ⟨c, hc⟩ := kind?_eq_file.1 h
  have ha : isAround l = false := isAround_of_entry? (by rw [hc]; simp)
  simp only [removeFile, hc]
  unfold entry?
  rw [ha, if_neg Bool.false_ne_true, lookup_filter_ne, if_pos rfl]

/-- What is at another location stays when a file is removed. -/
theorem entry?_removeFile_of_ne (h : l' ≠ l) : entry? (d.removeFile l) l' = d.entry? l' := by
  unfold removeFile
  split
  · unfold entry?
    rw [lookup_filter_ne, if_neg h]
  · rfl

/-! ## What is kept -/

theorem Keeps.refl (d : Directory α) : Keeps lost d d := ⟨rfl, fun _ h => h, fun _ _ h => h⟩

theorem Keeps.trans (h : Keeps lost d e) (h' : Keeps lost e f) : Keeps lost d f :=
  ⟨h'.above.trans h.above, fun l hl => h'.directory l (h.directory l hl),
    fun l hn hl => h'.file l hn (h.file l hn hl)⟩

theorem Keeps.mono {lost' : Location → Prop} (h : Keeps lost d e) (hl : ∀ l, lost l → lost' l) : Keeps lost' d e :=
  ⟨h.above, h.directory, fun l hn hf => h.file l (fun hlost => hn (hl l hlost)) hf⟩

theorem Extends.refl (d : Directory α) : d.Extends d := ⟨rfl, fun _ _ h => h⟩

theorem Extends.trans (h : d.Extends e) (h' : e.Extends f) : d.Extends f :=
  ⟨h'.above.trans h.above, fun l x hx => h'.entry l x (h.entry l x hx)⟩

theorem Extends.keeps (h : d.Extends e) : Keeps lost d e := by
  refine ⟨h.above, fun l hl => h.entry l _ hl, fun l _ hl => ?_⟩
  obtain ⟨c, hc⟩ := kind?_eq_file.1 hl
  exact kind?_eq_file.2 ⟨c, h.entry l _ hc⟩

/-- Where nothing is, something may be put. -/
theorem extends_put (h : d.entry? l = none) (x : Entry α) : d.Extends (d.put l x) := by
  refine ⟨rfl, fun l' y hy => ?_⟩
  have hne : l' ≠ l := fun he => by rw [he, h] at hy; cases hy
  rw [entry?_put_of_ne hne, hy]

/-- A file may be written anew. -/
theorem keeps_put {c : α} (h : d.kind? l = some (.file ())) : Keeps lost d (d.put l (.file c)) := by
  obtain ⟨b, hb⟩ := kind?_eq_file.1 h
  have ha : isAround l = false := isAround_of_entry? (by rw [hb]; simp)
  refine ⟨rfl, fun l' hl => ?_, fun l' _ hl => ?_⟩
  · have hne : l' ≠ l := fun he => by rw [he, hb] at hl; cases hl
    rw [entry?_put_of_ne hne, hl]
  · by_cases hne : l' = l
    · rw [hne, kind?, entry?_put ha]
      rfl
    · rw [kind?, entry?_put_of_ne hne]
      exact hl

/-! ## What is removed -/

theorem Trims.refl (d : Directory α) : Trims lost d d := ⟨rfl, fun _ => .inl rfl⟩

theorem Trims.trans (h : Trims lost d e) (h' : Trims lost e f) : Trims lost d f := by
  refine ⟨h'.above.trans h.above, fun l => ?_⟩
  rcases h'.entry l with he | ⟨hl, hk, hn⟩
  · rw [he]
    exact h.entry l
  · rcases h.entry l with he | ⟨-, -, hn'⟩
    · exact .inr ⟨hl, by rwa [kind?, ← he], hn⟩
    · rw [kind?_eq_none.2 hn'] at hk
      cases hk

theorem trims_removeFile (h : lost l) (d : Directory α) : Trims lost d (d.removeFile l) := by
  refine ⟨by unfold removeFile; split <;> rfl, fun l' => ?_⟩
  by_cases hl : l' = l
  · rw [hl]
    by_cases hk : d.kind? l = some (.file ())
    · exact .inr ⟨h, hk, entry?_removeFile hk⟩
    · exact .inl (by rw [removeFile_eq_self hk])
  · exact .inl (entry?_removeFile_of_ne hl)

/-- Where no file can be lost, nothing has changed. -/
theorem Trims.entry_eq (h : Trims lost d e) (hl : lost l → d.kind? l ≠ some (.file ())) : e.entry? l = d.entry? l := by
  rcases h.entry l with he | ⟨hlost, hk, -⟩
  · exact he
  · exact absurd hk (hl hlost)

theorem Trims.directory (h : Trims lost d e) : e.entry? l = some .directory ↔ d.entry? l = some .directory := by
  rcases h.entry l with he | ⟨-, hk, hn⟩
  · rw [he]
  · obtain ⟨c, hc⟩ := kind?_eq_file.1 hk
    simp [hc, hn]

theorem Trims.keeps (h : Trims lost d e) : Keeps lost d e := by
  refine ⟨h.above, fun l hl => h.directory.2 hl, fun l hn hl => ?_⟩
  rwa [kind?, h.entry_eq fun hlost => absurd hlost hn]

/-! ## Ways through directories -/

/-- A way that can be gone can be gone wherever the directories are directories still. -/
theorem walk_mono (h : ∀ k, d.entry? k = some .directory → e.entry? k = some .directory) {here : Location}
    {names : List String} (hw : d.walk here names = .ok l) : e.walk here names = .ok l := by
  induction names generalizing here with
  | nil => exact hw
  | cons n rest ih =>
    unfold walk at hw ⊢
    split at hw
    · cases hw
    · cases hw
    · next hd =>
      rw [h here hd]
      simp only
      split at hw
      · cases hw
      · next hn => rw [if_neg hn]; exact ih hw

theorem locate_mono (h : ∀ k, d.entry? k = some .directory → e.entry? k = some .directory) {p : Path}
    (hp : d.locate p = .ok l) : e.locate p = .ok l := by
  unfold locate at hp ⊢
  split at hp
  · cases hp
  · next h₁ =>
    rw [if_neg h₁]
    split at hp
    · cases hp
    · next h₂ =>
      rw [if_neg h₂]
      split at hp
      · cases hp
      · next h₃ => rw [if_neg h₃]; exact walk_mono h hp

theorem isDirectory_iff {p : Path} :
    d.isDirectory p = true ↔ ∃ l, d.locate p = .ok l ∧ d.entry? l = some .directory := by
  unfold isDirectory
  cases d.locate p with
  | error e => simp
  | ok l => rcases hl : d.entry? l with _ | _ | _ <;> simp [hl]

theorem isDirectoryAt_iff : d.isDirectoryAt l = true ↔ d.entry? l = some .directory := by
  unfold isDirectoryAt
  rcases d.entry? l with _ | _ | _ <;> simp

/-! ## Making directories -/

theorem makeDirectory_eq_ok {p : Path} :
    d.makeDirectory p = .ok e ↔ ∃ l, d.locate p = .ok l ∧ d.entry? l = none ∧ e = d.put l .directory := by
  unfold makeDirectory
  cases d.locate p with
  | error e => simp
  | ok l => cases hl : d.entry? l <;> simp [hl, eq_comm]

/-- A directory that has been made is there. -/
theorem makeDirectory_isDirectory {p : Path} (h : d.makeDirectory p = .ok e) :
    d.Extends e ∧ e.isDirectory p = true := by
  obtain ⟨l, hl, hn, rfl⟩ := makeDirectory_eq_ok.1 h
  have hx := extends_put hn .directory
  have ha : isAround l = false := isAround_of_entry? (by rw [hn]; simp)
  have hlocate : (d.put l .directory).locate p = .ok l := locate_mono (fun k hk => hx.entry k _ hk) hl
  exact ⟨hx, isDirectory_iff.2 ⟨l, hlocate, entry?_put ha _⟩⟩

theorem ensureDirectory_isDirectory {p : Path} (h : d.ensureDirectory p = .ok e) :
    d.Extends e ∧ e.isDirectory p = true := by
  unfold ensureDirectory at h
  split at h
  · next hm => cases h; exact makeDirectory_isDirectory hm
  · split at h
    · next hd => cases h; exact ⟨.refl d, hd⟩
    · cases h

/-- Making directories leaves all that is there as it is; where it succeeds the directory is there. -/
theorem makeDirectories_spec (d : Directory α) (p : Path) : d.Extends (d.makeDirectories p).2 ∧
    ((d.makeDirectories p).1 = .ok () → p.isEmpty = true ∨ (d.makeDirectories p).2.isDirectory p = true) := by
  fun_induction makeDirectories d p with
  | case1 p hp => exact ⟨.refl d, fun _ => .inl hp⟩
  | case2 p _ e he =>
    obtain ⟨hx, hd⟩ := ensureDirectory_isDirectory he
    exact ⟨hx, fun _ => .inr hd⟩
  | case3 => exact ⟨.refl d, fun h => by cases h⟩
  | case4 p _ _ q _ cause e hq ih => rw [hq] at ih; exact ⟨ih.1, fun h => by cases h⟩
  | case5 p _ _ q _ e hq f hf ih =>
    rw [hq] at ih
    obtain ⟨hx, hd⟩ := ensureDirectory_isDirectory hf
    exact ⟨ih.1.trans hx, fun _ => .inr hd⟩
  | case6 p _ _ q _ e hq cause _ ih => rw [hq] at ih; exact ⟨ih.1, fun h => by cases h⟩
  | case7 => exact ⟨.refl d, fun h => by cases h⟩

/-- Directories that are there are not made again. -/
theorem makeDirectories_of_isDirectory {p : Path} (h : p.isEmpty = true ∨ d.isDirectory p = true) :
    d.makeDirectories p = (.ok (), d) := by
  unfold makeDirectories
  by_cases hp : p.isEmpty = true
  · rw [if_pos hp]
  · have hd : d.isDirectory p = true := h.resolve_left hp
    obtain ⟨l, hl, hentry⟩ := isDirectory_iff.1 hd
    have hensure : d.ensureDirectory p = .ok d := by
      have hmake : d.makeDirectory p = .error .alreadyThere := by
        unfold makeDirectory
        simp only [hl, hentry]
      simp only [ensureDirectory, hmake, hd, if_true]
    simp only [if_neg hp, hensure]

/-- A missing directory is made in the directory that it needs. -/
theorem makeDirectories_eq (d : Directory α) (p : Path) : d.makeDirectories p =
    if p.isEmpty then (.ok (), d)
    else
      match d.ensureDirectory p with
      | .ok d => (.ok (), d)
      | .error .notFound =>
        match p.parent? with
        | none => (.error .notFound, d)
        | some q =>
          match d.makeDirectories q with
          | (.error e, d) => (.error e, d)
          | (.ok (), d) =>
            match d.ensureDirectory p with
            | .ok d => (.ok (), d)
            | .error e => (.error e, d)
      | .error e => (.error e, d) := by
  rw [makeDirectories]
  by_cases hp : p.isEmpty = true
  · rw [if_pos hp, if_pos hp]
  rw [if_neg hp, if_neg hp]
  rcases d.ensureDirectory p with e | d'
  · cases e with
    | notFound =>
      dsimp only
      split <;> grind
    | _ => rfl
  · rfl

end

end Directory

end ShapeLedger.Files
