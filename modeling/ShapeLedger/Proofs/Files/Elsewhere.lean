/-
What is done elsewhere. A file with some places beside it is spared by whatever neither writes nor removes it
and makes no directory in those places. And two directories that differ in the contents of that file, and in
what files are in those places, are changed in the same way by whatever does not look there.
-/
import ShapeLedger.Proofs.Files.Ways

namespace ShapeLedger.Files.Directory

variable {α : Type}

/-! ## Definitions -/

/-- The entry at `l` is as it was, every directory is still there, and none has come to a place beside. -/
structure Spares (l : Location) (beside : Location → Prop) (d e : Directory α) : Prop where
  above : e.above = d.above
  directory : ∀ k, d.entry? k = some .directory → e.entry? k = some .directory
  here : ∀ x, d.entry? l = some x → e.entry? l = some x
  noDirectory : ∀ k, beside k → e.entry? k = some .directory → d.entry? k = some .directory

/-- The same directories, but for the contents of the file at one location, and for files beside it. -/
structure Twins (l : Location) (beside : Location → Prop) (d e : Directory α) : Prop where
  above : d.above = e.above
  here : d.kind? l = some (.file ()) ∧ e.kind? l = some (.file ())
  sameDirectory : ∀ k, beside k → (d.kind? k = some .directory ↔ e.kind? k = some .directory)
  elsewhere : ∀ k ≠ l, ¬ beside k → d.entry? k = e.entry? k

/-! ## A file that is spared -/

section
variable {d e f : Directory α} {l m : Location} {beside here lost : Location → Prop}

theorem Spares.refl (l : Location) (d : Directory α) : Spares l beside d d :=
  ⟨rfl, fun _ h => h, fun _ h => h, fun _ _ h => h⟩

theorem Spares.trans (h : Spares l beside d e) (h' : Spares l beside e f) : Spares l beside d f where
  above := h'.above.trans h.above
  directory k hk := h'.directory k (h.directory k hk)
  here x hx := h'.here x (h.here x hx)
  noDirectory k hb hk := h.noDirectory k hb (h'.noDirectory k hb hk)

/-- Directories may be added that are not in the places beside. -/
theorem Adds.spares (h : Adds here d e) (ha : e.above = d.above) (hb : ∀ k, beside k → ¬ here k) :
    Spares l beside d e := by
  have hkept (k : Location) (x : Entry α) (hx : d.entry? k = some x) : e.entry? k = some x := by
    rcases h k with he | ⟨hn, -, -⟩
    · rwa [he]
    · rw [hn] at hx
      cases hx
  refine ⟨ha, fun k => hkept k _, hkept l, fun k hk hd => ?_⟩
  rcases h k with he | ⟨-, -, hp⟩
  · rwa [← he]
  · exact absurd hp (hb k hk)

/-- Another file may be written, also in a place beside. -/
theorem spares_put {c : α} (hne : l ≠ m) (hm : d.entry? m ≠ some .directory) :
    Spares l beside d (d.put m (.file c)) := by
  have ha : isAround m = false := isAround_of_entry? hm
  refine ⟨rfl, fun k hk => ?_, fun x hx => by rw [entry?_put_of_ne hne, hx], fun k _ hk => ?_⟩
  · have hkm : k ≠ m := by
      rintro rfl
      exact hm hk
    rw [entry?_put_of_ne hkm, hk]
  · by_cases hkm : k = m
    · rw [hkm, entry?_put ha] at hk
      cases hk
    · rwa [entry?_put_of_ne hkm] at hk

/-- Other files may be removed. -/
theorem Trims.spares (h : Trims lost d e) (hl : ¬ lost l) : Spares l beside d e :=
  ⟨h.above, fun _ => h.directory.2, fun x hx => by rw [h.entry_eq fun hlost => absurd hlost hl, hx],
    fun _ _ => h.directory.1⟩

theorem Spares.keeps (h : Spares l beside d e) (hl : d.kind? l = some (.file ())) :
    e.kind? l = some (.file ()) := by
  obtain ⟨c, hc⟩ := kind?_eq_file.1 hl
  exact kind?_eq_file.2 ⟨c, h.here _ hc⟩

end

/-! ## Directories that differ in one file -/

section
variable {d e f : Directory α} {l m k : Location} {beside : Location → Prop} {p q : Path}

theorem Twins.refl (hl : d.kind? l = some (.file ())) : Twins l beside d d :=
  ⟨rfl, ⟨hl, hl⟩, fun _ _ => Iff.rfl, fun _ _ _ => rfl⟩

theorem Twins.trans (h : Twins l beside d e) (h' : Twins l beside e f) : Twins l beside d f where
  above := h.above.trans h'.above
  here := ⟨h.here.1, h'.here.2⟩
  sameDirectory k hk := (h.sameDirectory k hk).trans (h'.sameDirectory k hk)
  elsewhere k hl hk := (h.elsewhere k hl hk).trans (h'.elsewhere k hl hk)

theorem Twins.symm (h : Twins l beside d e) : Twins l beside e d where
  above := h.above.symm
  here := h.here.symm
  sameDirectory k hk := (h.sameDirectory k hk).symm
  elsewhere k hl hk := (h.elsewhere k hl hk).symm

/-- Away from the places beside, twins have entries of the same kind. -/
theorem Twins.kind? (h : Twins l beside d e) (hk : ¬ beside k) : d.kind? k = e.kind? k := by
  by_cases hl : k = l
  · rw [hl, h.here.1, h.here.2]
  · rw [Directory.kind?, Directory.kind?, h.elsewhere k hl hk]

theorem Twins.directory (h : Twins l beside d e) : d.entry? k = some .directory ↔ e.entry? k = some .directory := by
  rw [← kind?_eq_directory, ← kind?_eq_directory]
  by_cases hk : beside k
  · exact h.sameDirectory k hk
  · rw [h.kind? hk]

/-- Whatever is put in both leaves twins, away from where they may differ. -/
theorem Twins.put (h : Twins l beside d e) (hl : m ≠ l) (hm : ¬ beside m) (x : Entry α) :
    Twins l beside (d.put m x) (e.put m x) := by
  refine ⟨h.above, ?_, fun k hk => ?_, fun k hkl hk => ?_⟩
  · rw [Directory.kind?, Directory.kind?, entry?_put_of_ne hl.symm, entry?_put_of_ne hl.symm]
    exact h.here
  · have hne : k ≠ m := fun he => hm (he ▸ hk)
    rw [Directory.kind?, Directory.kind?, entry?_put_of_ne hne, entry?_put_of_ne hne]
    exact h.sameDirectory k hk
  · by_cases hkm : k = m
    · subst hkm
      unfold entry?
      simp [Directory.put]
    · rw [entry?_put_of_ne hkm, entry?_put_of_ne hkm, h.elsewhere k hkl hk]

/-- So does whatever is removed from both. -/
theorem Twins.removeFile (h : Twins l beside d e) (hl : m ≠ l) (hm : ¬ beside m) :
    Twins l beside (d.removeFile m) (e.removeFile m) := by
  have hd := trims_removeFile (rfl : m = m) d
  have he := trims_removeFile (rfl : m = m) e
  refine ⟨?_, ?_, fun k hk => ?_, fun k hkl hk => ?_⟩
  · rw [hd.above, he.above, h.above]
  · rw [Directory.kind?, Directory.kind?, entry?_removeFile_of_ne hl.symm, entry?_removeFile_of_ne hl.symm]
    exact h.here
  · rw [kind?_eq_directory, kind?_eq_directory]
    exact hd.directory.trans (h.directory.trans he.directory.symm)
  · by_cases hkm : k = m
    · subst hkm
      have hsame := h.kind? hk
      by_cases hfile : d.kind? k = some (.file ())
      · rw [entry?_removeFile hfile, entry?_removeFile (hsame ▸ hfile)]
      · rw [removeFile_eq_self hfile, removeFile_eq_self (hsame ▸ hfile), h.elsewhere k hkl hk]
    · rw [entry?_removeFile_of_ne hkm, entry?_removeFile_of_ne hkm, h.elsewhere k hkl hk]

/-! ## Following a path in both -/

theorem walk_congr {here : Location} {names : List String}
    (h : ∀ ns, ns <+: names → d.kind? (ns.foldl descend here) = e.kind? (ns.foldl descend here)) :
    d.walk here names = e.walk here names := by
  induction names generalizing here with
  | nil => rfl
  | cons n rest ih =>
    have hk : d.kind? here = e.kind? here := h [] List.nil_prefix
    simp only [kind?] at hk
    have hrest : d.walk (descend here n) rest = e.walk (descend here n) rest :=
      ih fun ns hns => h (n :: ns) (List.cons_prefix_cons.2 ⟨rfl, hns⟩)
    unfold walk
    rcases hd : d.entry? here with _ | _ | _ <;> rcases he : e.entry? here with _ | _ | _ <;>
      simp [hd, he, Entry.kind] at hk
    · rfl
    · rfl
    · simp only [hrest]

/-- A path leads to the same place where the entries on its way are of the same kind. -/
theorem locate_congr (h : ∀ k, OnWay p k → d.kind? k = e.kind? k) : d.locate p = e.locate p := by
  unfold locate
  rw [walk_congr fun ns hns => h _ ⟨ns, hns, rfl⟩]

theorem isDirectory_congr (h : ∀ k, OnWay p k → d.kind? k = e.kind? k) : d.isDirectory p = e.isDirectory p := by
  unfold isDirectory
  rw [locate_congr h]
  cases hl : e.locate p with
  | error cause => rfl
  | ok k =>
    have hk := h k (onWay_iff.2 (.inl (locate_destination hl)))
    simp only [kind?] at hk
    rcases hd : d.entry? k with _ | _ | _ <;> rcases he : e.entry? k with _ | _ | _ <;>
      simp [hd, he, Entry.kind] at hk ⊢

/-! ## Making directories in both -/

/-- Twins are refused a change for the same reason, or both changed and still twins. -/
inductive TwinResults (l : Location) (beside : Location → Prop) :
    Except FileError (Directory α) → Except FileError (Directory α) → Prop where
  | error (cause : FileError) : TwinResults l beside (.error cause) (.error cause)
  | ok {d e : Directory α} (h : Twins l beside d e) : TwinResults l beside (.ok d) (.ok e)

theorem Twins.makeDirectory (h : Twins l beside d e) (hp : ∀ k, OnWay p k → ¬ beside k) :
    TwinResults l beside (d.makeDirectory p) (e.makeDirectory p) := by
  unfold Directory.makeDirectory
  rw [locate_congr fun k hk => h.kind? (hp k hk)]
  cases hlocate : e.locate p with
  | error cause => exact .error cause
  | ok k =>
    have hb : ¬ beside k := hp k (onWay_iff.2 (.inl (locate_destination hlocate)))
    have hk := h.kind? hb
    simp only
    rcases hd : d.entry? k with _ | x
    · have he : e.entry? k = none := by rw [← kind?_eq_none, ← hk, kind?_eq_none, hd]
      have hne : k ≠ l := by
        rintro rfl
        have hfile := h.here.1
        rw [kind?_eq_none.2 hd] at hfile
        cases hfile
      rw [he]
      exact .ok (h.put hne hb .directory)
    · rcases he : e.entry? k with _ | y
      · rw [kind?_eq_none.2 he, kind?_eq_none, hd] at hk
        cases hk
      · exact .error .alreadyThere

theorem Twins.ensureDirectory (h : Twins l beside d e) (hp : ∀ k, OnWay p k → ¬ beside k) :
    TwinResults l beside (d.ensureDirectory p) (e.ensureDirectory p) := by
  have hm := h.makeDirectory hp
  unfold Directory.ensureDirectory
  generalize d.makeDirectory p = x at hm
  generalize e.makeDirectory p = y at hm
  cases hm with
  | ok h' => exact .ok h'
  | error cause =>
    simp only [isDirectory_congr fun k hk => h.kind? (hp k hk)]
    split
    · exact .ok h
    · exact .error cause

theorem Twins.makeDirectories (h : Twins l beside d e) (p : Path) (hp : ∀ k, OnWay p k → ¬ beside k) :
    (d.makeDirectories p).1 = (e.makeDirectories p).1 ∧
      Twins l beside (d.makeDirectories p).2 (e.makeDirectories p).2 := by
  rw [makeDirectories_eq, makeDirectories_eq]
  by_cases hempty : p.isEmpty = true
  · rw [if_pos hempty, if_pos hempty]
    exact ⟨rfl, h⟩
  rw [if_neg hempty, if_neg hempty]
  have hm := h.ensureDirectory hp
  generalize d.ensureDirectory p = x at hm
  generalize e.ensureDirectory p = y at hm
  cases hm with
  | ok h' => exact ⟨rfl, h'⟩
  | error cause =>
    by_cases hc : cause = .notFound
    · subst hc
      cases hup : p.parent? with
      | none => exact ⟨rfl, h⟩
      | some q =>
        -- the directory above is made first, in both
        have hq (k : Location) (hk : OnWay q k) : ¬ beside k := hp k (onWay_of_above hup hk)
        have ih := Twins.makeDirectories h q hq
        simp only
        generalize d.makeDirectories q = x at ih
        generalize e.makeDirectories q = y at ih
        obtain ⟨⟨x, d'⟩, ⟨y, e'⟩⟩ := x, y
        obtain ⟨rfl, h'⟩ := ih
        cases x with
        | error cause => exact ⟨rfl, h'⟩
        | ok _ =>
          have hm := h'.ensureDirectory hp
          simp only
          generalize d'.ensureDirectory p = x at hm
          generalize e'.ensureDirectory p = y at hm
          cases hm with
          | ok h'' => exact ⟨rfl, h''⟩
          | error cause => exact ⟨rfl, h'⟩
    · cases cause <;> first | exact ⟨rfl, h⟩ | exact absurd rfl hc
termination_by p.height
decreasing_by exact Path.parent?_height hup

end

end ShapeLedger.Files.Directory
