/-
What operations on a directory add to it. A file is put at the end of a path, and the directories that the
path leads through are made where they are missing; nothing else is added, and nothing is changed but that
file (`Placed`).
-/
import ShapeLedger.Proofs.Files.Growth
import ShapeLedger.Proofs.Files.Spelling
import Mathlib.Data.List.Infix

namespace ShapeLedger.Files.Directory

variable {α : Type}

/-! ## Definitions -/

/-- The path leads to this location, or through it. -/
def OnWay (p : Path) (l : Location) : Prop := ∃ ns, ns <+: p.names ∧ l = ns.foldl descend (start p)

instance (p : Path) (l : Location) : Decidable (OnWay p l) :=
  decidable_of_iff (∃ ns ∈ p.names.inits, l = ns.foldl descend (start p)) (by simp only [List.mem_inits, OnWay])

/-- The path leads through this location: something is left of it there. -/
def Through (p : Path) (l : Location) : Prop :=
  ∃ ns, ns <+: p.names ∧ ns ≠ p.names ∧ l = ns.foldl descend (start p)

/-- Only directories are added, and only at such locations. -/
def Adds (here : Location → Prop) (d e : Directory α) : Prop :=
  ∀ l, e.entry? l = d.entry? l ∨ d.entry? l = none ∧ e.entry? l = some .directory ∧ here l

/-- A file is at the end of the path, behind the directories that the path leads through. Nothing else has
changed, and where the file is now nothing has been or a file has been. -/
structure Placed (p : Path) (d e : Directory α) : Prop where
  file : e.kind? (destination p) = some (.file ())
  through : ∀ l, Through p l → e.entry? l = some .directory
  others : ∀ l ≠ destination p,
    e.entry? l = d.entry? l ∨ d.entry? l = none ∧ e.entry? l = some .directory ∧ Through p l
  before : d.kind? (destination p) = none ∨ d.kind? (destination p) = some (.file ())

/-! ## Following a path -/

section
variable {d e f : Directory α} {l here : Location} {p q : Path} {ns : List String} {P Q : Location → Prop}

theorem walk_destination (h : d.walk here ns = .ok l) : l = ns.foldl descend here := by
  induction ns generalizing here with
  | nil => cases h; rfl
  | cons n rest ih =>
    unfold walk at h
    split at h
    · cases h
    · cases h
    · split at h
      · cases h
      · exact ih h

/-- A way that can be gone leads through directories. -/
theorem walk_directory (h : d.walk here ns = .ok l) {ms : List String} (hms : ms <+: ns) (hne : ms ≠ ns) :
    d.entry? (ms.foldl descend here) = some .directory := by
  induction ns generalizing here ms with
  | nil => exact absurd (List.prefix_nil.1 hms) hne
  | cons n rest ih =>
    unfold walk at h
    split at h
    · cases h
    · cases h
    · next hd =>
      split at h
      · cases h
      · rcases List.prefix_cons_iff.1 hms with rfl | ⟨t, rfl, ht⟩
        · exact hd
        · exact ih h ht (fun he => hne (by rw [he]))

theorem locate_walk (h : d.locate p = .ok l) : d.walk (start p) p.names = .ok l := by
  unfold locate at h
  split at h
  · cases h
  · split at h
    · cases h
    · split at h
      · cases h
      · exact h

/-- A path that can be followed leads where nothing stands in its way. -/
theorem locate_destination (h : d.locate p = .ok l) : l = destination p := walk_destination (locate_walk h)

theorem locate_through (h : d.locate p = .ok here) (hl : Through p l) : d.entry? l = some .directory := by
  obtain ⟨ns, hns, hne, rfl⟩ := hl
  exact walk_directory (locate_walk h) hns hne

theorem onWay_iff : OnWay p l ↔ l = destination p ∨ Through p l := by
  constructor
  · rintro ⟨ns, hns, rfl⟩
    by_cases hne : ns = p.names
    · exact .inl (by rw [hne]; rfl)
    · exact .inr ⟨ns, hns, hne, rfl⟩
  · rintro (rfl | ⟨ns, hns, -, rfl⟩)
    · exact ⟨p.names, List.prefix_rfl, rfl⟩
    · exact ⟨ns, hns, rfl⟩

/-- All of the way to a directory is made of directories. -/
theorem isDirectory_onWay (h : d.isDirectory p = true) (hl : OnWay p l) : d.entry? l = some .directory := by
  obtain ⟨here, hlocate, hd⟩ := isDirectory_iff.1 h
  rcases onWay_iff.1 hl with rfl | hl
  · rwa [← locate_destination hlocate]
  · exact locate_through hlocate hl

/-! ## Paths above -/

theorem onWay_of_above (h : p.parent? = some q) (hl : OnWay q l) : OnWay p l := by
  obtain ⟨ns, hns, rfl⟩ := hl
  obtain ⟨habove, hstart⟩ := Path.above_parent? h
  refine ⟨ns, ?_, by rw [hstart]⟩
  cases habove with
  | nothing _ hq =>
    rw [hq] at hns
    rw [List.prefix_nil.1 hns]
    exact List.nil_prefix
  | name last hp _ _ =>
    rw [hp]
    exact hns.trans (List.prefix_append _ _)

/-- With one name more a path leads through what it led to before. -/
theorem through_iff_onWay {last : String} (hnames : p.names = q.names ++ [last]) (hstart : start q = start p) :
    Through p l ↔ OnWay q l := by
  constructor
  · rintro ⟨ns, hns, hne, rfl⟩
    rw [hnames] at hns hne
    rcases List.prefix_concat_iff.1 hns with he | hns
    · exact absurd he hne
    · exact ⟨ns, hns, by rw [hstart]⟩
  · rintro ⟨ns, hns, rfl⟩
    refine ⟨ns, ?_, fun he => ?_, by rw [hstart]⟩
    · rw [hnames]
      exact hns.trans (List.prefix_append _ _)
    · have hle := hns.length_le
      rw [he, hnames, List.length_append] at hle
      exact absurd hle (by simp)

/-! ## Adding directories -/

theorem Adds.refl (d : Directory α) : Adds P d d := fun _ => .inl rfl

theorem Adds.mono (h : Adds P d e) (hPQ : ∀ l, P l → Q l) : Adds Q d e := fun l =>
  (h l).imp_right fun hl => ⟨hl.1, hl.2.1, hPQ l hl.2.2⟩

theorem Adds.trans (h : Adds P d e) (h' : Adds P e f) : Adds P d f := by
  intro l
  rcases h' l with he | ⟨hn, hd, hp⟩
  · rw [he]
    exact h l
  · rcases h l with he' | ⟨-, hd', -⟩
    · exact .inr ⟨he'.symm.trans hn, hd, hp⟩
    · rw [hn] at hd'
      cases hd'

theorem adds_put (hn : d.entry? l = none) (hp : P l) : Adds P d (d.put l .directory) := by
  intro k
  by_cases hk : k = l
  · subst hk
    have ha : isAround k = false := isAround_of_entry? (by rw [hn]; simp)
    exact .inr ⟨hn, entry?_put ha _, hp⟩
  · exact .inl (entry?_put_of_ne hk _)

theorem ensureDirectory_adds (h : d.ensureDirectory p = .ok e) : Adds (OnWay p) d e := by
  unfold ensureDirectory at h
  split at h
  · next hm =>
    cases h
    obtain ⟨l, hl, hn, rfl⟩ := makeDirectory_eq_ok.1 hm
    rw [locate_destination hl] at hn ⊢
    exact adds_put hn (onWay_iff.2 (.inl rfl))
  · split at h
    · cases h; exact .refl d
    · cases h

/-- Directories are made on the way of the path alone, also where it cannot be gone to its end. -/
theorem makeDirectories_adds (d : Directory α) (p : Path) : Adds (OnWay p) d (d.makeDirectories p).2 := by
  fun_induction makeDirectories d p with
  | case1 | case3 | case7 => exact .refl d
  | case2 p _ e he => exact ensureDirectory_adds he
  | case4 p _ _ q hup cause e hq ih =>
    rw [hq] at ih
    exact ih.mono fun _ => onWay_of_above hup
  | case5 p _ _ q hup e hq f hf ih =>
    rw [hq] at ih
    exact (ih.mono fun _ => onWay_of_above hup).trans (ensureDirectory_adds hf)
  | case6 p _ _ q hup e hq cause _ ih =>
    rw [hq] at ih
    exact ih.mono fun _ => onWay_of_above hup

/-! ## Placing a file -/

/-- A file at the end of a path, there already or put there, is placed if nothing but directories on its way
has been added before. -/
theorem placed_of_put (h : Adds (Through p) d e) (hthrough : ∀ l, Through p l → e.entry? l = some .directory)
    {c : α} (hfile : e.kind? (destination p) = some (.file ()) ∧ f = e ∨
      e.entry? (destination p) = none ∧ f = e.put (destination p) (.file c)) : Placed p d f := by
  have hbefore (hk : e.kind? (destination p) = none ∨ e.kind? (destination p) = some (.file ())) :
      d.kind? (destination p) = none ∨ d.kind? (destination p) = some (.file ()) := by
    rcases h (destination p) with he | ⟨hn, -, -⟩
    · rwa [kind?, ← he]
    · exact .inl (kind?_eq_none.2 hn)
  rcases hfile with ⟨hk, rfl⟩ | ⟨hn, rfl⟩
  · exact ⟨hk, hthrough, fun l _ => h l, hbefore (.inr hk)⟩
  · have ha : isAround (destination p) = false := isAround_of_entry? (by rw [hn]; simp)
    constructor
    · rw [kind?, entry?_put ha]
      rfl
    · exact fun l hl => (extends_put hn _).entry l _ (hthrough l hl)
    · intro l hne
      rw [entry?_put_of_ne hne]
      exact h l
    · exact hbefore (.inl (kind?_eq_none.2 hn))

/-- A file is opened to be written where it is there already or where it can be made. -/
theorem openToAppend_eq_ok {fresh : α} (h : e.openToAppend p fresh = .ok f) :
    e.locate p = .ok (destination p) ∧ (e.kind? (destination p) = some (.file ()) ∧ f = e ∨
      e.entry? (destination p) = none ∧ f = e.put (destination p) (.file fresh)) := by
  unfold openToAppend at h
  split at h
  · cases h
  · next l hl =>
    obtain rfl := locate_destination hl
    refine ⟨hl, ?_⟩
    split at h
    · cases h
    · next c hc =>
      split at h <;> cases h
      exact .inl ⟨kind?_eq_file.2 ⟨c, hc⟩, rfl⟩
    · next hn =>
      split at h <;> cases h
      exact .inr ⟨hn, rfl⟩

/-- A file that has been opened to be written is placed. -/
theorem placed_of_openToAppend {fresh : α} (h : Adds (Through p) d e) (ho : e.openToAppend p fresh = .ok f) :
    Placed p d f := by
  obtain ⟨hl, hfile⟩ := openToAppend_eq_ok ho
  exact placed_of_put h (fun l => locate_through hl) hfile

namespace Placed

/-- What was there has stayed, apart from the file. -/
theorem entry?_of_ne (h : Placed p d e) (hne : l ≠ destination p) {x : Entry α} (hx : d.entry? l = some x) :
    e.entry? l = some x := by
  rcases h.others l hne with he | ⟨hn, -, -⟩
  · rwa [he]
  · rw [hn] at hx
    cases hx

theorem kind?_directory (h : Placed p d e) :
    e.kind? l = some .directory ↔ d.kind? l = some .directory ∨ Through p l := by
  simp only [kind?_eq_directory]
  constructor
  · intro hd
    have hne : l ≠ destination p := by
      rintro rfl
      have hfile := h.file
      rw [kind?_eq_directory.2 hd] at hfile
      cases hfile
    rcases h.others l hne with he | ⟨-, -, hl⟩
    · exact .inl (he ▸ hd)
    · exact .inr hl
  · rintro (hd | hl)
    · refine h.entry?_of_ne ?_ hd
      rintro rfl
      rcases h.before with hb | hb <;> rw [kind?_eq_directory.2 hd] at hb <;> cases hb
    · exact h.through l hl

theorem kind?_file (h : Placed p d e) :
    e.kind? l = some (.file ()) ↔ d.kind? l = some (.file ()) ∨ l = destination p := by
  by_cases hl : l = destination p
  · rw [hl]
    exact iff_of_true h.file (.inr rfl)
  · simp only [hl, or_false]
    rcases h.others l hl with he | ⟨hn, hd, -⟩
    · rw [kind?, he, kind?]
    · rw [kind?_eq_none.2 hn, kind?_eq_directory.2 hd]
      simp

/-- What is written into the file makes no difference. -/
theorem rewritten (h : Placed p d e) (hfile : f.kind? (destination p) = some (.file ()))
    (hothers : ∀ l ≠ destination p, f.entry? l = e.entry? l) : Placed p d f := by
  refine ⟨hfile, fun l hl => ?_, fun l hne => ?_, h.before⟩
  · have hne : l ≠ destination p := by
      rintro rfl
      have hk := h.file
      rw [kind?_eq_directory.2 (h.through _ hl)] at hk
      cases hk
    rw [hothers l hne]
    exact h.through l hl
  · rw [hothers l hne]
    exact h.others l hne

end Placed

/-! ## Going up -/

theorem isAround_up (h : isAround l = true) : isAround (descend l "..") = true := by
  unfold descend
  rw [if_pos rfl]
  split
  · rfl
  · split
    · simpa [isAround] using h
    · split
      · exact h
      · unfold isAround at h ⊢
        rw [List.all_eq_true] at h ⊢
        exact fun n hn => h n (List.dropLast_subset l hn)

/-- One step up from a location leads out of everything, or to where the way to it has been before. -/
theorem up_cases (hs : isAround here = true) (ns : List String) :
    isAround (descend (ns.foldl descend here) "..") = true ∨
      ∃ ms, ms <+: ns ∧ descend (ns.foldl descend here) ".." = ms.foldl descend here := by
  induction hlen : ns.length using Nat.strongRecOn generalizing ns with
  | ind k ih =>
    rcases List.eq_nil_or_concat' ns with rfl | ⟨init, n, rfl⟩
    · exact .inl (isAround_up hs)
    rw [List.length_append, List.length_singleton] at hlen
    rw [List.foldl_append, List.foldl_cons, List.foldl_nil]
    generalize hl : init.foldl descend here = l
    by_cases hn : n = ".."
    · -- two steps up: the first has led out, or back to a shorter way
      subst hn
      rcases ih init.length (by omega) init rfl with ha | ⟨ms, hms, he⟩
      · rw [hl] at ha
        exact .inl (isAround_up ha)
      · rw [hl] at he
        rw [he]
        rcases ih ms.length (by have := hms.length_le; omega) ms rfl with ha | ⟨ms', hms', he'⟩
        · exact .inl ha
        · exact .inr ⟨ms', (hms'.trans hms).trans (List.prefix_append _ _), he'⟩
    · have hdown : descend l n = l ++ [n] := by rw [descend, if_neg hn]
      -- from the root one step up leads to the root again, and else back by one name
      by_cases hroot : n = "/"
      · refine .inr ⟨init ++ [n], List.prefix_rfl, ?_⟩
        rw [List.foldl_append, List.foldl_cons, List.foldl_nil, hl, hdown, descend, if_pos rfl]
        simp [hroot]
      · refine .inr ⟨init, List.prefix_append _ _, ?_⟩
        rw [hl, hdown, descend, if_pos rfl]
        simp [hn, hroot]

theorem isAround_start (p : Path) : isAround (start p) = true := by
  unfold start
  split <;> decide

/-- A path without names leads nowhere. -/
theorem isAround_destination (h : p.names = []) : isAround (destination p) = true := by
  rw [destination, h]
  exact isAround_start p

/-- A file can be placed only where a path ends in a file name, behind the path above it. -/
theorem Placed.above (h : Placed p d e) : ∃ q n, p.parent? = some q ∧ start q = start p ∧
    p.names = q.names ++ [n] ∧ p.fileName? = some n ∧ n ≠ ".." ∧ Path.isSilent n = false := by
  have hfile (ha : isAround (destination p) = true) : False := by
    have hk := h.file
    rw [kind?, entry?, if_pos ha] at hk
    cases hk
  have hnames (hn : p.names = []) : False := hfile (isAround_destination hn)
  cases hq : p.parent? with
  | none => exact (hnames (Path.names_of_parent?_none hq)).elim
  | some q =>
    obtain ⟨habove, hstart⟩ := Path.above_parent? hq
    cases habove with
    | nothing hn _ => exact (hnames hn).elim
    | name last hp hsaid hname =>
      by_cases hup : last = ".."
      · -- the end of the path would be a directory on the way to it
        subst hup
        have hdest : destination p = descend (q.names.foldl descend (start q)) ".." := by
          rw [destination, hp, hstart, List.foldl_append]
          rfl
        rcases up_cases (isAround_start q) q.names with ha | ⟨ms, hms, he⟩
        · exact (hfile (hdest ▸ ha)).elim
        · have hd := h.through _ ((through_iff_onWay hp hstart).2 ⟨ms, hms, rfl⟩)
          have hk := h.file
          rw [hdest, he, kind?_eq_directory.2 hd] at hk
          cases hk
      · rw [if_neg hup] at hname
        exact ⟨q, last, rfl, hstart, hp, hname, hup, hsaid⟩

/-! ## Another file -/

/-- What is in a file does not depend on what is at another location, unless a directory is there. -/
theorem read_elsewhere {t : Location} (h : ∀ k ≠ t, e.entry? k = d.entry? k) (ht : d.entry? t ≠ some .directory)
    (hp : destination p ≠ t) {c : α} (hr : d.read p = .ok c) : e.read p = .ok c := by
  have hmono (k : Location) (hk : d.entry? k = some .directory) : e.entry? k = some .directory := by
    rwa [h k (fun he => ht (he ▸ hk))]
  unfold read at hr ⊢
  split at hr
  · cases hr
  · next l hl =>
    rw [locate_mono hmono hl]
    simp only
    rwa [h l (fun he => hp ((locate_destination hl).symm.trans he))]

end

end ShapeLedger.Files.Directory
