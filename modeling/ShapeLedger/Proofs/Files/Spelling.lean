/-
What a path leads through is read off its spelling: the pieces between its slashes, without those that say
nothing. So it does not matter whether a path is followed as it is or is spelled out and read again, and the
names of the path above it are all of its names but the last.
-/
import ShapeLedger.Files.Directory
import Mathlib.Data.List.Basic

namespace ShapeLedger

namespace Path

/-! ## Definitions -/

/-- The segments that say something. -/
def spoken (segments : List String) : List String := segments.filter (fun n => !isSilent n)

/-- The pieces of a spelling that say something. -/
def pieces (s : String) : List String := spoken ((splitSlash s.toList).map String.ofList)

/-- The path can be read off its spelling: no slash is hidden in a segment, and the first segment neither
joins with the dot in front of it nor passes for the root. -/
structure WellSpelled (p : Path) : Prop where
  noSlash : ∀ n ∈ p.segments, '/' ∉ n.toList
  here : p.lead = .here → ∀ n, p.segments.head? = some n → n = ""
  relative : p.lead = .none → p.segments.head? = some "" → p.segments = [""]

/-- A name that says something and is no path of its own. -/
structure IsName (n : String) : Prop where
  said : isSilent n = false
  noSlash : '/' ∉ n.toList

/-! ## Slashes -/

theorem splitSlash_ne_nil (cs : List Char) : splitSlash cs ≠ [] := by
  fun_cases splitSlash cs <;> simp

theorem splitSlash_append (a b : List Char) :
    splitSlash (a ++ '/' :: b) = splitSlash a ++ splitSlash b := by
  induction a with
  | nil => rfl
  | cons c a ih =>
    obtain ⟨s, ss, hs⟩ := List.exists_cons_of_ne_nil (splitSlash_ne_nil a)
    by_cases hc : c = '/'
    · simp [splitSlash, hc, ih]
    · simp [splitSlash, hc, ih, hs]

theorem splitSlash_noSlash {s : List Char} (h : '/' ∉ s) : splitSlash s = [s] := by
  induction s with
  | nil => rfl
  | cons c s ih =>
    rw [List.mem_cons, not_or] at h
    rw [splitSlash, if_neg (Ne.symm h.1), ih h.2]

theorem mem_splitSlash {s cs : List Char} (h : s ∈ splitSlash cs) : '/' ∉ s := by
  induction cs generalizing s with
  | nil =>
    rw [List.mem_singleton.1 h]
    exact List.not_mem_nil
  | cons c cs ih =>
    obtain ⟨t, ts, ht⟩ := List.exists_cons_of_ne_nil (splitSlash_ne_nil cs)
    have hrest : ∀ u ∈ ts, '/' ∉ u := fun u hu => ih (by rw [ht]; exact List.mem_cons_of_mem t hu)
    by_cases hc : c = '/'
    · rw [splitSlash, if_pos hc] at h
      rcases List.mem_cons.1 h with rfl | h
      · exact List.not_mem_nil
      · exact ih h
    · rw [splitSlash, if_neg hc, ht] at h
      rcases List.mem_cons.1 h with rfl | h
      · have hfirst : '/' ∉ t := ih (by rw [ht]; exact List.mem_cons_self)
        rw [List.mem_cons, not_or]
        exact ⟨Ne.symm hc, hfirst⟩
      · exact hrest s h

/-- Segments without slashes are found again between them. -/
theorem splitSlash_joinSlash {ss : List (List Char)} (h : ∀ s ∈ ss, '/' ∉ s) (hne : ss ≠ []) :
    splitSlash (joinSlash ss) = ss := by
  induction ss with
  | nil => exact absurd rfl hne
  | cons s rest ih =>
    rw [List.forall_mem_cons] at h
    cases rest with
    | nil => exact splitSlash_noSlash h.1
    | cons t ts =>
      rw [joinSlash, splitSlash_append, splitSlash_noSlash h.1, ih h.2 (List.cons_ne_nil t ts)]
      rfl

/-! ## Reading a spelling -/

/-- The four ways in which a path starts. -/
theorem readLead_cases (cs : List Char) :
    (∃ r, cs = '/' :: r ∧ readLead cs = (.root, r)) ∨ (cs = ['.'] ∧ readLead cs = (.here, [])) ∨
      (∃ r, cs = '.' :: '/' :: r ∧ readLead cs = (.here, '/' :: r)) ∨
      (cs.head? ≠ some '/' ∧ readLead cs = (.none, cs)) := by
  unfold readLead
  split
  · next r => exact .inl ⟨r, rfl, rfl⟩
  · exact .inr (.inl ⟨rfl, rfl⟩)
  · next r => exact .inr (.inr (.inl ⟨r, rfl, rfl⟩))
  · next hroot _ _ =>
    refine .inr (.inr (.inr ⟨fun h => ?_, rfl⟩))
    obtain ⟨r, rfl⟩ := List.head?_eq_some_iff.1 h
    exact hroot r rfl

theorem names_ofString (s : String) : (ofString s).names = pieces s := by
  have hsilent (ss : List String) : spoken ("" :: ss) = spoken ss ∧ spoken ("." :: ss) = spoken ss :=
    ⟨List.filter_cons_of_neg (by decide), List.filter_cons_of_neg (by decide)⟩
  unfold pieces ofString
  rcases readLead_cases s.toList with ⟨r, hs, hr⟩ | ⟨hs, hr⟩ | ⟨r, hs, hr⟩ | ⟨-, hr⟩
  · rw [hr, hs]
    exact (hsilent _).1.symm
  · rw [hr, hs]
    rfl
  · rw [hr, hs]
    exact (hsilent _).1.trans (hsilent _).2.symm
  · rw [hr]
    rfl

theorem wellSpelled_ofString (s : String) : (ofString s).WellSpelled := by
  have hslash (cs : List Char) : ∀ n ∈ (splitSlash cs).map String.ofList, '/' ∉ n.toList := by
    intro n hn
    obtain ⟨t, ht, rfl⟩ := List.mem_map.1 hn
    rw [String.toList_ofList]
    exact mem_splitSlash ht
  unfold ofString
  rcases readLead_cases s.toList with ⟨r, -, hr⟩ | ⟨-, hr⟩ | ⟨r, -, hr⟩ | ⟨hhead, hr⟩
  · rw [hr]
    exact ⟨hslash r, nofun, nofun⟩
  · rw [hr]
    exact ⟨hslash [], fun _ n hn => by cases hn; rfl, nofun⟩
  · rw [hr]
    exact ⟨hslash _, fun _ n hn => by cases hn; rfl, nofun⟩
  · rw [hr]
    refine ⟨hslash _, nofun, fun _ hempty => ?_⟩
    -- the first piece is empty where nothing stands in front of the first slash
    cases hcs : s.toList with
    | nil => rfl
    | cons c cs =>
      have hc : c ≠ '/' := by
        rintro rfl
        exact hhead (by rw [hcs]; rfl)
      obtain ⟨t, ts, ht⟩ := List.exists_cons_of_ne_nil (splitSlash_ne_nil cs)
      rw [hcs] at hempty
      simp only [splitSlash, if_neg hc, ht, List.map_cons, List.head?_cons, Option.some.injEq] at hempty
      have hnil := congrArg String.toList hempty
      rw [String.toList_ofList] at hnil
      cases hnil

/-! ## Spelling and reading again -/

theorem spoken_splitSlash_joinSlash {segments : List String} (h : ∀ n ∈ segments, '/' ∉ n.toList) :
    spoken ((splitSlash (joinSlash (segments.map String.toList))).map String.ofList) = spoken segments := by
  by_cases hne : segments = []
  · rw [hne]
    decide
  · have hslash : ∀ s ∈ segments.map String.toList, '/' ∉ s := by
      intro s hs
      obtain ⟨n, hn, rfl⟩ := List.mem_map.1 hs
      exact h n hn
    rw [splitSlash_joinSlash hslash (by simpa using hne), List.map_map]
    simp [Function.comp_def]

section
variable {p q : Path} {n : String}

theorem toList_toString (p : Path) :
    p.toString.toList = p.lead.text ++ joinSlash (p.segments.map String.toList) := String.toList_ofList

/-- The pieces of the spelling of a path are its names. -/
theorem WellSpelled.pieces_toString (h : p.WellSpelled) : pieces p.toString = p.names := by
  obtain ⟨lead, segments⟩ := p
  have hsegments : spoken ((splitSlash (joinSlash (segments.map String.toList))).map String.ofList) =
      spoken segments := spoken_splitSlash_joinSlash h.noSlash
  unfold pieces
  rw [toList_toString]
  cases lead with
  | none => exact hsegments
  | root =>
    have hroot : spoken ("" :: (splitSlash (joinSlash (segments.map String.toList))).map String.ofList) =
        spoken segments := by
      rw [← hsegments]
      exact List.filter_cons_of_neg (by decide)
    exact hroot
  | here =>
    cases segments with
    | nil => decide
    | cons n rest =>
      obtain rfl : n = "" := h.here rfl n rfl
      cases rest with
      | nil => decide
      | cons m ms =>
        -- the dot is a piece of its own
        have hdot : spoken ("." :: (splitSlash (joinSlash ((m :: ms).map String.toList))).map String.ofList) =
            spoken (m :: ms) := by
          rw [← spoken_splitSlash_joinSlash (List.forall_mem_cons.1 h.noSlash).2]
          exact List.filter_cons_of_neg (by decide)
        have hempty : spoken ("" :: m :: ms) = spoken (m :: ms) := List.filter_cons_of_neg (by decide)
        exact hdot.trans hempty.symm

theorem start_ofString (s : String) :
    Files.Directory.start (ofString s) = if s.toList.head? = some '/' then ["/"] else [] := by
  unfold Files.Directory.start ofString
  rcases readLead_cases s.toList with ⟨r, hs, hr⟩ | ⟨hs, hr⟩ | ⟨r, hs, hr⟩ | ⟨hhead, hr⟩
  · rw [hr, hs]
    rfl
  · rw [hr, hs]
    decide
  · rw [hr, hs]
    rfl
  · rw [hr, if_neg hhead]
    rfl

/-- Only a path from the root is spelled with a slash in front. -/
theorem WellSpelled.head_toString (h : p.WellSpelled) :
    p.toString.toList.head? = some '/' ↔ p.lead = .root := by
  obtain ⟨lead, segments⟩ := p
  rw [toList_toString]
  cases lead with
  | root => exact iff_of_true rfl rfl
  | here => exact iff_of_false (by simp [Lead.text]) nofun
  | none =>
    refine iff_of_false (fun hhead => ?_) nofun
    cases segments with
    | nil => cases hhead
    | cons n rest =>
      have hn : '/' ∉ n.toList := h.noSlash n List.mem_cons_self
      cases hcs : n.toList with
      | cons c cs =>
        -- the first character is in the first segment
        have hc : c = '/' := by cases rest <;> simpa [Lead.text, joinSlash, hcs] using hhead
        rw [hcs, hc] at hn
        exact hn List.mem_cons_self
      | nil =>
        obtain rfl : n = "" := String.toList_inj.1 hcs
        have hrest := h.relative rfl rfl
        rw [List.cons.injEq] at hrest
        obtain rfl := hrest.2
        cases hhead

/-- A path starts where it starts when it is spelled out. -/
theorem WellSpelled.start_eq (h : p.WellSpelled) :
    Files.Directory.start p = if p.toString.toList.head? = some '/' then ["/"] else [] := by
  simp only [h.head_toString]
  rfl

/-! ## One name more -/

theorem pieces_slash (a b : List Char) :
    pieces (String.ofList (a ++ '/' :: b)) = pieces (String.ofList a) ++ pieces (String.ofList b) := by
  simp only [pieces, spoken, String.toList_ofList, splitSlash_append, List.map_append, List.filter_append]

theorem IsName.pieces (h : IsName n) : pieces n = [n] := by
  rw [Path.pieces, splitSlash_noSlash h.noSlash, List.map_singleton, String.ofList_toList]
  exact List.filter_cons_of_pos (by rw [h.said]; rfl)

/-- How a name is put behind a path: right away where nothing or a slash is in front of it, or behind a
slash. -/
theorem join_cases (p : Path) (n : String) :
    (p.toString = "" ∧ p.join n = ofString n) ∨
    (∃ t, p.toString.toList = t ++ ['/'] ∧ p.join n = ofString (String.ofList (t ++ '/' :: n.toList))) ∨
    (p.toString ≠ "" ∧ p.join n = ofString (String.ofList (p.toString.toList ++ '/' :: n.toList))) := by
  unfold join
  by_cases hempty : p.toString = ""
  · refine .inl ⟨hempty, ?_⟩
    simp [hempty]
  · refine .inr ?_
    cases hend : p.toString.endsWith "/" with
    | true =>
      have hsuffix := hend
      rw [String.endsWith_eq_endsWith_toSlice, String.Slice.endsWith_string_iff] at hsuffix
      obtain ⟨t, ht⟩ := hsuffix
      have ht : p.toString.toList = t ++ ['/'] := by simpa using ht.symm
      refine .inl ⟨t, ht, congrArg ofString ?_⟩
      rw [← String.toList_inj]
      simp [hend, ht]
    | false =>
      refine .inr ⟨hempty, congrArg ofString ?_⟩
      rw [← String.toList_inj]
      simp [hempty, hend]

theorem WellSpelled.names_join (h : p.WellSpelled) (hn : IsName n) : (p.join n).names = p.names ++ [n] := by
  have hpieces : Path.pieces (String.ofList n.toList) = [n] := by rw [String.ofList_toList, hn.pieces]
  rw [← h.pieces_toString]
  rcases join_cases p n with ⟨hs, hj⟩ | ⟨t, hs, hj⟩ | ⟨-, hj⟩
  · rw [hj, names_ofString, hn.pieces, hs]
    rfl
  · have hstring : p.toString = String.ofList (t ++ '/' :: []) := by rw [← hs, String.ofList_toList]
    have hnil : Path.pieces (String.ofList []) = [] := rfl
    rw [hj, names_ofString, pieces_slash, hpieces, hstring, pieces_slash, hnil, List.append_nil]
  · rw [hj, names_ofString, pieces_slash, hpieces, String.ofList_toList]

theorem WellSpelled.start_join (h : p.WellSpelled) (hn : IsName n) :
    Files.Directory.start (p.join n) = Files.Directory.start p := by
  rw [h.start_eq]
  rcases join_cases p n with ⟨hs, hj⟩ | ⟨t, hs, hj⟩ | ⟨hs, hj⟩
  · have hhead : n.toList.head? ≠ some '/' := by
      intro hhead
      obtain ⟨r, hr⟩ := List.head?_eq_some_iff.1 hhead
      exact hn.noSlash (by rw [hr]; exact List.mem_cons_self)
    rw [hj, start_ofString, if_neg hhead, hs]
    rfl
  · have hhead : (t ++ '/' :: n.toList).head? = (t ++ ['/']).head? := by cases t <;> rfl
    rw [hj, start_ofString, String.toList_ofList, hhead, hs]
  · have hhead : (p.toString.toList ++ '/' :: n.toList).head? = p.toString.toList.head? := by
      rw [List.head?_append_of_ne_nil]
      exact fun hnil => hs (String.toList_inj.1 hnil)
    rw [hj, start_ofString, String.toList_ofList, hhead]

/-- Behind a path a name leads one step further. -/
theorem WellSpelled.destination_join (h : p.WellSpelled) (hn : IsName n) (hup : n ≠ "..") :
    Files.Directory.destination (p.join n) = Files.Directory.destination p ++ [n] := by
  unfold Files.Directory.destination
  rw [h.names_join hn, h.start_join hn, List.foldl_append, List.foldl_cons, List.foldl_nil,
    Files.Directory.descend, if_neg hup]

/-! ## The path above -/

/-- The path above a path has its names but the last; only a path without names has none above it, or the
empty one. -/
inductive Above (p q : Path) : Prop where
  | nothing (names : p.names = []) (above : q.names = [])
  | name (last : String) (names : p.names = q.names ++ [last]) (said : isSilent last = false)
      (file : p.fileName? = if last = ".." then none else some last)

theorem spoken_dropWhile (segments : List String) : spoken (segments.dropWhile isSilent) = spoken segments := by
  induction segments with
  | nil => rfl
  | cons n rest ih =>
    by_cases hn : isSilent n = true
    · rw [List.dropWhile_cons_of_pos hn, ih]
      exact (List.filter_cons_of_neg (by rw [hn]; decide)).symm
    · rw [List.dropWhile_cons_of_neg hn]

theorem spoken_trail (p : Path) : p.names = (spoken (trail p.segments)).reverse := by
  rw [trail, spoken_dropWhile, spoken, List.filter_reverse, List.reverse_reverse]
  rfl

theorem spoken_cons (n : String) (rest : List String) :
    spoken (n :: rest) = if isSilent n then spoken rest else n :: spoken rest := by
  cases hn : isSilent n <;> simp [spoken, hn]

/-- A trail is empty or starts with what says something. -/
theorem trail_cons {segments rest : List String} (h : trail segments = n :: rest) : isSilent n = false := by
  have hhead := List.head?_dropWhile_not isSilent segments.reverse
  rw [show segments.reverse.dropWhile isSilent = n :: rest from h] at hhead
  simpa using hhead

theorem above_parent? (h : p.parent? = some q) :
    Above p q ∧ Files.Directory.start q = Files.Directory.start p := by
  have hnames := spoken_trail p
  unfold parent? at h
  cases htrail : trail p.segments with
  | nil =>
    rw [htrail] at h hnames
    simp only at h
    split at h
    · next hlead =>
      cases h
      exact ⟨.nothing hnames rfl, by simp [Files.Directory.start, hlead]⟩
    · cases h
  | cons last before =>
    have hsaid := trail_cons htrail
    rw [htrail] at h hnames
    cases h
    have hq : (⟨p.lead, (before.dropWhile isSilent).reverse⟩ : Path).names = (spoken before).reverse := by
      rw [← spoken_dropWhile, spoken, ← List.filter_reverse]
      rfl
    rw [spoken_cons, hsaid] at hnames
    refine ⟨.name last ?_ hsaid ?_, rfl⟩
    · rw [hnames, hq]
      exact List.reverse_cons
    · rw [fileName?, htrail]

/-- A path with no path above it has no names. -/
theorem names_of_parent?_none (h : p.parent? = none) : p.names = [] := by
  unfold parent? at h
  cases htrail : trail p.segments with
  | nil =>
    rw [spoken_trail, htrail]
    rfl
  | cons last before =>
    rw [htrail] at h
    cases h

/-- A path with names has a path above it. -/
theorem above_of_names {init : List String} (h : p.names = init ++ [n]) : ∃ q, p.parent? = some q ∧
    q.names = init ∧ Files.Directory.start q = Files.Directory.start p ∧
    p.fileName? = if n = ".." then none else some n := by
  cases hq : p.parent? with
  | none =>
    rw [names_of_parent?_none hq] at h
    simp at h
  | some q =>
    obtain ⟨habove, hstart⟩ := above_parent? hq
    cases habove with
    | nothing hnames _ =>
      rw [hnames] at h
      simp at h
    | name last hnames _ hfile =>
      obtain ⟨hinit, hlast⟩ := List.append_inj' (hnames.symm.trans h) rfl
      cases hlast
      exact ⟨q, rfl, hinit, hstart, hfile⟩

theorem above_of_fileName? (h : p.fileName? = some n) : ∃ q, p.parent? = some q ∧
    p.names = q.names ++ [n] ∧ Files.Directory.start q = Files.Directory.start p := by
  rcases List.eq_nil_or_concat' p.names with hnil | ⟨init, last, hnames⟩
  · -- a file name says something
    unfold fileName? at h
    cases htrail : trail p.segments with
    | nil =>
      rw [htrail] at h
      cases h
    | cons m before =>
      rw [spoken_trail, htrail, spoken_cons, trail_cons htrail] at hnil
      simp at hnil
  · obtain ⟨q, hq, rfl, hstart, hfile⟩ := above_of_names hnames
    rw [h] at hfile
    split at hfile <;> cases hfile
    exact ⟨q, hq, hnames, hstart⟩

/-- The first segments of a path are spelled like the whole. -/
theorem WellSpelled.shorten (h : p.WellSpelled) (hl : q.lead = p.lead) (hs : q.segments <+: p.segments) :
    q.WellSpelled := by
  have hhead {n : String} (hn : q.segments.head? = some n) : p.segments.head? = some n := by
    obtain ⟨r, hr⟩ := hs
    rw [← hr, List.head?_append, hn]
    rfl
  constructor
  · exact fun n hn => h.noSlash n (hs.subset hn)
  · exact fun hlead n hn => h.here (hl.symm.trans hlead) n (hhead hn)
  · intro hlead hn
    rw [h.relative (hl.symm.trans hlead) (hhead hn)] at hs
    rcases List.prefix_cons_iff.1 hs with hnil | ⟨t, ht, hrest⟩
    · rw [hnil] at hn
      cases hn
    · rw [ht, List.prefix_nil.1 hrest]

/-- The path above one that ends in a name has the first of its segments. -/
theorem prefix_of_parent? (htrail : trail p.segments ≠ []) (hq : p.parent? = some q) :
    q.lead = p.lead ∧ q.segments <+: p.segments := by
  unfold Path.parent? at hq
  obtain ⟨last, before, hlast⟩ := List.exists_cons_of_ne_nil htrail
  rw [hlast] at hq
  cases hq
  have hlong : last :: before <:+ p.segments.reverse := hlast ▸ List.dropWhile_suffix isSilent
  have hshort : before.dropWhile isSilent <:+ p.segments.reverse :=
    ((List.dropWhile_suffix isSilent).trans (List.suffix_cons last before)).trans hlong
  have hreverse := List.reverse_prefix.2 hshort
  rw [List.reverse_reverse] at hreverse
  exact ⟨rfl, hreverse⟩

theorem WellSpelled.parent? (h : p.WellSpelled) (hq : p.parent? = some q) : q.WellSpelled := by
  by_cases htrail : trail p.segments = []
  · unfold Path.parent? at hq
    rw [htrail] at hq
    simp only at hq
    split at hq <;> cases hq
    exact ⟨nofun, nofun, nofun⟩
  · obtain ⟨hlead, hsegments⟩ := prefix_of_parent? htrail hq
    exact h.shorten hlead hsegments

theorem WellSpelled.isName (h : p.WellSpelled) (hn : p.fileName? = some n) : IsName n ∧ n ≠ ".." := by
  unfold fileName? at hn
  cases htrail : trail p.segments with
  | nil =>
    rw [htrail] at hn
    cases hn
  | cons last before =>
    rw [htrail] at hn
    simp only at hn
    split at hn <;> cases hn
    next hup =>
    have hmem : n ∈ p.segments := by
      have hsuffix : n :: before <:+ p.segments.reverse := htrail ▸ List.dropWhile_suffix isSilent
      exact List.mem_reverse.1 (hsuffix.subset List.mem_cons_self)
    exact ⟨⟨trail_cons htrail, h.noSlash n hmem⟩, hup⟩

/-- A path that is spelled without a character has no names. -/
theorem WellSpelled.names_of_isEmpty (h : p.WellSpelled) (he : p.isEmpty = true) : p.names = [] := by
  rw [← h.pieces_toString, String.isEmpty_iff.1 he]
  rfl

end

end Path

end ShapeLedger
