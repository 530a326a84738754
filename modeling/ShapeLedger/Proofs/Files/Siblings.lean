/-
Paths beside one another. Another file name in the place of the last one leaves the way to it as it was, with its
spelling, whatever slashes and dots are in it: the path above is the same one. So two siblings are one path only
where their names are the same.
-/
import ShapeLedger.Proofs.Files.Spelling

namespace ShapeLedger

namespace Path

/-! ## Definitions -/

/-- Two paths have the same parts: they start alike, and lead through the same names. -/
structure Same (p q : Path) : Prop where
  lead : p.lead = q.lead
  names : p.names = q.names

/-- The segments follow the start of the path as a reader would find them: no slash is in one, and the first does
not pass for a start of its own. -/
structure Regular (p : Path) : Prop where
  noSlash : ∀ n ∈ p.segments, '/' ∉ n.toList
  here : p.lead = .here → ∀ n, p.segments.head? = some n → n = ""
  relative : p.lead = .none → p.segments.head? ≠ some "" ∧ p.segments.head? ≠ some "."

/-- The path one name further. -/
def extend (p : Path) (n : String) : Path :=
  if p.lead = .here ∧ p.segments = [] then ⟨.here, ["", n]⟩ else ⟨p.lead, p.segments ++ [n]⟩

/-! ## Spelling and reading -/

theorem joinSlash_cons {s : List Char} {ss : List (List Char)} (h : ss ≠ []) :
    joinSlash (s :: ss) = s ++ '/' :: joinSlash ss := by
  cases ss with
  | nil => exact absurd rfl h
  | cons t ts => rfl

theorem joinSlash_concat {ss : List (List Char)} (h : ss ≠ []) (t : List Char) :
    joinSlash (ss ++ [t]) = joinSlash ss ++ '/' :: t := by
  induction ss with
  | nil => exact absurd rfl h
  | cons s ss ih =>
    by_cases hss : ss = []
    · rw [hss]
      rfl
    · rw [List.cons_append, joinSlash_cons (by simp), ih hss, joinSlash_cons hss, List.append_assoc]
      rfl

/-- The pieces between slashes make the text again. -/
theorem joinSlash_splitSlash (cs : List Char) : joinSlash (splitSlash cs) = cs := by
  induction cs with
  | nil => rfl
  | cons c cs ih =>
    have hne := splitSlash_ne_nil cs
    rw [splitSlash]
    split
    · next hc => rw [joinSlash_cons hne, ih, hc, List.nil_append]
    · obtain ⟨s, ss, hs⟩ := List.exists_cons_of_ne_nil hne
      rw [hs] at ih ⊢
      cases ss with
      | nil => exact congrArg (c :: ·) ih
      | cons t ts => exact congrArg (c :: ·) ih

section
variable {p q : Path} {n m last : String} {init : List String}

theorem map_toList_ne_nil {segments : List String} (h : segments ≠ []) : segments.map String.toList ≠ [] := by
  simpa using h

/-- A path that is read from a text is regular, unless nothing but a slash or two is in the text. -/
theorem regular_ofString {s : String} (hn : (ofString s).fileName? = some n) : (ofString s).Regular := by
  have hspelled := wellSpelled_ofString s
  refine ⟨hspelled.noSlash, hspelled.here, fun hlead => ⟨fun hempty => ?_, fun hdot => ?_⟩⟩
  · -- the path would have no name
    rw [fileName?, hspelled.relative hlead hempty] at hn
    cases hn
  · unfold ofString at hlead hdot
    rcases readLead_cases s.toList with ⟨r, -, hr⟩ | ⟨-, hr⟩ | ⟨r, -, hr⟩ | ⟨-, hr⟩
    · rw [hr] at hlead
      cases hlead
    · rw [hr] at hlead
      cases hlead
    · rw [hr] at hlead
      cases hlead
    · -- a text whose first piece is a dot is read as one that starts with it
      rw [hr] at hdot
      dsimp only at hdot
      obtain ⟨t, ts, ht⟩ := List.exists_cons_of_ne_nil (splitSlash_ne_nil s.toList)
      have hjoin := joinSlash_splitSlash s.toList
      rw [ht] at hdot hjoin
      rw [List.map_cons, List.head?_cons, Option.some.injEq] at hdot
      obtain rfl : t = ['.'] := by
        have hlist := congrArg String.toList hdot
        rwa [String.toList_ofList] at hlist
      cases ts with
      | nil =>
        rw [← hjoin] at hr
        cases hr
      | cons u us =>
        rw [← hjoin] at hr
        cases hr

/-- What is spelled out is read as it was. -/
theorem Regular.ofString_toString (h : p.Regular) (hne : p.segments ≠ [])
    (hhere : p.lead = .here → 1 < p.segments.length) : ofString p.toString = p := by
  have hslash : ∀ s ∈ p.segments.map String.toList, '/' ∉ s := by
    intro s hs
    obtain ⟨n, hn, rfl⟩ := List.mem_map.1 hs
    exact h.noSlash n hn
  have hsplit := splitSlash_joinSlash hslash (map_toList_ne_nil hne)
  have hread : readLead p.toString.toList = (p.lead, joinSlash (p.segments.map String.toList)) := by
    rw [toList_toString]
    cases hlead : p.lead with
    | root => rfl
    | here =>
      have hlength := hhere hlead
      obtain ⟨n, rest, hrest⟩ := List.exists_cons_of_ne_nil hne
      obtain rfl : n = "" := h.here hlead n (by rw [hrest]; rfl)
      have hmore : rest ≠ [] := by
        rintro rfl
        rw [hrest] at hlength
        exact absurd hlength (Nat.lt_irrefl 1)
      rw [hrest, List.map_cons, joinSlash_cons (map_toList_ne_nil hmore)]
      rfl
    | none =>
      obtain ⟨hempty, hdot⟩ := h.relative hlead
      -- a text that starts in another way has another first piece
      have hhead {s : List Char} (hs : (splitSlash (joinSlash (p.segments.map String.toList))).head? = some s) :
          p.segments.head? = some (String.ofList s) := by
        rw [hsplit, List.head?_map, Option.map_eq_some_iff] at hs
        obtain ⟨n, hn, rfl⟩ := hs
        rw [hn, String.ofList_toList]
      rcases readLead_cases (joinSlash (p.segments.map String.toList)) with
        ⟨r, ht, -⟩ | ⟨ht, -⟩ | ⟨r, ht, -⟩ | ⟨-, hr⟩
      · exact absurd (hhead (s := []) (by rw [ht]; rfl)) hempty
      · exact absurd (hhead (s := ['.']) (by rw [ht]; rfl)) hdot
      · exact absurd (hhead (s := ['.']) (by rw [ht]; rfl)) hdot
      · exact hr
  unfold ofString
  rw [hread]
  simp only [hsplit, List.map_map]
  simp [Function.comp_def]

/-! ## One name further -/

theorem Regular.ofString_extend (h : p.Regular) (hn : IsName n) :
    ofString (p.extend n).toString = p.extend n := by
  obtain ⟨hempty, hdot⟩ : n ≠ "" ∧ n ≠ "." := by
    have hsaid := hn.said
    simp only [isSilent, Bool.or_eq_false_iff, decide_eq_false_iff_not] at hsaid
    exact hsaid
  -- behind a lone dot the name needs a slash of its own; elsewhere it is one segment more
  unfold extend
  split
  · refine Regular.ofString_toString ⟨?_, ?_, nofun⟩ (List.cons_ne_nil _ _) fun _ => by simp
    · intro m hm
      rcases List.mem_cons.1 hm with rfl | hm
      · exact List.not_mem_nil
      · rw [List.mem_singleton.1 hm]
        exact hn.noSlash
    · rintro - m ⟨⟩
      rfl
  · next hextra =>
    refine Regular.ofString_toString ⟨?_, ?_, ?_⟩ (by simp) ?_
    · intro m hm
      rcases List.mem_append.1 hm with hm | hm
      · exact h.noSlash m hm
      · rw [List.mem_singleton.1 hm]
        exact hn.noSlash
    · intro hlead m hm
      cases hs : p.segments with
      | nil => exact absurd ⟨hlead, hs⟩ hextra
      | cons k rest =>
        rw [hs] at hm
        exact h.here hlead m (by rw [hs]; exact hm)
    · intro hlead
      cases hs : p.segments with
      | nil => simp [hempty, hdot]
      | cons k rest =>
        have hrelative := h.relative hlead
        rw [hs] at hrelative
        exact hrelative
    · intro hlead
      have hne : p.segments ≠ [] := fun hs => hextra ⟨hlead, hs⟩
      have hpos := List.length_pos_iff.2 hne
      simp only [List.length_append, List.length_singleton]
      omega

/-- The spelling of a path that ends in a segment ends with it. -/
theorem exists_toString_append (hs : p.segments = init ++ [last]) :
    ∃ t, p.toString.toList = t ++ last.toList := by
  rw [toList_toString, hs, List.map_append, List.map_singleton]
  by_cases hinit : init = []
  · rw [hinit]
    exact ⟨p.lead.text, rfl⟩
  · rw [joinSlash_concat (map_toList_ne_nil hinit)]
    exact ⟨p.lead.text ++ (joinSlash (init.map String.toList) ++ ['/']), by simp⟩

/-- A name is put behind a path with one slash between them, whatever the path ends in. -/
theorem Regular.join_eq (h : p.Regular) (hn : IsName n)
    (hend : ∀ init last, p.segments = init ++ [last] → isSilent last = false) : p.join n = p.extend n := by
  rw [← h.ofString_extend hn]
  rcases List.eq_nil_or_concat' p.segments with hnil | ⟨init, last, hs⟩
  · obtain ⟨lead, segments⟩ := p
    obtain rfl : segments = [] := hnil
    unfold join
    have hroot : "/".endsWith "/" = true := by decide +kernel
    have hhere : ".".endsWith "/" = false := by decide +kernel
    refine congrArg ofString (String.toList_inj.1 ?_)
    cases lead <;> simp [extend, toString, Lead.text, joinSlash, hroot, hhere]
  -- the last segment says something, so a slash is put behind it
  · have hsaid := hend init last hs
    have hlast : last.toList ≠ [] := by
      intro hnil
      obtain rfl : last = "" := String.toList_inj.1 hnil
      cases hsaid
    obtain ⟨x, hx⟩ := exists_toString_append hs
    rcases join_cases p n with ⟨hempty, -⟩ | ⟨t, ht, -⟩ | ⟨-, hjoin⟩
    · rw [hempty] at hx
      exact absurd (List.append_eq_nil_iff.1 hx.symm).2 hlast
    · -- the last segment would end in a slash
      have hslash : last.toList.getLast? = some '/' := by
        rw [← List.getLast?_append_of_ne_nil x hlast, ← hx, ht, List.getLast?_concat]
      have hmem : last ∈ p.segments := by
        rw [hs]
        exact List.mem_concat_self
      exact absurd (List.mem_of_getLast? hslash) (h.noSlash last hmem)
    · have hne : p.segments ≠ [] := by
        rw [hs]
        simp
      rw [hjoin]
      refine congrArg ofString (String.toList_inj.1 ?_)
      rw [String.toList_ofList, extend, if_neg (fun hc => hne hc.2), toList_toString, toList_toString,
        List.map_append, List.map_singleton, joinSlash_concat (map_toList_ne_nil hne), List.append_assoc]

theorem trail_concat (segments : List String) (hn : isSilent n = false) :
    trail (segments ++ [n]) = n :: segments.reverse := by
  rw [trail, List.reverse_append, List.reverse_singleton, List.singleton_append,
    List.dropWhile_cons_of_neg (by rw [hn]; decide)]

/-- The path above and the file name are found again. -/
theorem extend_parts (hn : IsName n) (hup : n ≠ "..")
    (hend : ∀ init last, q.segments = init ++ [last] → isSilent last = false) :
    (q.extend n).parent? = some q ∧ (q.extend n).fileName? = some n := by
  obtain ⟨lead, segments⟩ := q
  have hdrop : segments.reverse.dropWhile isSilent = segments.reverse := by
    rcases List.eq_nil_or_concat' segments with rfl | ⟨init, last, rfl⟩
    · rfl
    · have hsaid := hend init last rfl
      rw [List.reverse_append, List.reverse_singleton, List.singleton_append,
        List.dropWhile_cons_of_neg (by rw [hsaid]; decide)]
  unfold extend
  split
  · next hextra =>
    obtain ⟨rfl, rfl⟩ : lead = .here ∧ segments = [] := hextra
    have htrail : trail ["", n] = [n, ""] := trail_concat [""] hn.said
    constructor
    · rw [parent?, htrail]
      rfl
    · rw [fileName?, htrail]
      exact if_neg hup
  · have htrail := trail_concat segments hn.said
    constructor
    · rw [parent?, htrail]
      simp only [hdrop, List.reverse_reverse]
    · rw [fileName?, htrail]
      exact if_neg hup

/-! ## Another name -/

/-- The path above a file name ends in no segment that says nothing. -/
theorem Regular.above (h : p.Regular) (hn : p.fileName? = some n) (hq : p.parent? = some q) :
    q.Regular ∧ ∀ init last, q.segments = init ++ [last] → isSilent last = false := by
  have htrail : trail p.segments ≠ [] := by
    intro hnil
    rw [fileName?, hnil] at hn
    cases hn
  obtain ⟨hlead, r, hr⟩ := prefix_of_parent? htrail hq
  have hhead {m : String} (hm : q.segments.head? = some m) : p.segments.head? = some m := by
    rw [← hr, List.head?_append, hm]
    rfl
  refine ⟨⟨fun m hm => ?_, fun hhere m hm => ?_, fun hnone => ⟨fun hm => ?_, fun hm => ?_⟩⟩, ?_⟩
  · exact h.noSlash m (hr ▸ List.mem_append_left r hm)
  · exact h.here (hlead.symm.trans hhere) m (hhead hm)
  · exact (h.relative (hlead.symm.trans hnone)).1 (hhead hm)
  · exact (h.relative (hlead.symm.trans hnone)).2 (hhead hm)
  · intro init last hlast
    obtain ⟨top, before, htop⟩ := List.exists_cons_of_ne_nil htrail
    rw [parent?, htop] at hq
    cases hq
    -- what is left of the trail starts with what says something
    have hsaid := List.head?_dropWhile_not isSilent before
    rw [List.reverse_eq_iff.1 hlast, List.reverse_append, List.reverse_singleton, List.singleton_append,
      List.head?_cons] at hsaid
    simpa using hsaid

/-- With another file name a path stays below the same path. -/
theorem withFileName_parts {s : String} (hm : (ofString s).fileName? = some m) (hn : IsName n) (hup : n ≠ "..") :
    ((ofString s).withFileName n).parent? = (ofString s).parent? ∧
      ((ofString s).withFileName n).fileName? = some n := by
  obtain ⟨q, hq, -⟩ := above_of_fileName? hm
  obtain ⟨hregular, hend⟩ := (regular_ofString hm).above hm hq
  have hjoin : (ofString s).withFileName n = q.extend n := by
    rw [withFileName, hm, hq]
    exact hregular.join_eq hn hend
  rw [hjoin, hq]
  exact extend_parts hn hup hend

/-- Below one path, only paths of one name are the same. -/
theorem same_iff_of_parent? {r : Path} (hp : p.parent? = some q) (hr : r.parent? = some q)
    (hm : p.fileName? = some m) (hn : r.fileName? = some n) : p.Same r ↔ m = n := by
  have parts {p : Path} {m : String} (hp : p.parent? = some q) (hm : p.fileName? = some m) :
      p.lead = q.lead ∧ p.names = q.names ++ [m] := by
    obtain ⟨above, habove, hnames, -⟩ := above_of_fileName? hm
    obtain rfl : above = q := Option.some.inj (habove.symm.trans hp)
    have htrail : trail p.segments ≠ [] := by
      intro hnil
      rw [fileName?, hnil] at hm
      cases hm
    exact ⟨(prefix_of_parent? htrail hp).1.symm, hnames⟩
  obtain ⟨hplead, hpnames⟩ := parts hp hm
  obtain ⟨hrlead, hrnames⟩ := parts hr hn
  constructor
  · rintro ⟨-, hnames⟩
    rw [hpnames, hrnames] at hnames
    exact List.singleton_inj.1 (List.append_cancel_left hnames)
  · rintro rfl
    exact ⟨hplead.trans hrlead.symm, hpnames.trans hrnames.symm⟩

end

end Path

end ShapeLedger
