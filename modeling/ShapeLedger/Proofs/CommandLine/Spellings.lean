/-
How a command line is spelled does not matter. The options of a command may stand in any order, each in any of
its spellings, and the one that all commands share before the command or behind it; the line asks for the same.
And no line gets away with an option of the command that is there twice, or with a port that is none.
-/
import ShapeLedger.Proofs.CommandLine.Words

namespace ShapeLedger.CommandLine

open Json (bind_eq_ok)

/-! ## Definitions -/

/-- What may be chosen for a command: texts as they are written, and a port. -/
inductive Choice where
  | serve (config : Option String) (port : Option UInt16) (host database : Option String) (log : Bool)
      (logFile : Option String)
  | analyze (config file : Option String) (json : Bool)

namespace Choice

def level : Choice → Level
  | serve .. => .serve
  | analyze .. => .analyze

def config : Choice → Option String
  | serve config .. | analyze config .. => config

/-- What is set for the command alone, in one order. -/
def own : Choice → List Setting
  | serve _ port host database log logFile =>
    port.toList.map (fun n => .port n.toNat) ++ host.toList.map .host ++ database.toList.map .database ++
      (if log then [.log] else []) ++ logFile.toList.map .logFile
  | analyze _ file json => file.toList.map .file ++ if json then [.json] else []

/-- All that is set, in one order. -/
def settings (c : Choice) : List Setting := c.config.toList.map .config ++ c.own

/-- What a line asks for that spells the choice: all that is chosen, and nothing else. -/
def invocation : Choice → Invocation
  | serve config port host database log logFile =>
    ⟨config.map .ofString, .serve ⟨port, host, database.map .ofString, log, logFile.map .ofString⟩⟩
  | analyze config file json => ⟨config.map .ofString, .analyze ⟨file.map .ofString, json⟩⟩

end Choice

/-- A line of words: the settings files named before the command, the command, and what is set behind it. -/
inductive Line (l : Level) (files : List String) (xs : List Setting) : List String → Prop where
  | mk {name : String} {ws vs : List String} (command : Level.ofName? name = some l)
      (before : Setting.SpellsAll (files.map .config) ws) (behind : Setting.SpellsAll xs vs) :
      Line l files xs (ws ++ name :: vs)

/-! ## The order of settings -/

section
variable {m m' : Matches} {l : Level} {x y : Setting} {xs ys : List Setting} {a : Arg}

theorem has_put (m : Matches) (x : Setting) (a : Arg) : (m.put x).has a = (m.has a || x.arg = a) := by
  cases x <;> cases a <;> simp [Matches.put, Matches.has, Setting.arg]

theorem put_comm (m : Matches) (h : x.arg ≠ y.arg) : (m.put x).put y = (m.put y).put x := by
  cases x <;> cases y <;> first | rfl | exact absurd rfl h

theorem add?_eq (l : Level) (m : Matches) (x : Setting) : m.add? l x =
    if l.takes x.arg = true ∧ x.fits = true ∧ m.has x.arg = false then some (m.put x) else none := by
  unfold Matches.add? Matches.set?
  cases l.takes x.arg <;> cases x.fits <;> cases m.has x.arg <;> rfl

theorem add?_put (h : x.arg ≠ y.arg) (l : Level) (m : Matches) :
    (m.put x).add? l y = (m.add? l y).map fun m => m.put x := by
  have hhas : (m.put x).has y.arg = m.has y.arg := by
    rw [has_put, decide_eq_false h, Bool.or_false]
  rw [add?_eq, add?_eq, hhas]
  split
  · rw [put_comm m h]
    rfl
  · rfl

theorem add?_same (h : x.arg = y.arg) (l : Level) (m : Matches) :
    (m.add? l x).bind (fun m => m.add? l y) = none := by
  rw [add?_eq]
  split
  · rw [Option.bind_some, add?_eq, has_put, ← h]
    simp
  · rfl

theorem add?_eq_some (h : m.add? l x = some m') : m' = m.put x := by
  rw [add?_eq] at h
  split at h <;> cases h
  rfl

theorem add?_comm (l : Level) (m : Matches) (x y : Setting) :
    (m.add? l x).bind (fun m => m.add? l y) = (m.add? l y).bind (fun m => m.add? l x) := by
  by_cases hxy : x.arg = y.arg
  · rw [add?_same hxy, add?_same hxy.symm]
  · cases hx : m.add? l x with
    | none =>
      cases hy : m.add? l y with
      | none => rfl
      | some m' =>
        rw [Option.bind_some, add?_eq_some hy, add?_put (Ne.symm hxy), hx]
        rfl
    | some m' =>
      obtain rfl := add?_eq_some hx
      rw [Option.bind_some, add?_put hxy]
      cases hy : m.add? l y with
      | none => rfl
      | some m' =>
        obtain rfl := add?_eq_some hy
        rw [Option.bind_some, add?_put (Ne.symm hxy), hx, Option.map_some, Option.map_some, put_comm m hxy]

theorem addAll?_cons (l : Level) (m : Matches) (x : Setting) (xs : List Setting) :
    m.addAll? l (x :: xs) = (m.add? l x).bind fun m => m.addAll? l xs := List.foldlM_cons

theorem addAll?_append (l : Level) (m : Matches) (xs ys : List Setting) :
    m.addAll? l (xs ++ ys) = (m.addAll? l xs).bind fun m => m.addAll? l ys := List.foldlM_append

/-- The order in which settings are added does not matter. -/
theorem addAll?_perm (h : xs.Perm ys) (l : Level) (m : Matches) : m.addAll? l xs = m.addAll? l ys := by
  induction h generalizing m with
  | nil => rfl
  | cons x _ ih =>
    rw [addAll?_cons, addAll?_cons]
    exact congrArg _ (funext ih)
  | swap x y xs =>
    simp only [addAll?_cons]
    rw [← Option.bind_assoc, ← Option.bind_assoc, add?_comm]
  | trans _ _ ih ih' => exact (ih m).trans (ih' m)

/-- Settings that can be added are of different options, and fit. -/
theorem addAll?_eq_some (h : m.addAll? l xs = some m') :
    (xs.map Setting.arg).Nodup ∧ ∀ x ∈ xs, m.has x.arg = false ∧ x.fits = true := by
  induction xs generalizing m with
  | nil => exact ⟨List.nodup_nil, nofun⟩
  | cons x xs ih =>
    rw [addAll?_cons, add?_eq] at h
    split at h
    · next hx =>
      obtain ⟨hnodup, hrest⟩ := ih h
      have hapart (y : Setting) (hy : y ∈ xs) : m.has y.arg = false ∧ x.arg ≠ y.arg := by
        have hput := (hrest y hy).1
        rw [has_put, Bool.or_eq_false_iff, decide_eq_false_iff_not] at hput
        exact hput
      rw [List.map_cons, List.nodup_cons, List.forall_mem_cons]
      refine ⟨⟨fun hmem => ?_, hnodup⟩, ⟨hx.2.2, hx.2.1⟩, fun y hy => ?_⟩
      · obtain ⟨y, hy, he⟩ := List.mem_map.1 hmem
        exact (hapart y hy).2 he.symm
      · exact ⟨(hapart y hy).1, (hrest y hy).2⟩
    · cases h

/-! ## What is chosen -/

namespace Choice

/-- The matches of all that is set for the command alone. -/
def found : Choice → Matches
  | serve _ port host database log logFile =>
    ⟨none, port, host, database.map .ofString, log, logFile.map .ofString, none, false⟩
  | analyze _ file json => ⟨none, none, none, none, false, none, file.map .ofString, json⟩

end Choice

theorem add?_port (p : Option Path) (n : UInt16) :
    Matches.add? .serve ⟨p, none, none, none, false, none, none, false⟩ (.port n.toNat) =
      some ⟨p, some n, none, none, false, none, none, false⟩ := by
  have hfits : (Setting.port n.toNat).fits = true := by
    have := n.toNat_lt
    simp only [Setting.fits, Bool.and_eq_true, decide_eq_true_iff]
    omega
  rw [add?_eq, if_pos ⟨rfl, hfits, rfl⟩]
  simp [Matches.put]

/-- What is set for a command comes to the choice, whether a settings file is there or not. -/
theorem addAll?_own (c : Choice) (p : Option Path) :
    Matches.addAll? c.level { Matches.blank with config := p } c.own = some { c.found with config := p } := by
  -- each setting stands for one field, so they fill the matches one after the other
  cases c with
  | serve config port host database log logFile =>
    have hport : Matches.addAll? .serve ⟨p, none, none, none, false, none, none, false⟩
        (port.toList.map fun n => .port n.toNat) = some ⟨p, port, none, none, false, none, none, false⟩ := by
      cases port with
      | none => rfl
      | some n =>
        show Matches.addAll? .serve _ [.port n.toNat] = _
        rw [addAll?_cons, add?_port]
        rfl
    have hhost : Matches.addAll? .serve ⟨p, port, none, none, false, none, none, false⟩
        (host.toList.map .host) = some ⟨p, port, host, none, false, none, none, false⟩ := by
      cases host <;> rfl
    have hdatabase : Matches.addAll? .serve ⟨p, port, host, none, false, none, none, false⟩
        (database.toList.map .database) =
          some ⟨p, port, host, database.map .ofString, false, none, none, false⟩ := by
      cases database <;> rfl
    have hlog : Matches.addAll? .serve ⟨p, port, host, database.map .ofString, false, none, none, false⟩
        (if log then [.log] else []) =
          some ⟨p, port, host, database.map .ofString, log, none, none, false⟩ := by
      cases log <;> rfl
    have hlogFile : Matches.addAll? .serve ⟨p, port, host, database.map .ofString, log, none, none, false⟩
        (logFile.toList.map .logFile) =
          some ⟨p, port, host, database.map .ofString, log, logFile.map .ofString, none, false⟩ := by
      cases logFile <;> rfl
    simp only [Choice.level, Choice.own, Choice.found, Matches.blank, addAll?_append, hport, hhost, hdatabase,
      hlog, hlogFile, Option.bind_some]
  | analyze config file json =>
    have hfile : Matches.addAll? .analyze ⟨p, none, none, none, false, none, none, false⟩
        (file.toList.map .file) = some ⟨p, none, none, none, false, none, file.map .ofString, false⟩ := by
      cases file <;> rfl
    have hjson : Matches.addAll? .analyze ⟨p, none, none, none, false, none, file.map .ofString, false⟩
        (if json then [.json] else []) =
          some ⟨p, none, none, none, false, none, file.map .ofString, json⟩ := by
      cases json <;> rfl
    simp only [Choice.level, Choice.own, Choice.found, Matches.blank, addAll?_append, hfile, hjson,
      Option.bind_some]

theorem addAll?_settings (c : Choice) :
    Matches.blank.addAll? c.level c.settings = some { c.found with config := c.config.map .ofString } := by
  have hconfig : Matches.blank.addAll? c.level (c.config.toList.map .config) =
      some { Matches.blank with config := c.config.map .ofString } := by
    cases c with
    | serve config | analyze config => cases config <;> rfl
  rw [Choice.settings, addAll?_append, hconfig]
  exact addAll?_own c _

theorem config_not_mem_own (c : Choice) (t : String) : .config t ∉ c.own := by
  cases c <;> simp [Choice.own]

/-- The settings file is named behind the command with the rest, or alone before it. -/
theorem own_or_settings {c : Choice} {files : List String} (h : (files.map Setting.config ++ xs).Perm c.settings) :
    files = [] ∧ xs.Perm c.settings ∨ ∃ t, c.config = some t ∧ files = [t] ∧ xs.Perm c.own := by
  cases files with
  | nil => exact .inl ⟨rfl, h⟩
  | cons t files =>
    rw [List.map_cons, List.cons_append] at h
    have hmem : .config t ∈ c.settings := h.subset List.mem_cons_self
    have hconfig : c.config = some t := by
      rcases List.mem_append.1 hmem with hmem | hmem
      · simpa using hmem
      · exact absurd hmem (config_not_mem_own c t)
    rw [Choice.settings, hconfig] at h
    have hown : (files.map Setting.config ++ xs).Perm c.own := h.cons_inv
    cases files with
    | nil => exact .inr ⟨t, hconfig, rfl, hown⟩
    | cons t' files => exact absurd (hown.subset List.mem_cons_self) (config_not_mem_own c t')

/-- What is added before a command and behind it comes to the choice, wherever the settings file is named. -/
theorem asked_of_perm {c : Choice} {files : List String} (h : (files.map Setting.config ++ xs).Perm c.settings) :
    ((Matches.blank.addAll? .top (files.map .config)).bind fun m₀ =>
      (Matches.blank.addAll? c.level xs).bind fun m =>
        (m.command c.level).map fun command => Invocation.mk (m.config <|> m₀.config) command) =
      some c.invocation := by
  rcases own_or_settings h with ⟨rfl, hxs⟩ | ⟨t, ht, rfl, hxs⟩
  · rw [addAll?_perm hxs, addAll?_settings]
    cases c with
    | serve config | analyze config => cases config <;> rfl
  · have hown : Matches.blank.addAll? c.level c.own = some { c.found with config := none } :=
      addAll?_own c none
    rw [addAll?_perm hxs, hown]
    cases c with
    | serve config | analyze config =>
      obtain rfl : config = some t := ht
      rfl

/-! ## Lines -/

theorem readCommand_eq (l : Level) (s : Scan) (ws : List String) :
    readCommand l s ws = s.words l ws >>= fun s => s.settle.map (·.settled) := by
  induction ws generalizing s with
  | nil => rfl
  | cons w ws ih =>
    rw [readCommand, Scan.words, List.foldlM_cons]
    cases s.word l w with
    | error r => rfl
    | ok s' => exact ih s'

theorem readCommand_agrees {s : Scan} {ws : List String} {o : Option Matches} (h : Stands (s.words l ws) o) :
    Agrees (readCommand l s ws) o := by
  rw [readCommand_eq]
  generalize s.words l ws = e at h
  cases h with
  | refused hr => exact .refused hr
  | @reading s o _ hsettle =>
    have hmatches := hsettle.map (·.settled)
    rw [Option.map_map] at hmatches
    cases o <;> exact hmatches

/-- Before the command, a word that starts with a hyphen or is awaited as a value is read as it is. -/
theorem readTop_word {s : Scan} {w : String} (h : w.toList.head? = some '-' ∨ s.awaits = true)
    (rest : List String) : readTop s (w :: rest) = s.word .top w >>= fun s => readTop s rest := by
  have hname : (if s.operandsOnly || s.awaits then none else Level.ofName? w) = none ∧
      (!s.operandsOnly && !s.awaits && w = helpCommand) = false := by
    rcases h with hhyphen | hawaits
    · have hne {v : String} (hv : v.toList.head? ≠ some '-') : w ≠ v := by
        rintro rfl
        exact hv hhyphen
      have hserve : w ≠ "serve" := hne (by decide)
      have hanalyze : w ≠ "analyze" := hne (by decide)
      have hhelp : w ≠ helpCommand := hne (by decide)
      simp [Level.ofName?, hserve, hanalyze, hhelp]
    · simp [hawaits]
  rw [readTop]
  simp only [hname.1, hname.2]
  cases s.word .top w <;> rfl

theorem valued_operandsOnly {s s' : Scan} {attached : Option String} (h : s.valued a attached = .ok s') :
    s'.operandsOnly = s.operandsOnly ∧ (attached = none → s'.awaits = true) := by
  obtain ⟨t, hsettle, h⟩ := bind_eq_ok h
  have ht := settle_operandsOnly hsettle
  cases attached with
  | none =>
    cases h
    exact ⟨ht, fun _ => rfl⟩
  | some value =>
    obtain ⟨m, -, h⟩ := bind_eq_ok h
    cases h
    exact ⟨ht, nofun⟩

/-- Behind a word that has an option wait, a value is read before the command as it is. -/
theorem readTop_awaited {s : Scan} {w v : String} (hs : s.operandsOnly = false)
    (hw : w.toList.head? = some '-') (hv : Plain v) (hword : s.word .top w = s.valued a none) (rest : List String) :
    (readTop s ([w, v] ++ rest) = s.words .top [w, v] >>= fun s => readTop s rest) ∧
      ∀ s', s.words .top [w, v] = .ok s' → s'.operandsOnly = false := by
  rw [List.cons_append, List.singleton_append, readTop_word (.inl hw), words_two, hword]
  cases he : s.valued a none with
  | error r =>
    simp only [bind, Except.bind]
    refine ⟨trivial, fun s' hs' => ?_⟩
    cases hs'
  | ok s₁ =>
    obtain ⟨hmarked, hawaits⟩ := valued_operandsOnly he
    simp only [bind, Except.bind]
    refine ⟨readTop_word (.inr (hawaits rfl)) rest, fun s' hs' => ?_⟩
    rw [word_plain (hmarked.trans hs) hv] at hs'
    split at hs'
    · cases hs'
      exact hmarked.trans hs
    · -- no operand may stand there
      simp only [Scan.operand, Level.operand?] at hs'
      split at hs' <;> cases hs'

/-- The words of a settings file are read before the command as they are. -/
theorem readTop_config {s : Scan} {t : String} {ws : List String} (hs : s.operandsOnly = false)
    (h : (Setting.config t).Spells ws) (rest : List String) :
    (readTop s (ws ++ rest) = s.words .top ws >>= fun s => readTop s rest) ∧
      ∀ s', s.words .top ws = .ok s' → s'.operandsOnly = false := by
  cases h with
  | @apart name v hname hv =>
    refine readTop_awaited (a := .config) hs (by simp) hv.2 ?_ rest
    rw [word_named hs hname none (by simp)]
    rfl
  | @attached name v hname hv =>
    rw [words_one]
    refine ⟨readTop_word (.inl (by simp)) rest, fun s' hs' => ?_⟩
    rw [word_named hs hname (some v) (by simp)] at hs'
    have hvalued : s.valued .config (some v) = .ok s' := hs'
    exact (valued_operandsOnly hvalued).1.trans hs
  | @letter c v hc hv =>
    obtain ⟨hhyphen, hshort⟩ := short?_eq hc .top
    refine readTop_awaited (a := .config) hs (by simp) hv.2 ?_ rest
    rw [word_letters hs String.toList_ofList hhyphen, Scan.letters, hshort]
    rfl
  | flag hname hvalue => cases hvalue
  | operand hname _ => cases hname

theorem readTop_configs {s : Scan} {files ws : List String} (hs : s.operandsOnly = false)
    (h : Setting.SpellsAll (files.map .config) ws) (rest : List String) :
    (readTop s (ws ++ rest) = s.words .top ws >>= fun s => readTop s rest) ∧
      ∀ s', s.words .top ws = .ok s' → s'.operandsOnly = false := by
  induction files generalizing s ws with
  | nil =>
    cases h
    refine ⟨rfl, fun s' hs' => ?_⟩
    cases hs'
    exact hs
  | cons t files ih =>
    cases h with
    | @cons _ _ ws vs hfirst hrest =>
      obtain ⟨hread, hmarked⟩ := readTop_config hs hfirst (vs ++ rest)
      rw [List.append_assoc, hread, words_append]
      cases he : s.words .top ws with
      | error r =>
        simp only [bind, Except.bind]
        refine ⟨trivial, fun s' hs' => ?_⟩
        cases hs'
      | ok s₁ => exact ih (hmarked s₁ he) hrest

variable {name : String} {files ws vs words : List String} {o : Option Matches}

theorem stands_words (l : Level) (h : Setting.SpellsAll xs ws) :
    Stands (Scan.words l .start ws) (Matches.blank.addAll? l xs) := by
  have hstart : Stands (.ok .start) (some .blank) := .reading rfl (.accepted _)
  exact hstart.words h l

/-- The settings files before a command are read up to it. -/
theorem readTop_line (hname : Level.ofName? name = some l) (h : Setting.SpellsAll (files.map .config) ws)
    (more : List String) : readTop .start (ws ++ name :: more) =
      (Scan.words .top .start ws).map fun s => (s, some (l, more)) := by
  have hstands := stands_words .top h
  obtain ⟨hread, hmarked⟩ := readTop_configs (s := .start) rfl h (name :: more)
  rw [hread]
  cases he : Scan.words .top .start ws with
  | error r => rfl
  | ok s =>
    rw [he] at hstands
    cases hstands with
    | reading hawaits _ =>
      show readTop s (name :: more) = .ok (s, some (l, more))
      rw [readTop]
      simp only [hmarked s he, hawaits, hname, Bool.or_self, Bool.false_eq_true, if_false]

/-- A line comes to what is before the command together with what is behind it. -/
theorem parse_line (hname : Level.ofName? name = some l) (hbefore : Setting.SpellsAll (files.map .config) ws)
    {more : List String} (hbehind : Agrees (readCommand l .start more) o) :
    Agrees (parse (ws ++ name :: more)) ((Matches.blank.addAll? .top (files.map .config)).bind fun m₀ =>
      o.bind fun m => (m.command l).map fun c => ⟨m.config <|> m₀.config, c⟩) := by
  have hstands := stands_words .top hbefore
  unfold parse
  rw [readTop_line hname hbefore more]
  generalize Scan.words .top .start ws = e at hstands
  generalize Matches.blank.addAll? .top (files.map .config) = o₀ at hstands ⊢
  cases hstands with
  | refused hr => exact .refused hr
  | @reading s _ _ hsettle =>
    simp only [Except.map, bind, Except.bind]
    -- what is behind the command is settled first, and then what is before it
    generalize readCommand l .start more = e at hbehind ⊢
    generalize s.settle = e₀ at hsettle ⊢
    cases hbehind with
    | refused hr => cases o₀ <;> exact .refused hr
    | accepted m =>
      cases o₀ with
      | none =>
        cases hsettle with
        | refused hr => exact .refused hr
      | some m₀ =>
        cases hsettle with
        | accepted =>
          simp only [Option.bind_some]
          cases m.command l with
          | none => exact .refused rfl
          | some c => exact .accepted _

theorem Line.parse_agrees (h : Line l files xs words) : Agrees (parse words)
    ((Matches.blank.addAll? .top (files.map .config)).bind fun m₀ =>
      (Matches.blank.addAll? l xs).bind fun m =>
        (m.command l).map fun c => ⟨m.config <|> m₀.config, c⟩) := by
  cases h with
  | mk hname hbefore hbehind => exact parse_line hname hbefore (readCommand_agrees (stands_words l hbehind))

/-- What is behind a command that cannot be is refused, with whatever follows it. -/
theorem Line.parse_refused (h : Line l files xs words) (hxs : Matches.blank.addAll? l xs = none)
    (rest : List String) : ∃ r, parse (words ++ rest) = .error r ∧ r.exitCode = 2 := by
  cases h with
  | @mk name ws vs hname hbefore hbehind =>
    have hstands := stands_words l hbehind
    rw [hxs] at hstands
    have hmore : Stands (Scan.words l .start (vs ++ rest)) none := by
      rw [words_append]
      exact hstands.words_none l rest
    have hparse := parse_line hname hbefore (readCommand_agrees hmore)
    rw [List.append_assoc, List.cons_append]
    generalize parse (ws ++ name :: (vs ++ rest)) = e at hparse
    generalize Matches.blank.addAll? .top (files.map .config) = o₀ at hparse
    cases o₀ <;>
    · cases hparse with
      | refused hr => exact ⟨_, rfl, hr⟩

/-- What a line asks for is what it spells, in whatever way it does; and it is refused where something is set
twice behind the command, or a port is none. -/
theorem Line.decided (h : Line l files xs words) :
    (∀ c : Choice, c.level = l → (files.map Setting.config ++ xs).Perm c.settings →
      parse words = .ok c.invocation) ∧
    (¬ (xs.map Setting.arg).Nodup ∨ (∃ n, .port n ∈ xs ∧ ¬ (0 ≤ n ∧ n < 65536)) →
      ∀ rest, ∃ r, parse (words ++ rest) = .error r ∧ r.exitCode = 2) := by
  constructor
  · rintro c rfl hperm
    have hparse := h.parse_agrees
    rw [asked_of_perm hperm] at hparse
    generalize parse words = e at hparse
    cases hparse
    rfl
  · intro hwrong
    refine h.parse_refused ?_
    cases hadd : Matches.blank.addAll? l xs with
    | none => rfl
    | some m =>
      obtain ⟨hnodup, hfits⟩ := addAll?_eq_some hadd
      rcases hwrong with htwice | ⟨n, hn, hout⟩
      · exact absurd hnodup htwice
      · refine absurd ?_ hout
        simpa [Setting.fits] using (hfits _ hn).2

end

/-! ## Lines of words -/

section
open Setting.Spells

theorem line_shuffled : Line .serve ["c.toml"] [.log, .host "::1", .port 80, .database "a=b.db"]
    ["--config=c.toml", "serve", "--log", "--host", "::1", "--port=080", "--database", "a=b.db"] := by
  have hconfig : (Setting.config "c.toml").Spells ["--config=c.toml"] :=
    @attached (.config "c.toml") "config" "c.toml" rfl ⟨rfl, by decide, by decide⟩
  have hlog : Setting.log.Spells ["--log"] := @flag .log "log" rfl rfl
  have hhost : (Setting.host "::1").Spells ["--host", "::1"] :=
    @apart (.host "::1") "host" "::1" rfl ⟨rfl, by decide, by decide⟩
  have heighty : IntegerText "080" 80 :=
    @IntegerText.unsigned ['0', '8', '0'] (List.all_eq_true.1 rfl) (by decide)
  have hport : (Setting.port 80).Spells ["--port=080"] := @attached (.port 80) "port" "080" rfl heighty
  have hdatabase : (Setting.database "a=b.db").Spells ["--database", "a=b.db"] :=
    @apart (.database "a=b.db") "database" "a=b.db" rfl ⟨rfl, by decide, by decide⟩
  exact @Line.mk .serve _ _ "serve" ["--config=c.toml"] _ rfl (.cons hconfig .nil)
    (.cons hlog (.cons hhost (.cons hport (.cons hdatabase .nil))))

theorem line_repeated : Line .analyze [] [.json, .file "a.json", .config "c.toml", .json]
    ["analyze", "--json", "a.json", "-c", "c.toml", "--json"] := by
  have hjson : Setting.json.Spells ["--json"] := @flag .json "json" rfl rfl
  have hfile : (Setting.file "a.json").Spells ["a.json"] :=
    @operand (.file "a.json") "a.json" rfl ⟨rfl, by decide, by decide⟩
  have hconfig : (Setting.config "c.toml").Spells ["-c", "c.toml"] :=
    @letter (.config "c.toml") 'c' "c.toml" rfl ⟨rfl, by decide, by decide⟩
  exact @Line.mk .analyze _ _ "analyze" [] _ rfl .nil
    (.cons hjson (.cons hfile (.cons hconfig (.cons hjson .nil))))

theorem line_below : Line .serve [] [.port (-1)] ["serve", "--port", "-1"] := by
  have hbelow : IntegerText "-1" (-1) := @IntegerText.negative ['1'] (List.all_eq_true.1 rfl) (by decide)
  have hport : (Setting.port (-1)).Spells ["--port", "-1"] := @apart (.port (-1)) "port" "-1" rfl hbelow
  exact @Line.mk .serve _ _ "serve" [] _ rfl .nil (.cons hport .nil)

end

theorem Line.decided_shuffled :
    parse ["--config=c.toml", "serve", "--log", "--host", "::1", "--port=080", "--database", "a=b.db"] =
      .ok ⟨some (.ofString "c.toml"), .serve ⟨some 80, some "::1", some (.ofString "a=b.db"), true, none⟩⟩ ∧
    (∃ r, parse (["analyze", "--json", "a.json", "-c", "c.toml", "--json"] ++ ["--help"]) = .error r ∧
      r.exitCode = 2) ∧
    ∃ r, parse (["serve", "--port", "-1"] ++ []) = .error r ∧ r.exitCode = 2 := by
  refine ⟨?_, ?_, ?_⟩
  · exact (Line.decided line_shuffled).1 (.serve "c.toml" (some 80) "::1" "a=b.db" true none) rfl (by decide)
  · exact (Line.decided line_repeated).2 (.inl (by decide)) ["--help"]
  · exact (Line.decided line_below).2 (.inr ⟨-1, by decide, by decide⟩) []

end ShapeLedger.CommandLine
