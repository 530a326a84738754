/-
The paths on a command line. Whichever words it is made of, each path that is read from it is one of the
words, or a part of one, and no path is empty: that holds of all that has been settled at a level, and every
word keeps it.
-/
import ShapeLedger.CommandLine.Parse
import ShapeLedger.Json.Reader

namespace ShapeLedger.CommandLine

open Json (map_eq_ok bind_eq_ok)

/-! ## Definitions -/

/-- A path that is given has been read from a text with at least one character. -/
def IsRead (o : Option Path) : Prop := ∀ p, o = some p → ∃ s : String, s.isEmpty = false ∧ p = .ofString s

/-- All paths that have been settled have been read. -/
structure Matches.Read (m : Matches) : Prop where
  config : IsRead m.config
  database : IsRead m.database
  logFile : IsRead m.logFile
  file : IsRead m.file

/-- All paths of an invocation have been read. -/
def Invocation.Read (i : Invocation) : Prop :=
  IsRead i.config ∧
    match i.command with
    | .analyze args => IsRead args.file
    | .serve args => IsRead args.database ∧ IsRead args.logFile

/-! ## Options -/

section
variable {m m' : Matches} {s s' : Scan} {l : Level} {a : Arg}

theorem isRead_none : IsRead none := nofun

theorem isRead_ofString {value : String} (h : value.isEmpty = false) : IsRead (some (.ofString value)) := by
  rintro p ⟨⟩
  exact ⟨value, h, rfl⟩

theorem blank_read : Matches.blank.Read := ⟨isRead_none, isRead_none, isRead_none, isRead_none⟩

theorem path_read {before : Option Path} {value : String} {set : Path → Matches}
    (h : Matches.path a before value set = .ok m)
    (hset : value.isEmpty = false → (set (.ofString value)).Read) : m.Read := by
  unfold Matches.path at h
  split at h
  · cases h
  · split at h
    · cases h
    · next hvalue =>
      cases h
      exact hset (by simpa using hvalue)

theorem setValue_read {value : String} (hm : m.Read) (h : m.setValue a value = .ok m') : m'.Read := by
  cases a with
  | config =>
    simp only [Matches.setValue] at h
    exact path_read h fun hv => { hm with config := isRead_ofString hv }
  | database =>
    simp only [Matches.setValue] at h
    exact path_read h fun hv => { hm with database := isRead_ofString hv }
  | logFile =>
    simp only [Matches.setValue] at h
    exact path_read h fun hv => { hm with logFile := isRead_ofString hv }
  | file =>
    simp only [Matches.setValue] at h
    exact path_read h fun hv => { hm with file := isRead_ofString hv }
  | host =>
    simp only [Matches.setValue] at h
    split at h <;> cases h
    exact { hm with }
  | port =>
    simp only [Matches.setValue] at h
    split at h
    · cases h
    · split at h <;> cases h
      exact { hm with }
  | log | json | help | version => cases h; exact hm

theorem setFlag_read (hm : m.Read) (h : m.setFlag l a = .ok m') : m'.Read := by
  cases a with
  | log | json =>
    simp only [Matches.setFlag] at h
    split at h <;> cases h
    exact { hm with }
  | help | version => cases h
  | config | port | host | database | logFile | file => cases h; exact hm

/-! ## Words -/

theorem settle_read (hs : s.settled.Read) (h : s.settle = .ok s') : s'.settled.Read := by
  unfold Scan.settle at h
  split at h
  · cases h; exact hs
  · cases h
  · obtain ⟨m, hm, rfl⟩ := map_eq_ok h
    exact setValue_read hs hm

theorem valued_read {attached : Option String} (hs : s.settled.Read) (h : s.valued a attached = .ok s') :
    s'.settled.Read := by
  obtain ⟨t, hsettle, h⟩ := bind_eq_ok h
  have ht := settle_read hs hsettle
  cases attached with
  | none => cases h; exact ht
  | some value =>
    obtain ⟨m, hm, h⟩ := bind_eq_ok h
    cases h
    exact setValue_read ht hm

theorem flag_read (hs : s.settled.Read) (h : s.flag l a = .ok s') : s'.settled.Read := by
  obtain ⟨t, hsettle, h⟩ := bind_eq_ok h
  obtain ⟨m, hm, h⟩ := bind_eq_ok h
  cases h
  exact setFlag_read (settle_read hs hsettle) hm

theorem long_read {word : List Char} (hs : s.settled.Read) (h : s.long l word = .ok s') : s'.settled.Read := by
  simp only [Scan.long] at h
  split at h
  · cases h
  · split at h
    · exact valued_read hs h
    · split at h
      · exact flag_read hs h
      · cases h

theorem letters_read {cs : List Char} (hs : s.settled.Read) (h : s.letters l cs = .ok s') : s'.settled.Read := by
  induction cs generalizing s with
  | nil => cases h; exact hs
  | cons c cs ih =>
    unfold Scan.letters at h
    split at h
    · cases h
    · split at h
      · -- the rest of the word is the value
        split at h <;> exact valued_read hs h
      · split at h
        · cases h
        · next hf => exact ih (flag_read hs hf) h

theorem operand_read {word : String} (hs : s.settled.Read) (h : s.operand l word = .ok s') :
    s'.settled.Read := by
  unfold Scan.operand at h
  split at h
  · split at h
    · cases h
    · obtain ⟨t, hsettle, rfl⟩ := map_eq_ok h
      have ht := settle_read hs hsettle
      exact ht
  · split at h <;> cases h

theorem word_read {w : String} (hs : s.settled.Read) (h : s.word l w = .ok s') : s'.settled.Read := by
  unfold Scan.word at h
  split at h
  · exact operand_read hs h
  · split at h
    · cases h; exact hs
    · exact long_read hs h
    · exact letters_read hs h
    · split at h
      · cases h; exact hs
      · exact operand_read hs h

/-! ## Lines -/

theorem readCommand_read {words : List String} (hs : s.settled.Read) (h : readCommand l s words = .ok m) :
    m.Read := by
  induction words generalizing s with
  | nil =>
    rw [readCommand] at h
    obtain ⟨t, hsettle, rfl⟩ := map_eq_ok h
    exact settle_read hs hsettle
  | cons w ws ih =>
    rw [readCommand] at h
    split at h
    · cases h
    · next hw => exact ih (word_read hs hw) h

theorem readTop_read {words : List String} {command : Option (Level × List String)} (hs : s.settled.Read)
    (h : readTop s words = .ok (s', command)) : s'.settled.Read := by
  induction words generalizing s with
  | nil => cases h; exact hs
  | cons w ws ih =>
    rw [readTop] at h
    split at h
    · cases h; exact hs
    · split at h
      · cases h
      · split at h
        · cases h
        · next hw => exact ih (word_read hs hw) h

theorem command_read {c : Command} {config : Option Path} (hm : m.Read) (hc : IsRead config)
    (h : m.command l = some c) : (⟨config, c⟩ : Invocation).Read := by
  cases l with
  | top => cases h
  | analyze => cases h; exact ⟨hc, hm.file⟩
  | serve => cases h; exact ⟨hc, hm.database, hm.logFile⟩

/-- Every path of a command line has been read from a text that is not empty. -/
theorem parse_read {words : List String} {i : Invocation} (h : parse words = .ok i) : i.Read := by
  obtain ⟨⟨before, command⟩, htop, h⟩ := bind_eq_ok h
  have hbefore := readTop_read blank_read htop
  cases command with
  | none =>
    obtain ⟨t, -, h⟩ := bind_eq_ok h
    split at h <;> cases h
  | some command =>
    obtain ⟨l, behind⟩ := command
    obtain ⟨m, hm, h⟩ := bind_eq_ok h
    obtain ⟨t, hsettle, h⟩ := bind_eq_ok h
    split at h
    · next c hc =>
      cases h
      have hread := readCommand_read blank_read hm
      refine command_read hread ?_ hc
      -- the settings file named behind the command, or else before it
      cases hconfig : m.config with
      | some p =>
        have hp := hread.config
        rw [hconfig] at hp
        exact hp
      | none => exact (settle_read hbefore hsettle).config
    · cases h

end

end ShapeLedger.CommandLine
