/-
What is set on a command line, and the words that set it. Each way of spelling a setting does the same to what
has been read so far: the setting is added, unless it is not known there, is there already, or has a value that
does not fit. Since the value of an option is looked at only when the next one is met, what has been read is
what it would be if it were settled at once (`Stands`).
-/
import ShapeLedger.Json.Reader
import ShapeLedger.Proofs.CommandLine.Port

namespace ShapeLedger.CommandLine

open Json (map_eq_ok)

/-! ## Definitions -/

/-- Something that is set on a command line. -/
inductive Setting where
  | config (text : String)
  | port (n : Int)
  | host (text : String)
  | database (text : String)
  | logFile (text : String)
  | file (text : String)
  | log
  | json
deriving DecidableEq

/-- A text that is taken for a value, wherever one may stand. -/
structure Plain (t : String) : Prop where
  filled : t ≠ ""
  bare : t.toList.head? ≠ some '-'

namespace Setting

def arg : Setting → Arg
  | config _ => .config
  | port _ => .port
  | host _ => .host
  | database _ => .database
  | logFile _ => .logFile
  | file _ => .file
  | log => .log
  | json => .json

/-- The texts that may be given as the value. -/
def Writes (x : Setting) (t : String) : Prop :=
  match x with
  | port n => IntegerText t n
  | config s | host s | database s | logFile s | file s => t = s ∧ Plain t
  | log | json => False

/-- A port has 16 bits. -/
def fits : Setting → Bool
  | port n => 0 ≤ n && n < 65536
  | _ => true

/-- The words that spell a setting. -/
inductive Spells (x : Setting) : List String → Prop where
  | apart {name t : String} (named : x.arg.long? = some name) (written : x.Writes t) :
      Spells x ["--" ++ name, t]
  | attached {name t : String} (named : x.arg.long? = some name) (written : x.Writes t) :
      Spells x ["--" ++ name ++ "=" ++ t]
  | letter {c : Char} {t : String} (named : x.arg.short? = some c) (written : x.Writes t) :
      Spells x [String.ofList ['-', c], t]
  | flag {name : String} (named : x.arg.long? = some name) (unvalued : x.arg.takesValue = false) :
      Spells x ["--" ++ name]
  | operand {t : String} (unnamed : x.arg.long? = none) (written : x.Writes t) : Spells x [t]

/-- The words that spell settings one after the other. -/
inductive SpellsAll : List Setting → List String → Prop where
  | nil : SpellsAll [] []
  | cons {x : Setting} {xs : List Setting} {ws vs : List String} (first : x.Spells ws) (rest : SpellsAll xs vs) :
      SpellsAll (x :: xs) (ws ++ vs)

end Setting

/-- Whether an option, or the operand, may stand at a level. -/
def Level.takes (l : Level) (a : Arg) : Bool := l.options.contains a || l.operand? == some a

namespace Matches

def has (m : Matches) : Arg → Bool
  | .config => m.config.isSome
  | .port => m.port.isSome
  | .host => m.host.isSome
  | .database => m.database.isSome
  | .log => m.log
  | .logFile => m.logFile.isSome
  | .file => m.file.isSome
  | .json => m.json
  | .help | .version => false

def put (m : Matches) : Setting → Matches
  | .config t => { m with config := some (.ofString t) }
  | .port n => { m with port := some (.ofNat n.toNat) }
  | .host t => { m with host := some t }
  | .database t => { m with database := some (.ofString t) }
  | .logFile t => { m with logFile := some (.ofString t) }
  | .file t => { m with file := some (.ofString t) }
  | .log => { m with log := true }
  | .json => { m with json := true }

/-- Puts a setting where nothing is yet, if it fits. -/
def set? (m : Matches) (x : Setting) : Option Matches :=
  if x.fits && !m.has x.arg then some (m.put x) else none

/-- Adds a setting at a level. -/
def add? (l : Level) (m : Matches) (x : Setting) : Option Matches :=
  if l.takes x.arg then m.set? x else none

def addAll? (l : Level) (m : Matches) (xs : List Setting) : Option Matches := xs.foldlM (add? l) m

end Matches

/-- An answer that is as expected, or a refusal with the exit code 2 where none is. -/
inductive Agrees {α : Type} : Except Refusal α → Option α → Prop where
  | accepted (a : α) : Agrees (.ok a) (some a)
  | refused {r : Refusal} (exitCode : r.exitCode = 2) : Agrees (.error r) none

/-- What words at a level have led to comes to these matches, when it is settled; or it is refused, then or
before. -/
inductive Stands : Except Refusal Scan → Option Matches → Prop where
  | refused {r : Refusal} (exitCode : r.exitCode = 2) : Stands (.error r) none
  | reading {s : Scan} {o : Option Matches} (awaits : s.awaits = false)
      (settle : Agrees s.settle (o.map fun m => ⟨m, none, false⟩)) : Stands (.ok s) o

/-- Words at a level, one after the other. -/
def Scan.words (l : Level) (s : Scan) (ws : List String) : Except Refusal Scan :=
  ws.foldlM (fun s w => s.word l w) s

/-! ## Values -/

section
variable {x : Setting} {m m' : Matches} {l : Level} {a : Arg} {t v name : String}

theorem Agrees.map {α β : Type} {e : Except Refusal α} {o : Option α} (h : Agrees e o) (f : α → β) :
    Agrees (e.map f) (o.map f) := by
  cases h with
  | accepted a => exact .accepted (f a)
  | refused hr => exact .refused hr

theorem path_agrees {before : Option Path} {set : Path → Matches} (hp : Plain t) :
    Agrees (Matches.path a before t set) (if !before.isSome then some (set (.ofString t)) else none) := by
  have hempty : t.isEmpty = false := by
    rw [← Bool.not_eq_true, String.isEmpty_iff]
    exact hp.filled
  unfold Matches.path
  cases before with
  | some p => exact .refused rfl
  | none =>
    simp only [hempty]
    exact .accepted _

/-- An option gets its value, unless it has one or the value does not fit. -/
theorem setValue_agrees (hx : x.Writes t) (m : Matches) : Agrees (m.setValue x.arg t) (m.set? x) := by
  cases x with
  | config s | database s | logFile s | file s =>
    obtain ⟨rfl, hp⟩ := hx
    simp only [Setting.arg, Matches.setValue, Matches.set?, Setting.fits, Matches.has, Bool.true_and]
    exact path_agrees hp
  | host s =>
    obtain ⟨rfl, -⟩ := hx
    simp only [Setting.arg, Matches.setValue, Matches.set?, Setting.fits, Matches.has, Bool.true_and]
    cases m.host with
    | some _ => exact .refused rfl
    | none => exact .accepted _
  | port n =>
    -- a port is refused when one is set, and when it is out of range
    cases hport : m.port with
    | some _ =>
      simp only [Setting.arg, Matches.setValue, Matches.set?, Matches.has, hport, Option.isSome_some,
        Bool.not_true, Bool.and_false]
      exact .refused rfl
    | none =>
      simp only [Setting.arg, Matches.setValue, Matches.set?, Matches.has, hport]
      cases hfits : (Setting.port n).fits with
      | true =>
        obtain ⟨hlow, hhigh⟩ : 0 ≤ n ∧ n < 65536 := by simpa [Setting.fits] using hfits
        simp only [readPort_eq_ok hx hlow hhigh]
        exact .accepted _
      | false =>
        have hout : ¬ (0 ≤ n ∧ n < 65536) := by simpa [Setting.fits] using hfits
        obtain ⟨fault, hfault⟩ := readPort_eq_error hx hout
        simp only [hfault]
        exact .refused rfl
  | log | json => exact hx.elim

/-- An option without a value is set, unless it is already. -/
theorem setFlag_agrees (hx : x.arg.takesValue = false) (l : Level) (m : Matches) :
    Agrees (m.setFlag l x.arg) (m.set? x) := by
  cases x with
  | log | json =>
    simp only [Setting.arg, Matches.setFlag, Matches.set?, Setting.fits, Matches.has, Bool.true_and]
    split
    · next hm =>
      rw [hm]
      exact .refused rfl
    · next hm =>
      rw [Bool.not_eq_true] at hm
      rw [hm]
      exact .accepted _
  | config _ | port _ | host _ | database _ | logFile _ | file _ => cases hx

theorem takesValue_of_writes (hx : x.Writes t) : x.arg.takesValue = true := by
  cases x with
  | log | json => exact hx.elim
  | config _ | port _ | host _ | database _ | logFile _ | file _ => rfl

/-- A value that is written like an option is a number below zero, and fits nowhere. -/
theorem plain_or_negative (hx : x.Writes t) :
    Plain t ∨ ∃ c cs, t.toList = '-' :: c :: cs ∧ c.isDigit = true ∧ x.fits = false := by
  cases x with
  | config _ | host _ | database _ | logFile _ | file _ => exact .inl hx.2
  | log | json => exact hx.elim
  | port n =>
    have hplain {c : Char} {cs : List Char} (hc : c ≠ '-') : Plain (String.ofList (c :: cs)) := by
      refine ⟨fun hempty => ?_, by simpa using hc⟩
      have hlist := congrArg String.toList hempty
      rw [String.toList_ofList] at hlist
      cases hlist
    cases hx with
    | @unsigned ds hds hne =>
      cases ds with
      | nil => exact absurd rfl hne
      | cons c cs =>
        refine .inl (hplain ?_)
        rintro rfl
        exact absurd (hds '-' List.mem_cons_self) (by decide)
    | positive => exact .inl (hplain (by decide))
    | @negative ds hds hbelow =>
      cases ds with
      | nil => simp at hbelow
      | cons c cs =>
        refine .inr ⟨c, cs, String.toList_ofList, hds c List.mem_cons_self, ?_⟩
        have hlow : ¬ (0 : Int) ≤ -(Nat.ofDigitChars 10 (c :: cs) 0 : Int) := by omega
        rw [Setting.fits, decide_eq_false hlow, Bool.false_and]

/-! ## Names -/

theorem long?_eq (ha : a.long? = some name) (l : Level) : l.long? name = if l.takes a then some a else none := by
  cases a <;> cases ha <;> cases l <;> decide +kernel

theorem short?_eq {c : Char} (ha : a.short? = some c) (l : Level) :
    c ≠ '-' ∧ l.short? c = if l.takes a then some a else none := by
  cases a <;> cases ha <;> cases l <;> decide +kernel

/-- The name of an option is not empty, and no equals sign is in it. -/
theorem name_spelled (ha : a.long? = some name) : name.toList ≠ [] ∧ '=' ∉ name.toList := by
  cases a <;> cases ha <;> decide +kernel

/-- No option has a digit for its letter. -/
theorem short?_isDigit {c : Char} (hc : c.isDigit = true) (l : Level) : l.short? c = none := by
  refine List.find?_eq_none.2 fun a _ ha => ?_
  rw [decide_eq_true_iff] at ha
  cases a <;> cases ha <;> cases hc

/-! ## Once it is refused -/

variable {s s' : Scan} {w : String} {cs : List Char} {r : Refusal}

theorem Stands.settle_eq_error (h : Stands (.ok s) none) :
    s.awaits = false ∧ ∃ r, s.settle = .error r ∧ r.exitCode = 2 := by
  cases h with
  | reading hawaits hsettle =>
    rw [Option.map_none] at hsettle
    generalize s.settle = e at hsettle
    cases hsettle with
    | refused hr => exact ⟨hawaits, _, rfl, hr⟩

theorem operand_of_error (h : s.settle = .error r) (hr : r.exitCode = 2) : Stands (s.operand l w) none := by
  unfold Scan.operand
  split
  · split
    · exact .refused rfl
    · rw [h]
      exact .refused hr
  · split <;> exact .refused rfl

theorem valued_of_error (h : s.settle = .error r) (a : Arg) (attached : Option String) :
    s.valued a attached = .error r := by
  unfold Scan.valued
  rw [h]
  rfl

theorem flag_of_error (h : s.settle = .error r) (l : Level) (a : Arg) : s.flag l a = .error r := by
  unfold Scan.flag
  rw [h]
  rfl

theorem long_of_error (h : s.settle = .error r) (hr : r.exitCode = 2) (cs : List Char) :
    Stands (s.long l cs) none := by
  simp only [Scan.long]
  split
  · exact .refused rfl
  · split
    · rw [valued_of_error h]
      exact .refused hr
    · split
      · rw [flag_of_error h]
        exact .refused hr
      · exact .refused rfl

theorem letters_of_error (h : s.settle = .error r) (hr : r.exitCode = 2) (c : Char) (cs : List Char) :
    Stands (s.letters l (c :: cs)) none := by
  unfold Scan.letters
  split
  · exact .refused rfl
  · split
    · simp only [valued_of_error h]
      split <;> exact .refused hr
    · rw [flag_of_error h]
      exact .refused hr

theorem settle_marked (s : Scan) : Scan.settle { s with operandsOnly := true } =
    s.settle.map fun s => { s with operandsOnly := true } := by
  obtain ⟨m, pending, marked⟩ := s
  rcases pending with _ | ⟨a, _ | value⟩
  · rfl
  · rfl
  · simp only [Scan.settle]
    cases m.setValue a value <;> rfl

/-- What cannot be settled is refused whatever word comes next. -/
theorem Stands.word_none (h : Stands (.ok s) none) (l : Level) (w : String) : Stands (s.word l w) none := by
  obtain ⟨hawaits, r, hsettle, hr⟩ := h.settle_eq_error
  unfold Scan.word
  split
  · exact operand_of_error hsettle hr
  · split
    · -- from here on all words are operands, but what is pending is still not settled
      refine .reading hawaits ?_
      rw [settle_marked, hsettle]
      exact .refused hr
    · exact long_of_error hsettle hr _
    · exact letters_of_error hsettle hr _ _
    · split
      · next hpending =>
        rw [Scan.awaits, hpending] at hawaits
        cases hawaits
      · exact operand_of_error hsettle hr

theorem Stands.words_none {e : Except Refusal Scan} (h : Stands e none) (l : Level) (ws : List String) :
    Stands (e >>= fun s => s.words l ws) none := by
  cases h with
  | refused hr => exact .refused hr
  | @reading s _ hawaits hsettle =>
    have hs : Stands (.ok s) none := .reading hawaits hsettle
    show Stands (s.words l ws) none
    clear hawaits hsettle
    induction ws generalizing s with
    | nil => exact hs
    | cons w ws ih =>
      have hword := hs.word_none l w
      rw [Scan.words, List.foldlM_cons]
      cases he : s.word l w with
      | error r =>
        rw [he] at hword
        cases hword with
        | refused hr => exact .refused hr
      | ok s' =>
        rw [he] at hword
        exact ih hword

/-! ## Settling -/

theorem settle_operandsOnly (h : s.settle = .ok s') : s'.operandsOnly = s.operandsOnly := by
  unfold Scan.settle at h
  split at h
  · cases h
    rfl
  · cases h
  · obtain ⟨m, -, rfl⟩ := map_eq_ok h
    rfl

theorem Stands.settle_eq_ok (h : Stands (.ok s) (some m)) :
    s.awaits = false ∧ s.operandsOnly = false ∧ s.settle = .ok ⟨m, none, false⟩ := by
  cases h with
  | reading hawaits hsettle =>
    rw [Option.map_some] at hsettle
    generalize he : s.settle = e at hsettle
    cases hsettle with
    | accepted => exact ⟨hawaits, (settle_operandsOnly he).symm, rfl⟩

/-- An option whose value has come stands as it would with the value settled. -/
theorem stands_pending (hx : x.Writes t) (hl : l.takes x.arg = true) (m : Matches) :
    Stands (.ok ⟨m, some (x.arg, some t), false⟩) (m.add? l x) := by
  refine .reading rfl ?_
  rw [Matches.add?, if_pos hl]
  exact (setValue_agrees hx m).map fun m => (⟨m, none, false⟩ : Scan)

/-! ## One word -/

theorem word_long (hs : s.operandsOnly = false) (hw : w.toList = '-' :: '-' :: cs) (hcs : cs ≠ []) :
    s.word l w = s.long l cs := by
  cases cs with
  | nil => exact absurd rfl hcs
  | cons c cs =>
    unfold Scan.word
    simp only [hs, hw, Bool.false_eq_true, if_false]

theorem word_letters {c : Char} (hs : s.operandsOnly = false) (hw : w.toList = '-' :: c :: cs) (hc : c ≠ '-') :
    s.word l w = s.letters l (c :: cs) := by
  unfold Scan.word
  simp only [hs, hw, Bool.false_eq_true, if_false]
  split
  · next h =>
    cases h
    exact absurd rfl hc
  · next h =>
    cases h
    exact absurd rfl hc
  · next h =>
    cases h
    rfl
  · next h => exact absurd rfl (h c cs)

theorem word_plain (hs : s.operandsOnly = false) (hw : Plain w) : s.word l w =
    match s.pending with
    | some (a, none) => .ok { s with pending := some (a, some w) }
    | _ => s.operand l w := by
  have hbare (cs : List Char) : w.toList ≠ '-' :: cs := by
    intro h
    exact hw.bare (by rw [h]; rfl)
  unfold Scan.word
  simp only [hs, Bool.false_eq_true, if_false]
  split
  · next h => exact absurd h (hbare _)
  · next h => exact absurd h (hbare _)
  · next h => exact absurd h (hbare _)
  · rfl

/-- A word with two hyphens names an option, and has its value behind an equals sign or none. -/
theorem word_named (hs : s.operandsOnly = false) (ha : a.long? = some name) (attached : Option String)
    (hw : w.toList = '-' :: '-' :: (name.toList ++ attached.elim [] fun t => '=' :: t.toList)) :
    s.word l w = if l.takes a then
        if a.takesValue then s.valued a attached
        else attached.elim (s.flag l a) fun value => .error (.unneededValue value a)
      else .error (.unknownArgument ("--" ++ name)) := by
  obtain ⟨hne, hequals⟩ := name_spelled ha
  have hname : ∀ c ∈ name.toList, decide (c ≠ '=') = true := fun c hc =>
    decide_eq_true fun he => hequals (he ▸ hc)
  have htake : (name.toList ++ attached.elim [] fun t => '=' :: t.toList).takeWhile (· ≠ '=') = name.toList := by
    rw [List.takeWhile_append_of_pos hname]
    cases attached <;> simp
  have hdrop : (name.toList ++ attached.elim [] fun t => '=' :: t.toList).dropWhile (· ≠ '=') =
      attached.elim [] fun t => '=' :: t.toList := by
    rw [List.dropWhile_append_of_pos hname]
    cases attached <;> simp
  rw [word_long hs hw (by simp [hne])]
  simp only [Scan.long, htake, hdrop, String.ofList_toList, long?_eq ha]
  cases l.takes a <;> cases attached <;> simp

/-! ## One setting -/

theorem valued_settled (h : s.settle = .ok ⟨m, none, false⟩) (a : Arg) :
    s.valued a none = .ok ⟨m, some (a, none), false⟩ := by
  unfold Scan.valued
  rw [h]
  rfl

theorem valued_attached (h : s.settle = .ok ⟨m, none, false⟩) (a : Arg) (v : String) :
    s.valued a (some v) = (m.setValue a v).map fun m => ⟨m, none, false⟩ := by
  unfold Scan.valued
  rw [h]
  show (m.setValue a v >>= fun m => pure _) = _
  cases m.setValue a v <;> rfl

theorem flag_settled (h : s.settle = .ok ⟨m, none, false⟩) (l : Level) (a : Arg) :
    s.flag l a = (m.setFlag l a).map fun m => ⟨m, none, false⟩ := by
  unfold Scan.flag
  rw [h]
  show (m.setFlag l a >>= fun m => pure _) = _
  cases m.setFlag l a <;> rfl

/-- Nothing waits behind a setting that is settled right away. -/
theorem Agrees.stands {e : Except Refusal Matches} {o : Option Matches} (h : Agrees e o) :
    Stands (e.map fun m => ⟨m, none, false⟩) o := by
  cases h with
  | accepted m => exact .reading rfl (.accepted _)
  | refused hr => exact .refused hr

theorem path_eq_ok {before : Option Path} {set : Path → Matches} (h : Matches.path a before v set = .ok m) :
    m = set (.ofString v) := by
  unfold Matches.path at h
  split at h
  · cases h
  · split at h <;> cases h
    rfl

theorem setValue_file (h : m.setValue a v = .ok m') : m'.file.isSome = (m.file.isSome || a = .file) := by
  cases a with
  | config | database | logFile | file =>
    simp only [Matches.setValue] at h
    rw [path_eq_ok h]
    simp
  | host | port =>
    simp only [Matches.setValue] at h
    repeat' split at h
    all_goals cases h
    simp
  | log | json | help | version =>
    cases h
    simp

/-- The operand has been met where it has been settled. -/
theorem hasOperand_eq (h : s.settle = .ok ⟨m, none, false⟩) : s.hasOperand = m.file.isSome := by
  obtain ⟨settled, pending, marked⟩ := s
  rcases pending with _ | ⟨a, _ | value⟩
  · cases h
    exact Bool.or_false _
  · cases h
  · obtain ⟨m', hm, he⟩ := map_eq_ok h
    cases he
    exact (setValue_file hm).symm

/-- The value that an option waits for is the next word. -/
theorem word_awaited (hx : x.Writes t) (hl : l.takes x.arg = true) (m : Matches) :
    Stands (Scan.word ⟨m, some (x.arg, none), false⟩ l t) (m.add? l x) := by
  rcases plain_or_negative hx with hplain | ⟨c, cs, ht, hc, hfits⟩
  · rw [word_plain rfl hplain]
    exact stands_pending hx hl m
  · -- a number below zero is read as the letters of options
    have hnone : m.add? l x = none := by
      rw [Matches.add?, if_pos hl, Matches.set?, hfits]
      rfl
    have hletter : c ≠ '-' := by
      rintro rfl
      cases hc
    rw [hnone, word_letters rfl ht hletter, Scan.letters, short?_isDigit hc]
    exact .refused rfl


theorem words_one (l : Level) (s : Scan) (w : String) : s.words l [w] = s.word l w := by
  rw [Scan.words, List.foldlM_cons]
  exact bind_pure _

theorem words_two (l : Level) (s : Scan) (w v : String) :
    s.words l [w, v] = s.word l w >>= fun s => s.word l v := by
  rw [Scan.words, List.foldlM_cons]
  refine bind_congr fun s => ?_
  rw [List.foldlM_cons]
  exact bind_pure _

theorem add?_of_takes_false (hl : l.takes x.arg = false) (m : Matches) : m.add? l x = none := by
  rw [Matches.add?, hl]
  rfl

/-- An operand that has no option in front of it is added where there is to be one. -/
theorem operand_settled (h : Stands (.ok s) (some m)) (ht : Plain t) (l : Level) :
    Stands (s.word l t) (m.add? l (.file t)) := by
  obtain ⟨hawaits, hmarked, hsettle⟩ := h.settle_eq_ok
  have hword : s.word l t = s.operand l t := by
    rw [word_plain hmarked ht]
    split
    · next hpending =>
      rw [Scan.awaits, hpending] at hawaits
      cases hawaits
    · rfl
  rw [hword, Scan.operand]
  cases l with
  | top | serve =>
    simp only [Level.operand?]
    split <;> exact .refused rfl
  | analyze =>
    simp only [Level.operand?, hasOperand_eq hsettle]
    split
    · next hfile =>
      simp only [Matches.add?, Matches.set?, Setting.arg, Matches.has, hfile]
      exact .refused rfl
    · rw [hsettle]
      exact stands_pending (x := .file t) ⟨rfl, ht⟩ rfl m

/-- Behind a word that has an option wait, the value settles it. -/
theorem words_awaited (hsettle : s.settle = .ok ⟨m, none, false⟩) (ht : x.Writes t)
    (hword : s.word l w = if l.takes x.arg then s.valued x.arg none else .error r) (hr : r.exitCode = 2) :
    Stands (s.words l [w, t]) (m.add? l x) := by
  rw [words_two, hword]
  cases hl : l.takes x.arg with
  | false =>
    rw [add?_of_takes_false hl]
    exact .refused hr
  | true =>
    simp only [if_true, valued_settled hsettle]
    exact word_awaited ht hl m

/-- The words of a setting add it to what is settled. -/
theorem words_spelled {ws : List String} (h : Stands (.ok s) (some m)) (hx : x.Spells ws) (l : Level) :
    Stands (s.words l ws) (m.add? l x) := by
  obtain ⟨-, hmarked, hsettle⟩ := h.settle_eq_ok
  -- one case for each spelling; an option that the level does not take is refused in all of them
  cases hx with
  | @apart name t hname ht =>
    refine words_awaited (r := .unknownArgument ("--" ++ name)) hsettle ht ?_ rfl
    rw [word_named hmarked hname none (by simp), takesValue_of_writes ht]
    rfl
  | @attached name t hname ht =>
    rw [words_one, word_named hmarked hname (some t) (by simp), takesValue_of_writes ht]
    cases hl : l.takes x.arg with
    | false =>
      rw [add?_of_takes_false hl]
      exact .refused rfl
    | true =>
      simp only [if_true, valued_attached hsettle]
      rw [Matches.add?, if_pos hl]
      exact (setValue_agrees ht m).stands
  | @letter c t hletter ht =>
    obtain ⟨hhyphen, hshort⟩ := short?_eq hletter l
    refine words_awaited (r := .unknownArgument (String.ofList ['-', c])) hsettle ht ?_ rfl
    rw [word_letters hmarked String.toList_ofList hhyphen, Scan.letters, hshort]
    cases l.takes x.arg with
    | false => rfl
    | true => simp only [if_true, takesValue_of_writes ht]
  | @flag name hname hvalue =>
    rw [words_one, word_named hmarked hname none (by simp), hvalue]
    cases hl : l.takes x.arg with
    | false =>
      rw [add?_of_takes_false hl]
      exact .refused rfl
    | true =>
      simp only [if_true, Bool.false_eq_true, if_false, Option.elim_none, flag_settled hsettle]
      rw [Matches.add?, if_pos hl]
      exact (setFlag_agrees hvalue l m).stands
  | @operand t hname ht =>
    cases x with
    | file v =>
      obtain ⟨rfl, hplain⟩ := ht
      rw [words_one]
      exact operand_settled h hplain l
    | config _ | port _ | host _ | database _ | logFile _ | log | json => cases hname

/-! ## Settings one after the other -/

theorem words_append (l : Level) (s : Scan) (ws vs : List String) :
    s.words l (ws ++ vs) = s.words l ws >>= fun s => s.words l vs := List.foldlM_append

/-- The words of settings add them one after the other. -/
theorem Stands.words {e : Except Refusal Scan} {o : Option Matches} {xs : List Setting} {ws : List String}
    (h : Stands e o) (hxs : Setting.SpellsAll xs ws) (l : Level) :
    Stands (e >>= fun s => s.words l ws) (o.bind fun m => m.addAll? l xs) := by
  cases o with
  | none => exact h.words_none l ws
  | some m =>
    cases h with
    | @reading s _ hawaits hsettle =>
      have hs : Stands (.ok s) (some m) := .reading hawaits hsettle
      show Stands (s.words l ws) (m.addAll? l xs)
      clear hawaits hsettle
      induction hxs generalizing s m with
      | nil => exact hs
      | @cons x xs ws vs hfirst hrest ih =>
        have hword := words_spelled hs hfirst l
        rw [words_append, Matches.addAll?, List.foldlM_cons]
        -- the first refusal is the answer, and nothing behind it is read
        cases hadd : m.add? l x with
        | none =>
          rw [hadd] at hword
          exact hword.words_none l vs
        | some m' =>
          rw [hadd] at hword
          cases he : s.words l ws with
          | error r =>
            rw [he] at hword
            cases hword
          | ok s' =>
            rw [he] at hword
            exact ih m' hword

end

end ShapeLedger.CommandLine
