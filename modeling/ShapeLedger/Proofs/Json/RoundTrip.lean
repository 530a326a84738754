/-
What is printed is read back as it was. A value without repeated keys whose numbers are integers of 64
bits is denoted by its text, whatever blanks the layout puts between the tokens; so the reader gives that
value again, every character and the order of the members included. For the numbers that are counts the
last section bounds what a text denotes by its length.
-/
import ShapeLedger.Proofs.Json.Printing
import ShapeLedger.Proofs.Json.Reading

namespace ShapeLedger.Json

open Ascii Grammar

/-! ## Definitions -/

/-- The values whose texts denote them: each object has its keys once, and each number is an integer
that a literal can stand for. -/
inductive Faithful : Value → Prop where
  | null : Faithful .null
  | boolean (b : Bool) : Faithful (.boolean b)
  | integer {n : Int} (low : -(twoPow 63 : Int) ≤ n) (high : n < twoPow 64) :
      Faithful (.number (.integer n))
  | text (s : String) : Faithful (.text s)
  | array {vs : List Value} (elements : ∀ v ∈ vs, Faithful v) : Faithful (.array vs)
  | object {ms : Members} (keys : (ms.map (·.1)).Nodup) (values : ∀ m ∈ ms, Faithful m.2) :
      Faithful (.object ms)

/-- The layout puts nothing but blanks between the tokens. -/
structure Layout.IsBlank (layout : Layout) : Prop where
  afterColon : Blank (utf8 layout.afterColon)
  newline : ∀ level, Blank (utf8 (layout.newline level))

theorem utf8_cons (c : Char) (cs : List Char) : utf8 (c :: cs) = Utf8.encodeCodePoint c.toNat ++ utf8 cs :=
  List.flatMap_cons

theorem compactLayout_isBlank : compactLayout.IsBlank := ⟨blank_nil, fun _ => blank_nil⟩

theorem indentedLayout_isBlank : indentedLayout.IsBlank := by
  constructor
  · intro b hb
    exact .inl (List.mem_singleton.1 hb)
  · intro level b hb
    have hbytes : utf8 (indentedLayout.newline level) = lineFeed :: List.replicate (2 * level) space := by
      show utf8 ('\n' :: List.replicate (2 * level) ' ') = _
      rw [utf8, List.flatMap_cons, List.flatMap_replicate]
      have hspace : Utf8.encodeCodePoint ' '.toNat = [space] := by decide
      rw [hspace, List.flatten_replicate_singleton]
      rfl
    rw [hbytes, List.mem_cons, List.mem_replicate] at hb
    rcases hb with hb | ⟨-, hb⟩
    · exact .inr (.inr (.inl hb))
    · exact .inl hb

/-! ## Integers -/

/-- The digit of a number below ten. -/
theorem digitChar_spec : ∀ d < 10, utf8 [Nat.digitChar d] = [UInt8.ofNat (0x30 + d)] ∧
    isDigit (UInt8.ofNat (0x30 + d)) = true ∧ digitValue (UInt8.ofNat (0x30 + d)) = d ∧
    (0 < d → UInt8.ofNat (0x30 + d) ≠ zero) := by
  decide

theorem decimal_append (ds : Bytes) (b : UInt8) : decimal (ds ++ [b]) = decimal ds * 10 + digitValue b :=
  List.foldl_append

/-- The digits of a number make that number, with no zero in front of another digit. -/
theorem whole_toDigits (n : Nat) : Whole (utf8 (Nat.toDigits 10 n)) ∧
    decimal (utf8 (Nat.toDigits 10 n)) = n ∧
    (0 < n → Digits (utf8 (Nat.toDigits 10 n)) ∧ (utf8 (Nat.toDigits 10 n)).head? ≠ some zero) := by
  induction n using Nat.strongRecOn with
  | ind n ih =>
    obtain ⟨hb, hdigit, hvalue, hzero⟩ := digitChar_spec (n % 10) (Nat.mod_lt n (by decide))
    generalize UInt8.ofNat (0x30 + n % 10) = b at hb hdigit hvalue hzero
    by_cases h : n < 10
    · rw [Nat.mod_eq_of_lt h] at hb hvalue hzero
      have hbytes : utf8 (Nat.toDigits 10 n) = [b] := by rw [Nat.toDigits_of_lt_base h, hb]
      have hdigits : Digits [b] := ⟨by simp, by simpa using hdigit⟩
      rw [hbytes]
      refine ⟨?_, ?_, fun hpos => ⟨hdigits, by simpa using hzero hpos⟩⟩
      · by_cases hn : b = zero
        · rw [hn]; exact .zero
        · exact .digits hdigits (by simpa using hn)
      · rw [← hvalue]
        exact Nat.zero_add _
    · -- the last digit stands behind those of a smaller number, which is not zero
      obtain ⟨-, hdecimal, hfirst⟩ := ih (n / 10) (by omega)
      obtain ⟨hdigits, hhead⟩ := hfirst (by omega)
      have hbytes : utf8 (Nat.toDigits 10 n) = utf8 (Nat.toDigits 10 (n / 10)) ++ [b] := by
        rw [Nat.toDigits_of_base_le (by decide) (by omega), utf8_append, hb]
      have hall : Digits (utf8 (Nat.toDigits 10 n)) := by
        rw [hbytes]
        refine ⟨by simp, fun c hc => ?_⟩
        rcases List.mem_append.1 hc with hc | hc
        · exact hdigits.2 c hc
        · rwa [List.mem_singleton.1 hc]
      have hnotZero : (utf8 (Nat.toDigits 10 n)).head? ≠ some zero := by
        rwa [hbytes, List.head?_append_of_ne_nil _ hdigits.1]
      refine ⟨.digits hall hnotZero, ?_, fun _ => ⟨hall, hnotZero⟩⟩
      rw [hbytes, decimal_append, hdecimal, hvalue]
      omega

theorem toList_repr (n : Nat) : n.repr.toList = Nat.toDigits 10 n := by
  rw [Nat.repr_eq_ofList_toDigits, String.toList_ofList]

/-- A sign and digits. -/
theorem literal_whole (negative : Bool) {ds : Bytes} (h : Whole ds) :
    Literal ((if negative then [minus] else []) ++ ds) ⟨negative, ds, [], none⟩ := by
  have hl := @Literal.mk negative ds [] [] [] none h .absent .absent
  rwa [List.append_nil, List.append_nil] at hl

/-- An integer of 64 bits is denoted by its text. -/
theorem denotes_integer {n : Int} (low : -(twoPow 63 : Int) ≤ n) (high : n < twoPow 64) :
    Denotes (utf8 (toString n).toList) (.value (.number (.integer n))) := by
  have signed (negative : Bool) {ds : Bytes} (hw : Whole ds)
      (hn : signedWhole ⟨negative, ds, [], none⟩ = n) (hz : negative = true → decimal ds ≠ 0) :
      Denotes ((if negative then [minus] else []) ++ ds) (.value (.number (.integer n))) := by
    have hx := NumberDenotes.integer (n := ⟨negative, ds, [], none⟩)
      ⟨rfl, rfl, by rwa [hn], by rwa [hn], hz⟩
    rw [hn] at hx
    exact .number (literal_whole negative hw) hx
  cases n with
  | ofNat k =>
    obtain ⟨hw, hd, -⟩ := whole_toDigits k
    have htext : utf8 (toString (Int.ofNat k)).toList = utf8 (Nat.toDigits 10 k) :=
      congrArg utf8 (toList_repr k)
    rw [htext]
    exact signed false hw (congrArg Int.ofNat hd) (by simp)
  | negSucc k =>
    obtain ⟨hw, hd, -⟩ := whole_toDigits (k + 1)
    have htext : utf8 (toString (Int.negSucc k)).toList = [minus] ++ utf8 (Nat.toDigits 10 (k + 1)) := by
      show utf8 ("-" ++ (k + 1).repr).toList = _
      rw [String.toList_append, utf8_append, toList_repr]
      rfl
    rw [htext]
    refine signed true hw ?_ (fun _ => by rw [hd]; omega)
    rw [signedWhole, if_pos rfl, hd]
    rfl

/-! ## Values -/

section
variable {layout : Layout} {level : Nat}

/-- Keys that are there once are merged with nothing. -/
theorem merged_of_nodup {ms : Members} (h : (ms.map (·.1)).Nodup) : merged ms = ms := by
  induction ms using List.reverseRecOn with
  | nil => rfl
  | append_singleton ms m ih =>
    rw [List.map_append, List.nodup_append] at h
    obtain ⟨hrest, -, hnew⟩ := h
    have habsent : m.1 ∉ ms.map (·.1) := fun hm => hnew m.1 hm m.1 (by simp) rfl
    rw [merged_append, ih hrest, put_absent habsent]

/-- The elements of an array that is not empty, up to the bracket. -/
theorem denotes_printElements (hl : layout.IsBlank) {w : Bytes} (hw : Blank w) (v : Value) (vs : List Value)
    (h : ∀ x ∈ v :: vs, Denotes (utf8 (x.print layout level)) (.value x)) :
    Denotes (utf8 (layout.newline level) ++ (utf8 (v.print layout level) ++
      (utf8 (printElements layout level vs) ++ w))) (.elements (v :: vs)) := by
  induction vs generalizing v with
  | nil =>
    rw [List.forall_mem_singleton] at h
    exact .lastElement (.element (hl.newline level) h hw)
  | cons x rest ih =>
    rw [List.forall_mem_cons] at h
    have hsplit : utf8 (printElements layout level (x :: rest)) = comma :: (utf8 (layout.newline level) ++
        (utf8 (x.print layout level) ++ utf8 (printElements layout level rest))) := by
      simp only [printElements, utf8_cons, utf8_append, List.cons_append]
      rfl
    have hnext := Denotes.nextElement (.element (hl.newline level) h.1 blank_nil) (ih x h.2)
    rw [hsplit]
    simpa using hnext

/-- One member, up to the comma or the brace. -/
theorem denotes_printMember (hl : layout.IsBlank) {w : Bytes} (hw : Blank w) (key : String) {v : Value}
    (h : Denotes (utf8 (v.print layout level)) (.value v)) :
    Denotes (utf8 (layout.newline level) ++ (utf8 (quoted key) ++ colon :: (utf8 layout.afterColon ++
      (utf8 (v.print layout level) ++ w)))) (.member key v) :=
  .member (hl.newline level) (quoted_denotes key) blank_nil (.element hl.afterColon h hw)

/-- The members of an object that is not empty, up to the brace. -/
theorem denotes_printMembers (hl : layout.IsBlank) {w : Bytes} (hw : Blank w) (key : String) (v : Value)
    (ms : Members) (h : ∀ m ∈ (key, v) :: ms, Denotes (utf8 (m.2.print layout level)) (.value m.2)) :
    Denotes (utf8 (layout.newline level) ++ (utf8 (quoted key) ++ colon :: (utf8 layout.afterColon ++
      (utf8 (v.print layout level) ++ (utf8 (printMembers layout level ms) ++ w)))))
      (.members ((key, v) :: ms)) := by
  induction ms generalizing key v with
  | nil =>
    rw [List.forall_mem_singleton] at h
    exact .lastMember (denotes_printMember hl hw key h)
  | cons m rest ih =>
    obtain ⟨k, x⟩ := m
    rw [List.forall_mem_cons] at h
    have hsplit : utf8 (printMembers layout level ((k, x) :: rest)) = comma :: (utf8 (layout.newline level) ++
        (utf8 (quoted k) ++ colon :: (utf8 layout.afterColon ++
          (utf8 (x.print layout level) ++ utf8 (printMembers layout level rest))))) := by
      simp only [printMembers, utf8_cons, utf8_append, List.append_assoc, List.cons_append]
      rfl
    have hnext := Denotes.nextMember (denotes_printMember hl blank_nil key h.1) (ih k x h.2)
    rw [hsplit]
    simpa using hnext

/-- A faithful value is denoted by its text, in any layout of blanks. -/
theorem Faithful.denotes (hl : layout.IsBlank) {v : Value} (h : Faithful v) :
    ∀ level, Denotes (utf8 (v.print layout level)) (.value v) := by
  induction h with
  | null => exact fun _ => .null
  | boolean b =>
    intro level
    cases b with
    | false => exact .false
    | true => exact .true
  | integer low high => exact fun _ => denotes_integer low high
  | text s => exact fun _ => .text (quoted_denotes s)
  | @array vs _ ih =>
    intro level
    cases vs with
    | nil => exact .emptyArray blank_nil
    | cons v vs =>
      -- the first element stands apart, since the others have a comma in front of them
      have hsplit : utf8 ((Value.array (v :: vs)).print layout level) = openBracket ::
          ((utf8 (layout.newline (level + 1)) ++ (utf8 (v.print layout (level + 1)) ++
            (utf8 (printElements layout (level + 1) vs) ++ utf8 (layout.newline level)))) ++
              [closeBracket]) := by
        simp only [Value.print, utf8_cons, utf8_append, List.append_assoc, List.cons_append]
        rfl
      rw [hsplit]
      exact .array (denotes_printElements hl (hl.newline level) v vs fun x hx => ih x hx (level + 1))
  | @object ms keys _ ih =>
    intro level
    have hmerged := merged_of_nodup keys
    cases ms with
    | nil => exact .object (.emptyRecord blank_nil)
    | cons m ms =>
      obtain ⟨key, v⟩ := m
      have hsplit : utf8 ((Value.object ((key, v) :: ms)).print layout level) = openBrace ::
          ((utf8 (layout.newline (level + 1)) ++ (utf8 (quoted key) ++ colon :: (utf8 layout.afterColon ++
            (utf8 (v.print layout (level + 1)) ++ (utf8 (printMembers layout (level + 1) ms) ++
              utf8 (layout.newline level)))))) ++ [closeBrace]) := by
        simp only [Value.print, utf8_cons, utf8_append, List.append_assoc, List.cons_append]
        rfl
      rw [hsplit, ← hmerged]
      exact .object (.record (denotes_printMembers hl (hl.newline level) key v ms fun m hm =>
        ih m hm (level + 1)))

end

/-! ## Whole texts -/

theorem encode_ofList (cs : List Char) : Utf8.encode (String.ofList cs) = utf8 cs := by
  rw [Utf8.encode, String.toList_ofList, utf8]

/-- The compact text of a faithful value is a document of that value. -/
theorem Faithful.decode_compact {v : Value} (h : Faithful v) :
    Document.decode (Utf8.encode v.compact) = .ok v := by
  have ht := Denotes.element blank_nil (h.denotes compactLayout_isBlank 0) blank_nil
  rw [List.nil_append, List.append_nil] at ht
  rw [Document.decode_eq_ok, readDocument_eq_ok, Value.compact, encode_ofList]
  exact ht

/-- The indented text with the end of its last line is one too. -/
theorem Faithful.decode_indented {v : Value} (h : Faithful v) :
    Document.decode (Utf8.encode (v.indented ++ "\n")) = .ok v := by
  have hend : Blank (utf8 ['\n']) := by
    intro b hb
    exact .inr (.inr (.inl (List.mem_singleton.1 hb)))
  have ht := Denotes.element blank_nil (h.denotes indentedLayout_isBlank 0) hend
  have hbytes : Utf8.encode (v.indented ++ "\n") = utf8 (v.print indentedLayout 0) ++ utf8 ['\n'] := by
    rw [Value.indented, Utf8.encode, String.toList_append, String.toList_ofList, ← utf8_append]
    rfl
  rw [Document.decode_eq_ok, readDocument_eq_ok, hbytes]
  exact ht

/-! ## Sizes -/

/-- What is counted in a value: the bytes of a string, the elements of an array, the members of an
object. -/
def Value.breadth : Value → Nat
  | .text s => (Utf8.encode s).length
  | .array vs => vs.length
  | .object ms => ms.length
  | _ => 0

/-- What a piece of a text denotes is no bigger than this many bytes, and the values of its members are
written in no more. -/
def Within (n : Nat) : Meaning → Prop
  | .value v | .element v => v.breadth ≤ n
  | .elements vs => vs.length ≤ n + 1
  | .member _ v => ∃ s, Text s v ∧ s.length ≤ n
  | .members ms => ms.length ≤ n + 1 ∧ ∀ m ∈ ms, ∃ s, Text s m.2 ∧ s.length ≤ n
  | .record ms => ms.length ≤ n ∧ ∀ m ∈ ms, ∃ s, Text s m.2 ∧ s.length ≤ n

theorem length_encodeCodePoint_le (n : Nat) : (Utf8.encodeCodePoint n).length ≤ 4 := by
  unfold Utf8.encodeCodePoint
  split
  · exact Nat.le_of_ble_eq_true rfl
  · split
    · exact Nat.le_of_ble_eq_true rfl
    · split <;> exact Nat.le_of_ble_eq_true rfl

theorem letters_ascii {b : UInt8} {c : Char} (h : (b, c) ∈ letters) :
    (Utf8.encodeCodePoint c.toNat).length = 1 := by
  have hall : ∀ l ∈ letters, (Utf8.encodeCodePoint l.2.toNat).length = 1 := by decide
  exact hall (b, c) h

theorem Grammar.Hex.length {s : Bytes} {n : Nat} (h : Hex s n) : s.length = 4 := by
  cases h
  rfl

/-- No escape is shorter than the character that it stands for. -/
theorem Grammar.Escape.length_le {s : Bytes} {c : Char} (h : Escape s c) :
    (Utf8.encodeCodePoint c.toNat).length ≤ s.length + 1 := by
  have hfour := length_encodeCodePoint_le c.toNat
  cases h with
  | letter h =>
    rw [letters_ascii h]
    exact Nat.le_add_left 1 1
  | @codePoint s _ h =>
    have hs := h.length
    rw [List.length_cons]
    omega
  | @pair s t _ _ _ hs ht =>
    have hhs := hs.length
    simp only [List.length_cons, List.length_append]
    omega

theorem Unescaped.length_le {s t : Bytes} (h : Unescaped s t) : t.length ≤ s.length := by
  induction h with
  | nil => exact Nat.le_refl 0
  | raw _ _ _ _ ih => exact Nat.succ_le_succ ih
  | escape he _ ih =>
    have hle := he.length_le
    simp only [List.length_cons, List.length_append]
    omega

theorem Grammar.Characters.length_le {s : Bytes} {cs : List Char} (h : Characters s cs) :
    (utf8 cs).length ≤ s.length := by
  induction h with
  | nil => exact Nat.le_refl 0
  | @cons s t c cs head tail ih =>
    have hhead : (Utf8.encodeCodePoint c.toNat).length ≤ s.length := by
      cases head with
      | plain => exact Nat.le_refl _
      | escape h => exact h.length_le
    rw [utf8_cons, List.length_append, List.length_append]
    omega

theorem Grammar.Quoted.length_le {s : Bytes} {t : String} (h : Quoted s t) :
    (Utf8.encode t).length + 2 ≤ s.length := by
  cases h with
  | @mk body _ h =>
    have hbody : (Utf8.encode t).length ≤ body.length := h.length_le
    simp only [List.length_cons, List.length_append, List.length_nil]
    omega

theorem length_merged_le (ms : Members) : (merged ms).length ≤ ms.length := by
  have hkeys : (ms.map (·.1)).eraseDups ⊆ ms.map (·.1) := fun _ => List.mem_eraseDups.1
  have hle := (nodup_eraseDups (ms.map (·.1))).length_le_of_subset hkeys
  rwa [← map_fst_merged, List.length_map, List.length_map] at hle

/-- What a text denotes is no bigger than the text. -/
theorem Grammar.Denotes.within {s : Bytes} {m : Meaning} (h : Denotes s m) : Within s.length m := by
  -- each part takes at least one character, and a comma stands between two of them
  induction h with
  | null | true | false | number => exact Nat.zero_le _
  | text hs => exact Nat.le_of_add_right_le hs.length_le
  | emptyArray => exact Nat.zero_le _
  | emptyRecord => exact ⟨Nat.zero_le _, by simp⟩
  | @array s vs hs ih =>
    have hle : vs.length ≤ s.length + 1 := ih
    simp only [Within, Value.breadth, List.length_cons, List.length_append, List.length_nil]
    omega
  | @object s ms hs ih => exact (length_merged_le ms).trans ih.1
  | @element w s w' v hw hs hw' ih =>
    have hle : v.breadth ≤ s.length := ih
    simp only [Within, List.length_append]
    omega
  | lastElement => exact Nat.le_add_left 1 _
  | @nextElement s t v vs hs ht ihs iht =>
    have hle : vs.length ≤ t.length + 1 := iht
    simp only [Within, List.length_cons, List.length_append]
    omega
  | @member w k w' s key v hw hk hw' hs ih =>
    refine ⟨s, hs, ?_⟩
    simp only [List.length_append, List.length_cons]
    omega
  | @lastMember s key v hs ih =>
    refine ⟨Nat.le_add_left 1 _, fun m hm => ?_⟩
    rw [List.mem_singleton.1 hm]
    exact ih
  | @nextMember s t key v ms hs ht ihs iht =>
    obtain ⟨hle, hvalues⟩ := iht
    -- a member and the ones behind it are both shorter than what they make up
    have hlonger : s.length ≤ (s ++ comma :: t).length ∧ t.length + 1 ≤ (s ++ comma :: t).length := by
      simp only [List.length_append, List.length_cons]
      omega
    refine ⟨by rw [List.length_cons]; omega, ?_⟩
    rw [List.forall_mem_cons]
    constructor
    · obtain ⟨u, hu, hshort⟩ := ihs
      exact ⟨u, hu, hshort.trans hlonger.1⟩
    · intro m hm
      obtain ⟨u, hu, hshort⟩ := hvalues m hm
      exact ⟨u, hu, by omega⟩
  | @record s ms hs ih =>
    obtain ⟨hle, hvalues⟩ := ih
    have hlonger : (openBrace :: (s ++ [closeBrace])).length = s.length + 2 := by simp
    refine ⟨by omega, fun m hm => ?_⟩
    obtain ⟨u, hu, hshort⟩ := hvalues m hm
    exact ⟨u, hu, by omega⟩

theorem Grammar.Text.breadth_le {s : Bytes} {v : Value} (h : Text s v) : v.breadth ≤ s.length := h.within

/-- The values of the members of a text are written in texts no longer than it. -/
theorem Grammar.RecordText.member_text {s : Bytes} {ms : Members} (h : RecordText s ms)
    {m : String × Value} (hm : m ∈ ms) : ∃ u, Text u m.2 ∧ u.length ≤ s.length := by
  obtain ⟨w, t, w', rfl, -, ht, -⟩ := h
  obtain ⟨u, hu, hshort⟩ := ht.within.2 m hm
  refine ⟨u, hu, ?_⟩
  simp only [List.length_append]
  omega

end ShapeLedger.Json
