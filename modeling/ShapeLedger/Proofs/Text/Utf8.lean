/-
Writing and reading UTF-8: the bytes of a text are read back as that text, with nothing left over,
so two texts with the same bytes are the same. What is read is made of the bytes of characters and
of nothing else, so the well-formed byte strings are exactly those of texts.
-/
import ShapeLedger.Text.Utf8
import Mathlib.Logic.Function.Basic

namespace ShapeLedger.Utf8

/-! ## One character -/

theorem toNat_ofNat_byte {n : Nat} (h : n < 256) : (UInt8.ofNat n).toNat = n := by
  rw [UInt8.toNat_ofNat']; omega

/-- A code point is below the surrogates, or above them and within the range. -/
theorem toNat_valid (c : Char) : c.toNat < 0xD800 ∨ 0xDFFF < c.toNat ∧ c.toNat < 0x110000 := c.valid

theorem isTail_ofNat (n : Nat) : isTail (UInt8.ofNat (0x80 + n % 64)) = true := by
  have h : (UInt8.ofNat (0x80 + n % 64)).toNat = 0x80 + n % 64 := toNat_ofNat_byte (by omega)
  simp only [isTail, Bool.and_eq_true, decide_eq_true_eq, UInt8.le_iff_toNat_le, h]
  constructor
  · simp
  · simp; omega

theorem tailBits_ofNat (n : Nat) : tailBits (UInt8.ofNat (0x80 + n % 64)) = n % 64 := by
  have h : (UInt8.ofNat (0x80 + n % 64)).toNat = 0x80 + n % 64 := toNat_ofNat_byte (by omega)
  simp only [tailBits, h]; omega

theorem not_lt_of_toNat {a b : UInt8} (h : b.toNat ≤ a.toNat) : ¬ a < b := by
  rw [UInt8.lt_iff_toNat_lt]; omega

theorem lt_of_toNat {a b : UInt8} (h : a.toNat < b.toNat) : a < b := by
  rwa [UInt8.lt_iff_toNat_lt]

theorem decodeOnto_one {n : Nat} (h : n < 0x80) (done : List Char) (rest : List UInt8) :
    decodeOnto done (UInt8.ofNat n :: rest) = decodeOnto (Char.ofNat n :: done) rest := by
  have ha : (UInt8.ofNat n).toNat = n := toNat_ofNat_byte (by omega)
  rw [decodeOnto.eq_def]
  simp only [if_pos (lt_of_toNat (b := 0x80) (by rw [ha]; exact h)), ha]

theorem decodeOnto_two {n : Nat} (lo : 0x80 ≤ n) (hi : n < 0x800) (done : List Char) (rest : List UInt8) :
    decodeOnto done (UInt8.ofNat (0xC0 + n / 64) :: UInt8.ofNat (0x80 + n % 64) :: rest) =
      decodeOnto (Char.ofNat n :: done) rest := by
  have ha : (UInt8.ofNat (0xC0 + n / 64)).toNat = 0xC0 + n / 64 := toNat_ofNat_byte (by omega)
  have hn : (0xC0 + n / 64) % 32 * 64 + n % 64 = n := by omega
  rw [decodeOnto, if_neg (not_lt_of_toNat (by rw [ha]; simp; omega)),
    if_neg (not_lt_of_toNat (by rw [ha]; simp; omega)), if_pos (lt_of_toNat (by rw [ha]; simp; omega))]
  simp only [isTail_ofNat, tailBits_ofNat, ha, hn, if_true]

theorem isSecondOfThree_ofNat {n : Nat} (lo : 0x800 ≤ n) (hi : n < 0x10000) (hs : n < 0xD800 ∨ 0xDFFF < n) :
    isSecondOfThree (UInt8.ofNat (0xE0 + n / 4096)) (UInt8.ofNat (0x80 + n / 64 % 64)) = true := by
  have ha : (UInt8.ofNat (0xE0 + n / 4096)).toNat = 0xE0 + n / 4096 := toNat_ofNat_byte (by omega)
  have hb : (UInt8.ofNat (0x80 + n / 64 % 64)).toNat = 0x80 + n / 64 % 64 := toNat_ofNat_byte (by omega)
  unfold isSecondOfThree
  simp only [← UInt8.toNat_inj, UInt8.le_iff_toNat_le, ha, hb, isTail_ofNat]
  simp
  split <;> omega

theorem decodeOnto_three {n : Nat} (lo : 0x800 ≤ n) (hi : n < 0x10000) (hs : n < 0xD800 ∨ 0xDFFF < n)
    (done : List Char) (rest : List UInt8) :
    decodeOnto done (UInt8.ofNat (0xE0 + n / 4096) :: UInt8.ofNat (0x80 + n / 64 % 64) ::
      UInt8.ofNat (0x80 + n % 64) :: rest) = decodeOnto (Char.ofNat n :: done) rest := by
  have ha : (UInt8.ofNat (0xE0 + n / 4096)).toNat = 0xE0 + n / 4096 := toNat_ofNat_byte (by omega)
  have hn : (0xE0 + n / 4096) % 16 * 4096 + n / 64 % 64 * 64 + n % 64 = n := by omega
  rw [decodeOnto, if_neg (not_lt_of_toNat (by rw [ha]; simp; omega)),
    if_neg (not_lt_of_toNat (by rw [ha]; simp; omega)), if_neg (not_lt_of_toNat (by rw [ha]; simp)),
    if_pos (lt_of_toNat (by rw [ha]; simp; omega))]
  simp only [isSecondOfThree_ofNat lo hi hs, isTail_ofNat, tailBits_ofNat, ha, hn, Bool.and_self, if_true]

theorem isSecondOfFour_ofNat {n : Nat} (lo : 0x10000 ≤ n) (hi : n < 0x110000) :
    isSecondOfFour (UInt8.ofNat (0xF0 + n / 262144)) (UInt8.ofNat (0x80 + n / 4096 % 64)) = true := by
  have ha : (UInt8.ofNat (0xF0 + n / 262144)).toNat = 0xF0 + n / 262144 := toNat_ofNat_byte (by omega)
  have hb : (UInt8.ofNat (0x80 + n / 4096 % 64)).toNat = 0x80 + n / 4096 % 64 := toNat_ofNat_byte (by omega)
  unfold isSecondOfFour
  simp only [← UInt8.toNat_inj, UInt8.le_iff_toNat_le, ha, hb, isTail_ofNat]
  simp
  split <;> omega

theorem decodeOnto_four {n : Nat} (lo : 0x10000 ≤ n) (hi : n < 0x110000) (done : List Char)
    (rest : List UInt8) :
    decodeOnto done (UInt8.ofNat (0xF0 + n / 262144) :: UInt8.ofNat (0x80 + n / 4096 % 64) ::
      UInt8.ofNat (0x80 + n / 64 % 64) :: UInt8.ofNat (0x80 + n % 64) :: rest) =
      decodeOnto (Char.ofNat n :: done) rest := by
  have ha : (UInt8.ofNat (0xF0 + n / 262144)).toNat = 0xF0 + n / 262144 := toNat_ofNat_byte (by omega)
  have hn : (0xF0 + n / 262144) % 8 * 262144 + n / 4096 % 64 * 4096 + n / 64 % 64 * 64 + n % 64 = n := by
    omega
  rw [decodeOnto, if_neg (not_lt_of_toNat (by rw [ha]; simp; omega)),
    if_neg (not_lt_of_toNat (by rw [ha]; simp; omega)), if_neg (not_lt_of_toNat (by rw [ha]; simp; omega)),
    if_neg (not_lt_of_toNat (by rw [ha]; simp)), if_pos (lt_of_toNat (by rw [ha]; simp; omega))]
  simp only [isSecondOfFour_ofNat lo hi, isTail_ofNat, tailBits_ofNat, ha, hn, Bool.and_self, if_true]

/-- The bytes of a character are read as that character, whatever follows them. -/
theorem decodeOnto_encodeCodePoint (done : List Char) (c : Char) (rest : List UInt8) :
    decodeOnto done (encodeCodePoint c.toNat ++ rest) = decodeOnto (c :: done) rest := by
  have hv := toNat_valid c
  have hc : Char.ofNat c.toNat = c := Char.ofNat_toNat c
  unfold encodeCodePoint
  split
  · next h => rw [List.singleton_append, decodeOnto_one h, hc]
  · split
    · rw [List.cons_append, List.singleton_append, decodeOnto_two (by omega) (by omega), hc]
    · split
      · rw [List.cons_append, List.cons_append, List.singleton_append,
          decodeOnto_three (by omega) (by omega) (by omega), hc]
      · rw [List.cons_append, List.cons_append, List.cons_append, List.singleton_append,
          decodeOnto_four (by omega) (by omega), hc]

/-! ## Texts -/

theorem decodeOnto_encode (cs done : List Char) (rest : List UInt8) :
    decodeOnto done (cs.flatMap (fun c => encodeCodePoint c.toNat) ++ rest) =
      decodeOnto (cs.reverse ++ done) rest := by
  induction cs generalizing done with
  | nil => rfl
  | cons c cs ih =>
    rw [List.flatMap_cons, List.append_assoc, decodeOnto_encodeCodePoint, ih, List.reverse_cons,
      List.append_assoc, List.singleton_append]

/-- The bytes of a text are read back as its characters. -/
theorem decodePrefix_encode (s : String) : decodePrefix (encode s) = (s.toList, []) := by
  have h := decodeOnto_encode s.toList [] []
  rw [List.append_nil, List.append_nil] at h
  simp only [decodePrefix, encode, h, decodeOnto, List.reverse_reverse]

theorem decode?_encode (s : String) : decode? (encode s) = some s := by
  rw [decode?, decodePrefix_encode]
  simp

/-- Texts with the same bytes are the same. -/
theorem encode_injective : Function.Injective encode := by
  intro s t h
  have hs := decode?_encode s
  rw [h, decode?_encode] at hs
  exact (Option.some.inj hs).symm

/-! ## What is read -/

theorem ofNat_eq {n : Nat} {b : UInt8} (h : n = b.toNat) : UInt8.ofNat n = b := by
  rw [h, UInt8.ofNat_toNat]

theorem toNat_ofNat_char {n : Nat} (h : n < 0xD800 ∨ 0xDFFF < n ∧ n < 0x110000) :
    (Char.ofNat n).toNat = n := by
  have hv : n.isValidChar := h
  unfold Char.ofNat
  rw [dif_pos hv]
  rfl

theorem between_iff {lo b hi : UInt8} :
    (lo ≤ b && b ≤ hi) = true ↔ lo.toNat ≤ b.toNat ∧ b.toNat ≤ hi.toNat := by
  rw [Bool.and_eq_true, decide_eq_true_eq, decide_eq_true_eq, UInt8.le_iff_toNat_le, UInt8.le_iff_toNat_le]

theorem isTail_iff {b : UInt8} : isTail b = true ↔ 0x80 ≤ b.toNat ∧ b.toNat ≤ 0xBF := between_iff

theorem isSecondOfThree_iff {a b : UInt8} : isSecondOfThree a b = true ↔
    0x80 ≤ b.toNat ∧ b.toNat ≤ 0xBF ∧ (a.toNat = 0xE0 → 0xA0 ≤ b.toNat) ∧
      (a.toNat = 0xED → b.toNat ≤ 0x9F) := by
  have hlow : a = 0xE0 ↔ a.toNat = 0xE0 := UInt8.toNat_inj.symm
  have hhigh : a = 0xED ↔ a.toNat = 0xED := UInt8.toNat_inj.symm
  unfold isSecondOfThree
  simp only [hlow, hhigh]
  split
  · rw [between_iff]; simp only [UInt8.reduceToNat]; omega
  · split
    · rw [between_iff]; simp only [UInt8.reduceToNat]; omega
    · rw [isTail_iff]; omega

theorem isSecondOfFour_iff {a b : UInt8} : isSecondOfFour a b = true ↔
    0x80 ≤ b.toNat ∧ b.toNat ≤ 0xBF ∧ (a.toNat = 0xF0 → 0x90 ≤ b.toNat) ∧
      (a.toNat = 0xF4 → b.toNat ≤ 0x8F) := by
  have hlow : a = 0xF0 ↔ a.toNat = 0xF0 := UInt8.toNat_inj.symm
  have hhigh : a = 0xF4 ↔ a.toNat = 0xF4 := UInt8.toNat_inj.symm
  unfold isSecondOfFour
  simp only [hlow, hhigh]
  split
  · rw [between_iff]; simp only [UInt8.reduceToNat]; omega
  · split
    · rw [between_iff]; simp only [UInt8.reduceToNat]; omega
    · rw [isTail_iff]; omega

section
variable {a b c d : UInt8}

theorem encode_one (ha : a.toNat < 0x80) : encodeCodePoint (Char.ofNat a.toNat).toNat = [a] := by
  rw [toNat_ofNat_char (by omega), encodeCodePoint, if_pos ha, ofNat_eq rfl]

theorem encode_two (ha : 0xC2 ≤ a.toNat) (ha' : a.toNat < 0xE0) (hb : isTail b = true) :
    encodeCodePoint (Char.ofNat ((a.toNat % 32) * 64 + tailBits b)).toNat = [a, b] := by
  have hb := isTail_iff.1 hb
  unfold tailBits
  rw [toNat_ofNat_char (by omega), encodeCodePoint, if_neg (by omega), if_pos (by omega),
    ofNat_eq (b := a) (by omega), ofNat_eq (b := b) (by omega)]

theorem encode_three (ha : 0xE0 ≤ a.toNat) (ha' : a.toNat < 0xF0) (hb : isSecondOfThree a b = true)
    (hc : isTail c = true) :
    encodeCodePoint (Char.ofNat ((a.toNat % 16) * 4096 + tailBits b * 64 + tailBits c)).toNat =
      [a, b, c] := by
  have hb := isSecondOfThree_iff.1 hb
  have hc := isTail_iff.1 hc
  unfold tailBits
  rw [toNat_ofNat_char (by omega), encodeCodePoint, if_neg (by omega), if_neg (by omega),
    if_pos (by omega), ofNat_eq (b := a) (by omega), ofNat_eq (b := b) (by omega),
    ofNat_eq (b := c) (by omega)]

theorem encode_four (ha : 0xF0 ≤ a.toNat) (ha' : a.toNat < 0xF5) (hb : isSecondOfFour a b = true)
    (hc : isTail c = true) (hd : isTail d = true) :
    encodeCodePoint (Char.ofNat ((a.toNat % 8) * 262144 + tailBits b * 4096 + tailBits c * 64 +
      tailBits d)).toNat = [a, b, c, d] := by
  have hb := isSecondOfFour_iff.1 hb
  have hc := isTail_iff.1 hc
  have hd := isTail_iff.1 hd
  unfold tailBits
  rw [toNat_ofNat_char (by omega), encodeCodePoint, if_neg (by omega), if_neg (by omega),
    if_neg (by omega), ofNat_eq (b := a) (by omega), ofNat_eq (b := b) (by omega),
    ofNat_eq (b := c) (by omega), ofNat_eq (b := d) (by omega)]

end

/-- `cs` are the characters `done` and those whose bytes stand in front of `rest`. -/
def Decoded (done cs : List Char) (bytes rest : List UInt8) : Prop :=
  ∃ new : List Char, cs = new.reverse ++ done ∧
    bytes = new.flatMap (fun c => encodeCodePoint c.toNat) ++ rest

theorem Decoded.stop {done cs : List Char} {bytes rest : List UInt8} (h : (done, bytes) = (cs, rest)) :
    Decoded done cs bytes rest := by
  cases h
  exact ⟨[], rfl, rfl⟩

theorem Decoded.step {done cs : List Char} {c : Char} {seq bytes rest : List UInt8}
    (hc : encodeCodePoint c.toNat = seq) (h : Decoded (c :: done) cs bytes rest) :
    Decoded done cs (seq ++ bytes) rest := by
  obtain ⟨new, rfl, rfl⟩ := h
  refine ⟨c :: new, ?_, ?_⟩
  · rw [List.reverse_cons, List.append_assoc]; rfl
  · rw [List.flatMap_cons, hc, List.append_assoc]

/-- Nothing is decoded but the bytes of the characters that come out. -/
theorem decodeOnto_decoded {done cs : List Char} {bytes rest : List UInt8}
    (h : decodeOnto done bytes = (cs, rest)) : Decoded done cs bytes rest := by
  have below {a : UInt8} {n : UInt8} (h : ¬ a < n) : n.toNat ≤ a.toNat := by
    rw [UInt8.lt_iff_toNat_lt] at h; omega
  fun_induction decodeOnto done bytes with
  | case1 done => exact .stop h
  | case2 done a r ha ih =>
    exact .step (encode_one ha) (ih h)
  | case3 done a r _ _ => exact .stop h
  | case4 done a _ h2 h3 b r hb ih => 
    exact .step (encode_two (below h2) h3 hb) (ih h)
  | case5 => exact .stop h
  | case6 => exact .stop h
  | case7 done a _ _ h3 h4 b c r hbc ih => 
    simp only [Bool.and_eq_true] at hbc
    exact .step (encode_three (below h3) h4 hbc.1 hbc.2) (ih h)
  | case8 => exact .stop h
  | case9 => exact .stop h
  | case10 done a _ _ _ h4 h5 b c d r hbcd ih => 
    simp only [Bool.and_eq_true] at hbcd
    exact .step (encode_four (below h4) h5 hbcd.1.1 hbcd.1.2 hbcd.2) (ih h)
  | case11 => exact .stop h
  | case12 => exact .stop h
  | case13 => exact .stop h

/-- Bytes that are decoded throughout are the bytes of the characters that come out. -/
theorem decodePrefix_eq_nil {bytes : List UInt8} {cs : List Char} :
    decodePrefix bytes = (cs, []) ↔ bytes = cs.flatMap (fun c => encodeCodePoint c.toNat) := by
  constructor
  · intro h
    cases hd : decodeOnto [] bytes with
    | mk done rest =>
      obtain ⟨new, rfl, rfl⟩ := decodeOnto_decoded hd
      simp only [decodePrefix, hd, Prod.mk.injEq] at h
      obtain ⟨rfl, rfl⟩ := h
      simp
  · rintro rfl
    have h := decodePrefix_encode (String.ofList cs)
    simpa [encode] using h

/-- What is left undecoded begins with no character. -/
theorem decodePrefix_stuck {bytes rest : List UInt8} {cs : List Char} (h : decodePrefix bytes = (cs, rest)) :
    bytes = cs.flatMap (fun c => encodeCodePoint c.toNat) ++ rest ∧
      ∀ c t, rest ≠ encodeCodePoint (Char.toNat c) ++ t := by
  cases hd : decodeOnto [] bytes with
  | mk done left =>
    simp only [decodePrefix, hd, Prod.mk.injEq] at h
    obtain ⟨rfl, rfl⟩ := h
    obtain ⟨new, hnew, hbytes⟩ := decodeOnto_decoded hd
    rw [List.append_nil] at hnew
    subst hnew
    rw [List.reverse_reverse]
    refine ⟨hbytes, ?_⟩
    rintro c t rfl
    -- one more character would have been decoded
    rw [hbytes, decodeOnto_encode, decodeOnto_encodeCodePoint] at hd
    obtain ⟨more, hmore, -⟩ := decodeOnto_decoded hd
    have hlength := congrArg List.length hmore
    simp only [List.length_append, List.length_cons, List.length_reverse] at hlength
    omega

/-- The bytes of a character are not the beginning of those of another. -/
theorem encodeCodePoint_append_inj {c d : Char} {s t : List UInt8}
    (h : encodeCodePoint c.toNat ++ s = encodeCodePoint d.toNat ++ t) : c = d ∧ s = t := by
  have hd := decodeOnto_encodeCodePoint [] d t
  rw [← h, decodeOnto_encodeCodePoint] at hd
  obtain ⟨new, hc, hs⟩ := decodeOnto_decoded (show decodeOnto [c] s = (_, _) from rfl)
  obtain ⟨new', hc', ht⟩ := decodeOnto_decoded (show decodeOnto [d] t = (_, _) from rfl)
  -- both decode to the same characters, of which the last is the one in front
  rw [hd, hc'] at hc
  obtain ⟨hnew, hcd⟩ := List.append_inj' hc rfl
  rw [hd, ← List.reverse_inj.1 hnew, ← ht] at hs
  exact ⟨(List.singleton_inj.1 hcd).symm, hs⟩

theorem encodeCodePoint_ascii {n : Nat} (h : n < 0x80) : encodeCodePoint n = [UInt8.ofNat n] := if_pos h

/-- A character outside ASCII has a first byte that is no continuation, and continuations. -/
theorem encodeCodePoint_wide {c : Char} (h : 0x80 ≤ c.toNat) :
    ∃ a tails, encodeCodePoint c.toNat = a :: tails ∧ 0xC0 ≤ a.toNat ∧ ∀ b ∈ tails, isTail b = true := by
  have hv := toNat_valid c
  have tails (l : List Nat) : ∀ b ∈ l.map (fun n => UInt8.ofNat (0x80 + n % 64)), isTail b = true := by
    intro b hb
    obtain ⟨n, -, rfl⟩ := List.mem_map.1 hb
    exact isTail_ofNat n
  have lead {n : Nat} (h : 0xC0 ≤ n) (h' : n < 0x100) : 0xC0 ≤ (UInt8.ofNat n).toNat := by
    rwa [toNat_ofNat_byte h']
  unfold encodeCodePoint
  rw [if_neg (by omega)]
  split
  · exact ⟨_, _, rfl, lead (by omega) (by omega), tails [_]⟩
  · split
    · exact ⟨_, _, rfl, lead (by omega) (by omega), tails [_, _]⟩
    · exact ⟨_, _, rfl, lead (by omega) (by omega), tails [_, _, _]⟩

/-- The first byte of a character is no continuation, and the others are. -/
theorem encodeCodePoint_eq_cons (c : Char) :
    ∃ a tails, encodeCodePoint c.toNat = a :: tails ∧ isTail a = false ∧ ∀ b ∈ tails, isTail b = true := by
  by_cases h : c.toNat < 0x80
  · refine ⟨_, [], encodeCodePoint_ascii h, ?_, by simp⟩
    rw [Bool.eq_false_iff, Ne, isTail_iff, toNat_ofNat_byte (by omega)]
    omega
  · obtain ⟨a, tails, hc, ha, ht⟩ := encodeCodePoint_wide (c := c) (by omega)
    refine ⟨a, tails, hc, ?_, ht⟩
    rw [Bool.eq_false_iff, Ne, isTail_iff]
    omega

end ShapeLedger.Utf8
