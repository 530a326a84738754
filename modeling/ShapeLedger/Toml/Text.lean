/-
Blanks, comments, keys and strings of settings documents. Each reader gives what is left of the
text, or nothing when the text is malformed.
-/

namespace ShapeLedger.Toml

abbrev Chars := List Char

/-! ## Blanks and line ends -/

def isBlank (c : Char) : Bool := c = ' ' || c = '\t'

def skipBlanks (s : Chars) : Chars := s.dropWhile isBlank

/-- A tab, or a character that can be seen or lies beyond ASCII. -/
def isPlain (c : Char) : Bool := c = '\t' || (' ' ≤ c && c ≠ '\x7f')

/-- What follows a line end that comes next. -/
def newline? : Chars → Option Chars
  | '\n' :: r => some r
  | '\r' :: '\n' :: r => some r
  | _ => none

def skipComment : Chars → Chars
  | '#' :: r => r.dropWhile isPlain
  | s => s

/-- The end of a line that has nothing left but blanks and a comment. -/
def endLine? (s : Chars) : Option Chars :=
  match skipComment (skipBlanks s) with
  | [] => some []
  | c :: r => newline? (c :: r)

/-- Passes over blanks, line ends and comments; `inComment` says that a comment has begun. -/
def skipGap (inComment : Bool) : Chars → Chars
  | [] => []
  | c :: r =>
    if inComment && isPlain c then skipGap true r
    else if isBlank c || c = '\n' then skipGap false r
    else if c = '\r' && r.head? = some '\n' then skipGap false r
    else if c = '#' then skipGap true r
    else c :: r

/-! ## Strings on one line -/

def hexDigit? (c : Char) : Option Nat :=
  if '0' ≤ c && c ≤ '9' then some (c.toNat - 0x30)
  else if 'a' ≤ c && c ≤ 'f' then some (c.toNat - 0x57)
  else if 'A' ≤ c && c ≤ 'F' then some (c.toNat - 0x37)
  else none

/-- The character that hexadecimal digits give, if they all are digits and it is one. -/
def scalar? (digits : Chars) : Option Char := do
  let n ← digits.foldlM (fun n c => (hexDigit? c).map (n * 16 + ·)) 0
  if n < 0xD800 || (0xDFFF < n && n < 0x110000) then some (Char.ofNat n) else none

/-- The character that a letter stands for behind a backslash. -/
def letter? (c : Char) : Option Char :=
  if c = '"' || c = '\\' then some c
  else if c = 'b' then some '\x08'
  else if c = 't' then some '\t'
  else if c = 'n' then some '\n'
  else if c = 'f' then some '\x0c'
  else if c = 'r' then some '\r'
  else none

/-- The character that the next `n` characters give by its number. -/
def numbered? (n : Nat) (s : Chars) : Option (Char × Chars) :=
  if s.length < n then none
  else
    match scalar? (s.take n) with
    | none => none
    | some c => some (c, s.drop n)

/-- An escape, from behind its backslash. -/
def escape? : Chars → Option (Char × Chars)
  | [] => none
  | c :: r =>
    if c = 'u' then numbered? 4 r
    else if c = 'U' then numbered? 8 r
    else
      match letter? c with
      | none => none
      | some e => some (e, r)

theorem numbered?_length {n : Nat} {s r : Chars} {c : Char} (h : numbered? n s = some (c, r)) :
    r.length ≤ s.length := by
  unfold numbered? at h
  split at h
  · cases h
  · split at h <;> cases h
    rw [List.length_drop]; omega

theorem escape?_length {s r : Chars} {c : Char} (h : escape? s = some (c, r)) :
    r.length < s.length := by
  unfold escape? at h
  split at h
  · cases h
  · rw [List.length_cons]
    split at h
    · have := numbered?_length h; omega
    · split at h
      · have := numbered?_length h; omega
      · split at h <;> cases h
        omega

/-- A string with escapes, from behind its opening quote; its characters go in front of `done`,
newest first. -/
def basicString? (done s : Chars) : Option (Chars × Chars) :=
  match s with
  | [] => none
  | c :: r =>
    if c = '"' then some (done.reverse, r)
    else if c = '\\' then
      match _escape : escape? r with
      | none => none
      | some (e, t) => basicString? (e :: done) t
    else if isPlain c then basicString? (c :: done) r
    else none
termination_by s.length
decreasing_by
  · have := escape?_length _escape
    rw [List.length_cons]; omega
  · simp

/-- A string taken as it stands, from behind its opening apostrophe. -/
def literalString? (s : Chars) : Option (Chars × Chars) :=
  match s.dropWhile (fun c => isPlain c && c ≠ '\x27') with
  | '\x27' :: r => some (s.takeWhile (fun c => isPlain c && c ≠ '\x27'), r)
  | _ => none

/-! ## Strings over several lines -/

/-- The quotes that come next, up to five of them: the last three close the string, those before
belong to it. -/
def closing? (quote : Char) (s : Chars) : Option (Chars × Chars) :=
  let n := min (s.takeWhile (· = quote)).length 5
  if n < 3 then none else some (List.replicate (n - 3) quote, s.drop n)

/-- What follows a backslash that ends its line: the next character that is no blank and no line
end. -/
def joined? (s : Chars) : Option Chars :=
  match newline? (skipBlanks s) with
  | none => none
  | some r => some (skipLines r)
where
  skipLines : Chars → Chars
    | [] => []
    | c :: r =>
      if isBlank c || c = '\n' then skipLines r
      else if c = '\r' && r.head? = some '\n' then skipLines r
      else c :: r

theorem skipLines_length_le (s : Chars) : (joined?.skipLines s).length ≤ s.length := by
  fun_induction joined?.skipLines s with
  | case1 => simp
  | case2 _ _ _ ih => rw [List.length_cons]; omega
  | case3 _ _ _ _ ih => rw [List.length_cons]; omega
  | case4 => simp

theorem newline?_length {s r : Chars} (h : newline? s = some r) : r.length < s.length := by
  unfold newline? at h
  split at h <;> cases h <;> simp only [List.length_cons] <;> omega

theorem joined?_length {s r : Chars} (h : joined? s = some r) : r.length < s.length := by
  unfold joined? at h
  split at h
  · cases h
  · next t ht =>
    cases h
    have := newline?_length ht
    have := skipLines_length_le t
    have : (skipBlanks s).length ≤ s.length := (List.dropWhile_suffix isBlank).length_le
    omega

/-- A string with escapes over several lines, from behind its three quotes. A line end counts as
one character however it is written, and as none behind a backslash. -/
def longBasicString? (done s : Chars) : Option (Chars × Chars) :=
  match s with
  | [] => none
  | c :: r =>
    if c = '"' then
      match closing? '"' (c :: r) with
      | some (quotes, t) => some (done.reverse ++ quotes, t)
      | none => longBasicString? (c :: done) r
    else if c = '\\' then
      match _joined : joined? r with
      | some t => longBasicString? done t
      | none =>
        match _escape : escape? r with
        | none => none
        | some (e, t) => longBasicString? (e :: done) t
    else if isPlain c then longBasicString? (c :: done) r
    else
      match _newline : newline? (c :: r) with
      | none => none
      | some t => longBasicString? ('\n' :: done) t
termination_by s.length
decreasing_by
  · simp
  · have := joined?_length _joined
    rw [List.length_cons]; omega
  · have := escape?_length _escape
    rw [List.length_cons]; omega
  · simp
  · exact newline?_length _newline

/-- A string taken as it stands over several lines, from behind its three apostrophes. -/
def longLiteralString? (done s : Chars) : Option (Chars × Chars) :=
  match s with
  | [] => none
  | c :: r =>
    if c = '\x27' then
      match closing? '\x27' (c :: r) with
      | some (quotes, t) => some (done.reverse ++ quotes, t)
      | none => longLiteralString? (c :: done) r
    else if isPlain c then longLiteralString? (c :: done) r
    else
      match _newline : newline? (c :: r) with
      | none => none
      | some t => longLiteralString? ('\n' :: done) t
termination_by s.length
decreasing_by
  · simp
  · simp
  · exact newline?_length _newline

/-- A string over several lines starts behind the line end that follows its opening. -/
def dropNewline (s : Chars) : Chars := (newline? s).getD s

/-- A string of any of the four kinds, from its first quote on. -/
def string? : Chars → Option (Chars × Chars)
  | '"' :: '"' :: '"' :: r => longBasicString? [] (dropNewline r)
  | '"' :: r => basicString? [] r
  | '\x27' :: '\x27' :: '\x27' :: r => longLiteralString? [] (dropNewline r)
  | '\x27' :: r => literalString? r
  | _ => none

/-! ## Keys -/

/-- A character of a key without quotes. -/
def isKeyChar (c : Char) : Bool := c.isAlphanum || c = '-' || c = '_'

def key? : Chars → Option (Chars × Chars)
  | '"' :: r => basicString? [] r
  | '\x27' :: r => literalString? r
  | s =>
    let bare := s.takeWhile isKeyChar
    if bare.isEmpty then none else some (bare, s.dropWhile isKeyChar)

/-- The number of keys that a dotted key may have. -/
def pathLimit : Nat := 79

/-- A key, or several with points between them, and the blanks around each; at most as many as
given. -/
def keyPath? : Nat → Chars → Option (List String × Chars)
  | 0, _ => none
  | more + 1, s => do
    let (key, r) ← key? (skipBlanks s)
    match skipBlanks r with
    | '.' :: t =>
      let (keys, u) ← keyPath? more t
      return (String.ofList key :: keys, u)
    | t => return ([String.ofList key], t)

end ShapeLedger.Toml
