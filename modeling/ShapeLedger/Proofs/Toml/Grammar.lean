/-
The grammar of settings documents, as relations between texts and what they mean. Nothing here says how a text
is read. A document is a list of lines, each with a header, a pair, or nothing on it; a pair sets a key, which
may be dotted, to a value of any kind. Which lines may stand in one document is not a matter of its text.

A reader need not take every text of the grammar: `Bounds` says how deep brackets may stand inside one another,
how many parts a key may have, and whether a decimal may pass the finite data.
-/
import ShapeLedger.Toml.Document

namespace ShapeLedger.Toml.Grammar

/-! ## Blanks and comments -/

/-- Blanks within a line. -/
def Blanks (w : Chars) : Prop := ∀ c ∈ w, c = ' ' ∨ c = '\t'

/-- A character that may stand in a comment or a string: a tab, or any that is no control character. -/
def Plain (c : Char) : Prop := c = '\t' ∨ ' ' ≤ c ∧ c ≠ '\x7f'

/-- The end of a line. -/
inductive LineEnd : Chars → Prop where
  | feed : LineEnd ['\n']
  | both : LineEnd ['\r', '\n']

/-- A comment, from its sign on. -/
def Comment (w : Chars) : Prop := ∃ t, w = '#' :: t ∧ ∀ c ∈ t, Plain c

/-- What may follow the last token of a line. -/
inductive Remark : Chars → Prop where
  | blank {w : Chars} (hw : Blanks w) : Remark w
  | comment {w t : Chars} (hw : Blanks w) (ht : Comment t) : Remark (w ++ t)

/-- What may stand between the tokens of an array. -/
inductive Gap : Chars → Prop where
  | nil : Gap []
  | blank {c : Char} {w : Chars} (hc : c = ' ' ∨ c = '\t') (hw : Gap w) : Gap (c :: w)
  | line {e w : Chars} (he : LineEnd e) (hw : Gap w) : Gap (e ++ w)
  | comment {t e w : Chars} (ht : Comment t) (he : LineEnd e) (hw : Gap w) : Gap (t ++ (e ++ w))

/-! ## Digits -/

/-- Exactly `n` digits, and their number. -/
def Fixed (base n : Nat) (digits : Chars) (k : Nat) : Prop :=
  digits.length = n ∧ (∀ c ∈ digits, isDigitOf base c = true) ∧ number base digits = k

/-- Digits, and the same without the underscores that may stand between two of them. -/
inductive Run (base : Nat) : Chars → Chars → Prop where
  | last {c : Char} (h : isDigitOf base c = true) : Run base [c] [c]
  | next {c : Char} {t digits : Chars} (h : isDigitOf base c = true) (ht : Run base t digits) :
      Run base (c :: t) (c :: digits)
  | apart {c : Char} {t digits : Chars} (h : isDigitOf base c = true) (ht : Run base t digits) :
      Run base (c :: '_' :: t) (c :: digits)

/-! ## Strings -/

/-- The letters that may stand behind a backslash, with the characters that they stand for. -/
def letters : List (Char × Char) :=
  [('"', '"'), ('\\', '\\'), ('b', '\x08'), ('t', '\t'), ('n', '\n'), ('f', '\x0c'), ('r', '\r')]

/-- What may stand behind a backslash, and the character that it stands for. -/
inductive Escape : Chars → Char → Prop where
  | letter {b c : Char} (h : (b, c) ∈ letters) : Escape [b] c
  | short {digits : Chars} {c : Char} (h : Fixed 16 4 digits c.toNat) : Escape ('u' :: digits) c
  | long {digits : Chars} {c : Char} (h : Fixed 16 8 digits c.toNat) : Escape ('U' :: digits) c

/-- What may stand between two quotes on one line, and the characters that it denotes. -/
inductive Basic : Chars → Chars → Prop where
  | nil : Basic [] []
  | plain {c : Char} {t s : Chars} (hc : Plain c) (quote : c ≠ '"') (backslash : c ≠ '\\') (ht : Basic t s) :
      Basic (c :: t) (c :: s)
  | escape {e t s : Chars} {c : Char} (he : Escape e c) (ht : Basic t s) : Basic ('\\' :: (e ++ t)) (c :: s)

/-- What may stand between two apostrophes on one line. -/
def Literal (t : Chars) : Prop := ∀ c ∈ t, Plain c ∧ c ≠ '\x27'

/-- Blanks and line ends, up to neither. -/
inductive Joint : Chars → Prop where
  | nil : Joint []
  | blank {c : Char} {w : Chars} (hc : c = ' ' ∨ c = '\t') (hw : Joint w) : Joint (c :: w)
  | line {e w : Chars} (he : LineEnd e) (hw : Joint w) : Joint (e ++ w)

/-- What may stand between three quotes and three quotes, which begins with `n` quotes of its own, at most two
of them in a row. A line end counts as a line feed, and behind a backslash it counts for nothing, with the
blanks and line ends that follow. -/
inductive LongBasic : Nat → Chars → Chars → Prop where
  | nil : LongBasic 0 [] []
  | quote {n : Nat} {t s : Chars} (hn : n < 2) (ht : LongBasic n t s) : LongBasic (n + 1) ('"' :: t) ('"' :: s)
  | plain {n : Nat} {c : Char} {t s : Chars} (hc : Plain c) (quote : c ≠ '"') (backslash : c ≠ '\\')
      (ht : LongBasic n t s) : LongBasic 0 (c :: t) (c :: s)
  | line {n : Nat} {e t s : Chars} (he : LineEnd e) (ht : LongBasic n t s) : LongBasic 0 (e ++ t) ('\n' :: s)
  | escape {n : Nat} {e t s : Chars} {c : Char} (he : Escape e c) (ht : LongBasic n t s) :
      LongBasic 0 ('\\' :: (e ++ t)) (c :: s)
  | joined {n : Nat} {w e w' t s : Chars} (hw : Blanks w) (he : LineEnd e) (hw' : Joint w')
      (ht : LongBasic n t s) (stop : ∀ c ∈ t.head?, c ≠ ' ' ∧ c ≠ '\t' ∧ c ≠ '\n' ∧ c ≠ '\r') :
      LongBasic 0 ('\\' :: (w ++ (e ++ (w' ++ t)))) s

/-- What may stand between three apostrophes and three apostrophes. -/
inductive LongLiteral : Nat → Chars → Chars → Prop where
  | nil : LongLiteral 0 [] []
  | quote {n : Nat} {t s : Chars} (hn : n < 2) (ht : LongLiteral n t s) :
      LongLiteral (n + 1) ('\x27' :: t) ('\x27' :: s)
  | plain {n : Nat} {c : Char} {t s : Chars} (hc : Plain c) (quote : c ≠ '\x27') (ht : LongLiteral n t s) :
      LongLiteral 0 (c :: t) (c :: s)
  | line {n : Nat} {e t s : Chars} (he : LineEnd e) (ht : LongLiteral n t s) : LongLiteral 0 (e ++ t) ('\n' :: s)

/-- A line end may follow the three quotes that open a string, and does not belong to it. -/
def Opening (w t : Chars) : Prop := LineEnd w ∨ w = [] ∧ t.head? ≠ some '\n' ∧ t.head? ≠ some '\r'

/-- A string of any of the four kinds, and its characters. -/
inductive StringText : Chars → Chars → Prop where
  | basic {t s : Chars} (h : Basic t s) : StringText ('"' :: (t ++ ['"'])) s
  | literal {t : Chars} (h : Literal t) : StringText ('\x27' :: (t ++ ['\x27'])) t
  | longBasic {n : Nat} {w t s : Chars} (hw : Opening w t) (h : LongBasic n t s) :
      StringText ('"' :: '"' :: '"' :: (w ++ (t ++ ['"', '"', '"']))) s
  | longLiteral {n : Nat} {w t s : Chars} (hw : Opening w t) (h : LongLiteral n t s) :
      StringText ('\x27' :: '\x27' :: '\x27' :: (w ++ (t ++ ['\x27', '\x27', '\x27']))) s

/-! ## Keys -/

/-- A key, bare or quoted. -/
inductive KeyText : Chars → String → Prop where
  | bare {t : Chars} (some : t ≠ []) (h : ∀ c ∈ t, isKeyChar c = true) : KeyText t (String.ofList t)
  | basic {t s : Chars} (h : Basic t s) : KeyText ('"' :: (t ++ ['"'])) (String.ofList s)
  | literal {t : Chars} (h : Literal t) : KeyText ('\x27' :: (t ++ ['\x27'])) (String.ofList t)

/-- A key, or several with points between them, at most as many as given. -/
inductive PathText : Nat → Chars → List String → Prop where
  | last {n : Nat} {w k w' : Chars} {key : String} (hw : Blanks w) (hk : KeyText k key) (hw' : Blanks w') :
      PathText (n + 1) (w ++ (k ++ w')) [key]
  | dot {n : Nat} {w k w' t : Chars} {key : String} {keys : List String} (hw : Blanks w) (hk : KeyText k key)
      (hw' : Blanks w') (ht : PathText n t keys) : PathText (n + 1) (w ++ (k ++ (w' ++ '.' :: t))) (key :: keys)

/-! ## Numbers -/

/-- A number with a sign. -/
def signed (negative : Bool) (n : Nat) : Int := if negative then -(n : Int) else n

/-- A sign, which may be left out; it is that of a negative number or not. -/
inductive Sign : Chars → Bool → Prop where
  | none : Sign [] false
  | plus : Sign ['+'] false
  | minus : Sign ['-'] true

/-- The digits of a whole number: a leading zero stands alone. -/
inductive Whole : Chars → Chars → Prop where
  | zero : Whole ['0'] ['0']
  | digits {t digits : Chars} (h : Run 10 t digits) (first : t.head? ≠ some '0') : Whole t digits

/-- The other bases than ten, with the letters that name them. -/
def bases : List (Char × Nat) := [('x', 16), ('o', 8), ('b', 2)]

/-- An integer of any size. -/
inductive IntegerText : Chars → Int → Prop where
  | decimal {s t digits : Chars} {negative : Bool} (hs : Sign s negative) (ht : Whole t digits) :
      IntegerText (s ++ t) (signed negative (number 10 digits))
  | based {letter : Char} {base : Nat} {t digits : Chars} (h : (letter, base) ∈ bases) (ht : Run base t digits) :
      IntegerText ('0' :: letter :: t) (number base digits)

/-- The text of a fraction, which may be left out, and its digits. -/
inductive Fraction : Chars → Chars → Prop where
  | absent : Fraction [] []
  | present {t digits : Chars} (h : Run 10 t digits) : Fraction ('.' :: t) digits

/-- The text of an exponent, which may be left out, and its value. -/
inductive ExponentText : Chars → Option Int → Prop where
  | absent : ExponentText [] none
  | present {e : Char} {s t digits : Chars} {negative : Bool} (letter : e = 'e' ∨ e = 'E') (hs : Sign s negative)
      (ht : Run 10 t digits) : ExponentText (e :: (s ++ t)) (some (signed negative (number 10 digits)))

/-- A number with a fraction, an exponent or both, and the datum nearest to it. -/
inductive DecimalText : Chars → Binary64 → Prop where
  | mk {s t whole f fraction e : Chars} {negative : Bool} {exponent : Option Int} (hs : Sign s negative)
      (ht : Whole t whole) (hf : Fraction f fraction) (he : ExponentText e exponent)
      (some : fraction ≠ [] ∨ exponent ≠ none) :
      DecimalText (s ++ (t ++ (f ++ e)))
        (Binary64.ofDecimal negative (number 10 (whole ++ fraction)) (exponent.getD 0 - (fraction.length : Int)))

/-- Infinity and NaN. -/
inductive SpecialText : Chars → Binary64 → Prop where
  | infinity {s : Chars} {negative : Bool} (hs : Sign s negative) :
      SpecialText (s ++ ['i', 'n', 'f']) (.infinity negative)
  | nan {s : Chars} {negative : Bool} (hs : Sign s negative) : SpecialText (s ++ ['n', 'a', 'n']) .nan

/-! ## Dates and times -/

/-- A day of the calendar. -/
inductive DateText : Chars → Prop where
  | mk {y m d : Chars} {year month day : Nat} (hy : Fixed 10 4 y year) (hm : Fixed 10 2 m month)
      (hd : Fixed 10 2 d day) (firstMonth : 1 ≤ month) (lastMonth : month ≤ 12) (firstDay : 1 ≤ day)
      (lastDay : day ≤ daysIn year month) : DateText (y ++ '-' :: (m ++ '-' :: d))

/-- Parts of a second. -/
inductive PartText : Chars → Prop where
  | absent : PartText []
  | present {t : Chars} (some : t ≠ []) (h : ∀ c ∈ t, c.isDigit = true) : PartText ('.' :: t)

/-- A time of day, which may be a leap second. -/
inductive TimeText : Chars → Prop where
  | mk {h m s p : Chars} {hour minute second : Nat} (hh : Fixed 10 2 h hour) (hm : Fixed 10 2 m minute)
      (hs : Fixed 10 2 s second) (lastHour : hour ≤ 23) (lastMinute : minute ≤ 59) (lastSecond : second ≤ 60)
      (hp : PartText p) : TimeText (h ++ ':' :: (m ++ ':' :: (s ++ p)))

/-- The distance from universal time, which may be left out. -/
inductive OffsetText : Chars → Prop where
  | absent : OffsetText []
  | universal {c : Char} (hc : c = 'Z' ∨ c = 'z') : OffsetText [c]
  | distance {c : Char} {h m : Chars} {hour minute : Nat} (hc : c = '+' ∨ c = '-') (hh : Fixed 10 2 h hour)
      (hm : Fixed 10 2 m minute) (lastHour : hour ≤ 23) (lastMinute : minute ≤ 59) :
      OffsetText (c :: (h ++ ':' :: m))

/-- A date, a time, or both with an offset. -/
inductive MomentText : Chars → Prop where
  | date {d : Chars} (hd : DateText d) : MomentText d
  | time {t : Chars} (ht : TimeText t) : MomentText t
  | both {d t o : Chars} {c : Char} (hd : DateText d) (hc : c = 'T' ∨ c = 't' ∨ c = ' ') (ht : TimeText t)
      (ho : OffsetText o) : MomentText (d ++ c :: (t ++ o))

/-! ## Values -/

/-- What a pair sets: the way to a table, a key in it, and its item. -/
abbrev Pair := List String × String × Item

/-- The members of a table between braces. -/
def assignAll (members : Members) (pairs : List Pair) : Option Members :=
  pairs.foldlM (fun members (path, key, item) => members.assign .header path key item) members

/-- The bounds of a reader: on nesting, on the parts of a key, and on decimals. -/
structure Bounds where
  depth : Nat
  parts : Nat
  /-- Whether a decimal may pass the finite data. -/
  overflow : Bool

/-- What a piece of a text may denote. -/
inductive Meaning where
  | item (i : Item)
  /-- What stands between the brackets of an array. -/
  | elements (is : List Item)
  /-- What stands between the braces of a table. -/
  | pairs (ps : List Pair)

/-- A text with at most as many brackets open inside one another as given. -/
inductive Writes (bounds : Bounds) : Nat → Chars → Meaning → Prop where
  | text {d : Nat} {s t : Chars} (h : StringText s t) : Writes bounds d s (.item (.text (String.ofList t)))
  | integer {d : Nat} {s : Chars} {n : Int} (h : IntegerText s n) (low : -(twoPow 63 : Int) ≤ n)
      (high : n < twoPow 63) : Writes bounds d s (.item (.integer n))
  | decimal {d : Nat} {s : Chars} {x : Binary64} (h : DecimalText s x)
      (taken : bounds.overflow = true ∨ x ≠ .infinity false) : Writes bounds d s (.item (.real x))
  | special {d : Nat} {s : Chars} {x : Binary64} (h : SpecialText s x) : Writes bounds d s (.item (.real x))
  | true {d : Nat} : Writes bounds d ['t', 'r', 'u', 'e'] (.item (.boolean true))
  | false {d : Nat} : Writes bounds d ['f', 'a', 'l', 's', 'e'] (.item (.boolean false))
  | moment {d : Nat} {s : Chars} (h : MomentText s) : Writes bounds d s (.item .moment)
  | array {d : Nat} {s : Chars} {is : List Item} (h : Writes bounds d s (.elements is)) :
      Writes bounds (d + 1) ('[' :: (s ++ [']'])) (.item (.array is))
  | noElements {d : Nat} {w : Chars} (hw : Gap w) : Writes bounds d w (.elements [])
  | lastElement {d : Nat} {w s w' : Chars} {i : Item} (hw : Gap w) (hs : Writes bounds d s (.item i))
      (hw' : Gap w') : Writes bounds d (w ++ (s ++ w')) (.elements [i])
  | nextElement {d : Nat} {w s w' t : Chars} {i : Item} {is : List Item} (hw : Gap w)
      (hs : Writes bounds d s (.item i)) (hw' : Gap w') (ht : Writes bounds d t (.elements is)) :
      Writes bounds d (w ++ (s ++ (w' ++ ',' :: t))) (.elements (i :: is))
  | emptyTable {d : Nat} {w : Chars} (hw : Blanks w) :
      Writes bounds (d + 1) ('{' :: (w ++ ['}'])) (.item (.table .braces []))
  | table {d : Nat} {s : Chars} {ps : List Pair} {members : Members} (h : Writes bounds d s (.pairs ps))
      (hm : assignAll [] ps = some members) :
      Writes bounds (d + 1) ('{' :: (s ++ ['}'])) (.item (.table .braces members))
  | lastPair {d : Nat} {p w s w' : Chars} {path : List String} {key : String} {i : Item}
      (hp : PathText bounds.parts p (path ++ [key])) (hw : Blanks w) (hs : Writes bounds d s (.item i))
      (hw' : Blanks w') : Writes bounds d (p ++ '=' :: (w ++ (s ++ w'))) (.pairs [(path, key, i)])
  | nextPair {d : Nat} {p w s w' t : Chars} {path : List String} {key : String} {i : Item} {ps : List Pair}
      (hp : PathText bounds.parts p (path ++ [key])) (hw : Blanks w) (hs : Writes bounds d s (.item i))
      (hw' : Blanks w') (ht : Writes bounds d t (.pairs ps)) :
      Writes bounds d (p ++ '=' :: (w ++ (s ++ (w' ++ ',' :: t)))) (.pairs ((path, key, i) :: ps))

/-! ## Documents -/

/-- What a line of a document says. -/
inductive Line where
  | nothing
  | table (path : List String)
  /-- One more element of an array of tables. -/
  | element (path : List String)
  | pair (path : List String) (key : String) (item : Item)

/-- A line without its end. An integer may be of any size where a pair sets its key to it. -/
inductive LineText (bounds : Bounds) : Chars → Line → Prop where
  | nothing {r : Chars} (hr : Remark r) : LineText bounds r .nothing
  | table {w p r : Chars} {path : List String} (hw : Blanks w) (hp : PathText bounds.parts p path)
      (hr : Remark r) : LineText bounds (w ++ '[' :: (p ++ ']' :: r)) (.table path)
  | element {w p r : Chars} {path : List String} (hw : Blanks w) (hp : PathText bounds.parts p path)
      (hr : Remark r) : LineText bounds (w ++ '[' :: '[' :: (p ++ ']' :: ']' :: r)) (.element path)
  | pair {p w s r : Chars} {path : List String} {key : String} {i : Item}
      (hp : PathText bounds.parts p (path ++ [key])) (hw : Blanks w)
      (hs : Writes bounds bounds.depth s (.item i)) (hr : Remark r) :
      LineText bounds (p ++ '=' :: (w ++ (s ++ r))) (.pair path key i)
  | integer {p w s r : Chars} {path : List String} {key : String} {n : Int}
      (hp : PathText bounds.parts p (path ++ [key])) (hw : Blanks w) (hs : IntegerText s n) (hr : Remark r) :
      LineText bounds (p ++ '=' :: (w ++ (s ++ r))) (.pair path key (.integer n))

/-- The lines of a document, with line ends between them. -/
inductive LinesText (bounds : Bounds) : Chars → List Line → Prop where
  | last {s : Chars} {l : Line} (h : LineText bounds s l) : LinesText bounds s [l]
  | next {s e t : Chars} {l : Line} {ls : List Line} (h : LineText bounds s l) (he : LineEnd e)
      (ht : LinesText bounds t ls) : LinesText bounds (s ++ (e ++ t)) (l :: ls)

/-- A whole document; a byte order mark may stand in front of it. -/
def DocumentText (bounds : Bounds) (text : String) (ls : List Line) : Prop :=
  ∃ s, (text.toList = s ∨ text.toList = '\ufeff' :: s) ∧ LinesText bounds s ls

end ShapeLedger.Toml.Grammar
