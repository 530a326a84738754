/-
UTF-8: the longest well-formed prefix of a byte string, its characters, and the bytes of a code
point. A sequence is well formed by the table of RFC 3629: shortest forms only, no surrogates,
nothing above U+10FFFF.
-/

namespace ShapeLedger.Utf8

/-- A continuation byte. -/
def isTail (b : UInt8) : Bool := 0x80 ≤ b && b ≤ 0xBF

/-- The second byte of a three-byte sequence, given the first. -/
def isSecondOfThree (a b : UInt8) : Bool :=
  if a = 0xE0 then 0xA0 ≤ b && b ≤ 0xBF
  else if a = 0xED then 0x80 ≤ b && b ≤ 0x9F
  else isTail b

/-- The second byte of a four-byte sequence, given the first. -/
def isSecondOfFour (a b : UInt8) : Bool :=
  if a = 0xF0 then 0x90 ≤ b && b ≤ 0xBF
  else if a = 0xF4 then 0x80 ≤ b && b ≤ 0x8F
  else isTail b

/-- The six low bits of a continuation byte. -/
def tailBits (b : UInt8) : Nat := b.toNat % 64

/-- The characters of the longest well-formed prefix, put in front of `done` newest first, and the
bytes after that prefix. -/
def decodeOnto (done : List Char) : List UInt8 → List Char × List UInt8
  | [] => (done, [])
  | a :: r =>
    if a < 0x80 then decodeOnto (Char.ofNat a.toNat :: done) r
    else if a < 0xC2 then (done, a :: r)
    else if a < 0xE0 then
      match r with
      | b :: r' =>
        if isTail b then decodeOnto (Char.ofNat ((a.toNat % 32) * 64 + tailBits b) :: done) r'
        else (done, a :: r)
      | [] => (done, a :: r)
    else if a < 0xF0 then
      match r with
      | b :: c :: r' =>
        if isSecondOfThree a b && isTail c then
          decodeOnto (Char.ofNat ((a.toNat % 16) * 4096 + tailBits b * 64 + tailBits c) :: done) r'
        else (done, a :: r)
      | _ => (done, a :: r)
    else if a < 0xF5 then
      match r with
      | b :: c :: d :: r' =>
        if isSecondOfFour a b && isTail c && isTail d then
          decodeOnto (Char.ofNat ((a.toNat % 8) * 262144 + tailBits b * 4096 + tailBits c * 64 +
            tailBits d) :: done) r'
        else (done, a :: r)
      | _ => (done, a :: r)
    else (done, a :: r)

/-- The characters of the longest well-formed prefix, and the bytes after it. -/
def decodePrefix (bytes : List UInt8) : List Char × List UInt8 :=
  let (done, rest) := decodeOnto [] bytes
  (done.reverse, rest)

/-- The text of a byte string that is well formed throughout. -/
def decode? (bytes : List UInt8) : Option String :=
  match decodePrefix bytes with
  | (cs, []) => some (String.ofList cs)
  | (_, _ :: _) => none

/-- The bytes of a code point. -/
def encodeCodePoint (n : Nat) : List UInt8 :=
  if n < 0x80 then [UInt8.ofNat n]
  else if n < 0x800 then [UInt8.ofNat (0xC0 + n / 64), UInt8.ofNat (0x80 + n % 64)]
  else if n < 0x10000 then
    [UInt8.ofNat (0xE0 + n / 4096), UInt8.ofNat (0x80 + n / 64 % 64), UInt8.ofNat (0x80 + n % 64)]
  else
    [UInt8.ofNat (0xF0 + n / 262144), UInt8.ofNat (0x80 + n / 4096 % 64),
      UInt8.ofNat (0x80 + n / 64 % 64), UInt8.ofNat (0x80 + n % 64)]

/-- The bytes of a text. -/
def encode (s : String) : List UInt8 := s.toList.flatMap (fun c => encodeCodePoint c.toNat)

end ShapeLedger.Utf8
