/-
Documents as they are submitted: a text to decode, or a string that holds such a text.

The stack that decoding uses is left out here: `decode` answers as if there were always room to free what the
reader gives up on its way. Whether there is, which is not so for every text, is what `Json.frees` says; a
server that has no room breaks off (`Web.Server.respond`).
-/
import ShapeLedger.Analysis.Report
import ShapeLedger.Json.Reader

namespace ShapeLedger.Document

open Json

/-- The value of a document of any depth. -/
def decode (input : Bytes) : Except Error Value := parse none input

/-- A string gives the document that it holds, any other value itself. -/
def embedded : Value → Except Error Value
  | .text s => decode (Utf8.encode s)
  | v => .ok v

/-- Looks into strings `n` times over. -/
def embeddedTimes : Nat → Value → Except Error Value
  | 0, v => .ok v
  | n + 1, v =>
    match embedded v with
    | .error e => .error e
    | .ok w => embeddedTimes n w

end ShapeLedger.Document
