/-
Responses. Every one of them may be read by pages of any origin.
-/
import ShapeLedger.Json.Printer

namespace ShapeLedger.Web

open Json

structure Response where
  status : Nat
  /-- Whether the methods and headers that pages may use are listed. -/
  preflight : Bool
  /-- The methods that the path answers. -/
  allow : Option String
  length : Option Nat
  mediaType : Option String
  body : String
deriving DecidableEq, Repr

namespace Response

/-- The headers in the order of their names. -/
def headers (r : Response) : List (String × String) :=
  (if r.preflight then
    [("access-control-allow-headers", "*"), ("access-control-allow-methods", "*")] else []) ++
  [("access-control-allow-origin", "*")] ++
  (r.allow.map (("allow", ·))).toList ++
  (r.length.map (fun n => ("content-length", toString n))).toList ++
  (r.mediaType.map (("content-type", ·))).toList ++
  [("vary", "origin, access-control-request-method, access-control-request-headers")]

/-- A response without a body. -/
def bare (status : Nat) : Response := ⟨status, false, none, none, none, ""⟩

def text (status : Nat) (mediaType body : String) : Response :=
  ⟨status, false, none, some body.utf8ByteSize, some mediaType, body⟩

def json (status : Nat) (v : Value) : Response := text status "application/json" v.compact

/-- The outcome of a request in words, with a result if it has one. -/
def envelope (status message : String) (result : Option Value) : Value :=
  .object ([("status", .text status), ("message", .text message)] ++
    (result.map (("result", ·))).toList)

def success (message : String) (result : Value) : Response :=
  json 200 (envelope "success" message (some result))

def failure (status : Nat) (message : String) : Response :=
  json status (envelope "error" message none)

/-- The client sent what cannot be used. -/
def badRequest (message : String) : Response := failure 400 message

/-- Anything else that went wrong. -/
def internal (message : String) : Response := failure 500 message

/-- The ledger refused an operation. -/
def ledgerFailure (message : String) : Response := internal ("Database error: " ++ message)

/-- The analysis broke off, with the words that it gave for that, if it gave any. -/
def analysisFailure (words : Option String) : Response :=
  internal ("Error analyzing JSON: " ++ words.getD "unknown panic")

/-- The response to a request for the headers alone. -/
def withoutBody (r : Response) : Response := { r with body := "" }

end Response

end ShapeLedger.Web
