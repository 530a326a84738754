/-
The bodies of requests to the ledger: which records they hold, and why one is refused.
-/
import ShapeLedger.Json.Record
import ShapeLedger.Ledger.Database
import ShapeLedger.Web.Request

namespace ShapeLedger.Web

open Json Ledger

/-! ## Forms -/

def userForm : Form (Option String) NewUser where
  title := "struct CreateUserRequest"
  count := "1 element"
  fields := [.make "username" Option.isSome (fun _ s => some s) readText readText_length]
  blank := none
  complete
    | none => .error "username"
    | some username => .ok ⟨username⟩

/-- What is known of an expense while its record is read. -/
structure ExpenseDraft where
  amount : Option Binary64
  description : Option (Option String)
  userId : Option Int

/-- Only the description may be left out. -/
def expenseForm : Form ExpenseDraft NewExpense where
  title := "struct CreateExpenseRequest"
  count := "3 elements"
  fields := [
    .make "amount" (·.amount.isSome) (fun d x => { d with amount := some x })
      readReal readReal_length,
    .make "description" (·.description.isSome) (fun d s => { d with description := some s })
      readOptionalText readOptionalText_length,
    .make "user_id" (·.userId.isSome) (fun d n => { d with userId := some n })
      readInteger readInteger_length]
  blank := ⟨none, none, none⟩
  complete
    | ⟨none, _, _⟩ => .error "amount"
    | ⟨some _, _, none⟩ => .error "user_id"
    | ⟨some amount, description, some userId⟩ => .ok ⟨amount, description.join, userId⟩

/-! ## Refusals -/

inductive BodyError where
  | notJson
  | tooLong
  | record (e : RecordError)
deriving DecidableEq, Repr

/-- What is said of a body that is longer than the limit. -/
def tooLongText : String := "Failed to buffer the request body: length limit exceeded"

def BodyError.text : BodyError → String
  | notJson => "Expected request with `Content-Type: application/json`"
  | tooLong => tooLongText
  | record e =>
    (match e.complaint with
      | .malformed _ => "Failed to parse the request body as JSON: "
      | .mismatch _ => "Failed to deserialize the JSON body into the target type: ") ++ e.message

/-- Whether the body is longer than the limit. -/
def Request.exceeds (r : Request) (limit : Nat) : Bool := limit < r.body.length

/-- The record in a body: its type is looked at first, then its length, then its text. -/
def readBody {σ α : Type} (form : Form σ α) (limit : Nat) (r : Request) : Except BodyError α :=
  if !r.hasJson then .error .notJson
  else if r.exceeds limit then .error .tooLong
  else (form.parse r.body).mapError .record

end ShapeLedger.Web
