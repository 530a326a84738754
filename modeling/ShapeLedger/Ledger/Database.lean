/-
The tables of the ledger and the statements on them. A statement that breaks a rule changes nothing,
the id counters included; of several broken rules the first in the order of `Rule` is reported.

Every text is taken to have at most 10^9 bytes, which is what the engine keeps in one value. A longer one never
gets as far as the rules: the engine refuses it with an error of its own.
-/
import ShapeLedger.Binary64.Basic
import ShapeLedger.Ledger.Error

namespace ShapeLedger.Ledger

/-! ## Rows -/

structure User where
  id : Int
  username : String
  createdAt : String
deriving DecidableEq, Repr

structure Expense where
  id : Int
  amount : Binary64
  description : Option String
  userId : Int
  createdAt : String
deriving DecidableEq, Repr

/-- Rows in the order of their creation, and the last id given out. -/
structure Table (α : Type) where
  rows : List α
  lastId : Nat
deriving DecidableEq, Repr

namespace Table

variable {α : Type}

def empty : Table α := ⟨[], 0⟩

/-- The id that the next row gets. -/
def nextId (t : Table α) : Int := t.lastId + 1

/-- Adds the row made for the next id. -/
def add (t : Table α) (row : Int → α) : Table α := ⟨t.rows ++ [row t.nextId], t.lastId + 1⟩

end Table

structure Tables where
  users : Table User
  expenses : Table Expense
deriving DecidableEq, Repr

def Tables.empty : Tables := ⟨.empty, .empty⟩

/-! ## What is stored -/

/-- The length that the rules on texts count: code points before the first NUL. -/
def storedLength (s : String) : Nat := (s.toList.takeWhile (· ≠ '\x00')).length

def usernameLimit : Nat := 80
def descriptionLimit : Nat := 200

/-- An amount as it is stored: zero has no sign. -/
def storedAmount (x : Binary64) : Binary64 := if x.isZero then .zero false else x

/-- A user as it is given, without an id. -/
structure NewUser where
  username : String
deriving DecidableEq, Repr

structure NewExpense where
  amount : Binary64
  description : Option String
  userId : Int
deriving DecidableEq, Repr

namespace Tables

/-- The first rule that a new user breaks. -/
def userFault? (t : Tables) (u : NewUser) : Option Rule :=
  if usernameLimit < storedLength u.username then some .usernameLength
  else if t.users.rows.any (fun r => r.username = u.username) then some .usernameUnique
  else none

/-- The first rule that a new expense breaks. -/
def expenseFault? (t : Tables) (x : NewExpense) : Option Rule :=
  if x.amount.isNaN then some .amountPresent
  else if x.description.any (fun s => descriptionLimit < storedLength s) then
    some .descriptionLength
  else if t.users.rows.all (fun r => r.id ≠ x.userId) then some .userExists
  else none

def addUser (t : Tables) (u : NewUser) (now : String) : Tables :=
  { t with users := t.users.add (fun id => ⟨id, u.username, now⟩) }

def addExpense (t : Tables) (x : NewExpense) (now : String) : Tables :=
  { t with
    expenses := t.expenses.add (fun id =>
      ⟨id, storedAmount x.amount, x.description, x.userId, now⟩) }

end Tables

/-! ## Databases -/

/-- A database: the version of its schema, and the tables once the schema has been made. -/
structure Database where
  version : Int
  tables : Option Tables
deriving DecidableEq, Repr

namespace Database

/-- A new database, without a schema. -/
def blank : Database := ⟨0, none⟩

/-- The only version of the schema. -/
def schemaVersion : Int := 1

/-- A new database with the schema. -/
def fresh : Database := ⟨schemaVersion, some .empty⟩

abbrev Outcome (α : Type) := Except Error (α × Database)

/-- The tables, for a statement on one of them. -/
def need (db : Database) (subject : Subject) : Except Error Tables :=
  match db.tables with
  | none => .error (.connection (.noTable subject))
  | some t => .ok t

def insertUser (db : Database) (u : NewUser) (now : String) : Outcome Int :=
  match db.need .user with
  | .error e => .error e
  | .ok t =>
    match t.userFault? u with
    | some rule => .error (.constraint rule)
    | none => .ok (t.users.nextId, { db with tables := some (t.addUser u now) })

def insertExpense (db : Database) (x : NewExpense) (now : String) : Outcome Int :=
  match db.need .expense with
  | .error e => .error e
  | .ok t =>
    match t.expenseFault? x with
    | some rule => .error (.constraint rule)
    | none => .ok (t.expenses.nextId, { db with tables := some (t.addExpense x now) })

def getUser (db : Database) (id : Int) : Except Error User :=
  match db.need .user with
  | .error e => .error e
  | .ok t =>
    match t.users.rows.find? (fun r => r.id = id) with
    | some row => .ok row
    | none => .error (.notFound .user id)

def getExpense (db : Database) (id : Int) : Except Error Expense :=
  match db.need .expense with
  | .error e => .error e
  | .ok t =>
    match t.expenses.rows.find? (fun r => r.id = id) with
    | some row => .ok row
    | none => .error (.notFound .expense id)

/-- Brings the schema up to date. -/
def migrate (db : Database) : Outcome Unit :=
  if db.version = schemaVersion then .ok ((), db)
  else if db.version = 0 then
    match db.tables with
    | none => .ok ((), fresh)
    | some _ => .error (.migration .schemaPresent)
  else .error (.migration .tooFarAhead)

end Database

end ShapeLedger.Ledger
