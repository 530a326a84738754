/-
Settings documents as they are built: values, and tables that remember how they came about, since
that decides what may still be added to them.
-/
import ShapeLedger.Binary64.Basic

namespace ShapeLedger.Toml

/-- How a table came about: under a header of its own, on the way to another header, by a dotted
key, or between braces. -/
inductive Origin where
  | header
  | passed
  | dotted
  | braces
deriving DecidableEq, Repr

/-- Whether the table was named only on the way to something else. -/
def Origin.isImplicit : Origin → Bool
  | passed | dotted => true
  | header | braces => false

/-- A value, a table, or an array of tables; a date or a time of day is a moment. -/
inductive Item where
  | text (s : String)
  | integer (n : Int)
  | real (x : Binary64)
  | boolean (b : Bool)
  | moment
  | array (elements : List Item)
  | table (origin : Origin) (members : List (String × Item))
  | tables (elements : List (List (String × Item)))
deriving Inhabited

abbrev Members := List (String × Item)

namespace Members

/-- Changes the item of a key that is present, in its place. -/
def set (key : String) (item : Item) (members : Members) : Members :=
  members.map (fun m => if m.1 = key then (key, item) else m)

def without (key : String) (members : Members) : Members := members.filter (fun m => m.1 ≠ key)

/-- Changes the table that a path leads to, from a table of origin `here`; what is missing on the
way becomes a table of origin `made`. A dotted key leads through implicit tables only; nothing leads
into a value. The last table of an array of tables stands for the array. -/
def within {α : Type} (made here : Origin) (members : Members) (path : List String)
    (change : Origin → Members → Option (Members × α)) : Option (Members × α) :=
  match path with
  | [] => change here members
  | key :: rest =>
    match members.lookup key with
    | none => do
      let (inner, a) ← within made made [] rest change
      return (members ++ [(key, .table made inner)], a)
    | some (.table origin inner) =>
      if origin = .braces && made ≠ .dotted || made = .dotted && !origin.isImplicit then none
      else do
        let (inner, a) ← within made origin inner rest change
        return (members.set key (.table origin inner), a)
    | some (.tables elements) =>
      match elements.reverse with
      | [] => none
      | last :: before => do
        let (last, a) ← within made .header last rest change
        return (members.set key (.tables (last :: before).reverse), a)
    | some _ => none

/-- Adds what a key, with the path before it, is set to. A key is set once, and the tables that
dotted keys make are open to dotted keys alone. -/
def assign (members : Members) (here : Origin) (path : List String) (key : String) (item : Item) :
    Option Members := do
  let (members, _) ← within .dotted here members path (fun origin inner =>
    if decide (origin = .dotted) = path.isEmpty then none
    else if (inner.lookup key).isSome then none
    else some (inner ++ [(key, item)], ()))
  return members

end Members

end ShapeLedger.Toml
