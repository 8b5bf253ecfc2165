import Symtab.Toml.Moment
import Symtab.Toml.Number

/-!
# Values and tables

A document is a table: keys with values, in the order in which they came to be. How a table came to
be decides what may be added to it later.
-/

namespace Symtab.Toml

/-- How a table came to be. -/
inductive Origin where
  | inlineBraces
  | header
  /-- Passed through by the header of a table inside it. -/
  | implied
  | dotted
  deriving DecidableEq, Repr

/-- A value of a document. -/
inductive Value where
  | string (content : String)
  | integer (number : Int)
  | float (number : Decimal)
  | boolean (truth : Bool)
  | moment (moment : Moment)
  | array (elements : List Value)
  | table (origin : Origin) (entries : List (String × Value))
  /-- An array of tables, each opened by a header of its own. -/
  | tables (elements : List (List (String × Value)))
  deriving Repr

/-- The keys of a table with their values. -/
abbrev Entries := List (String × Value)

/-- The place of a value: keys of the tables that lead to it, and its own key. -/
structure KeyPath where
  /-- The keys of the tables on the way, outermost first. -/
  parents : List String
  leaf : String
  deriving DecidableEq, Repr

/-- The path of a run of keys, of which there is at least one. -/
def KeyPath.ofKeys? (keys : List String) : Option KeyPath :=
  keys.getLast?.map fun leaf => ⟨keys.dropLast, leaf⟩

namespace Entries

/-- The value of a key, if there is one. -/
def get? (entries : Entries) (key : String) : Option Value := List.lookup key entries

/-- Gives a key a value, in its old place if it has one and else at the end. -/
def put (entries : Entries) (key : String) (value : Value) : Entries :=
  match entries with
  | [] => [(key, value)]
  | (other, old) :: rest =>
    if other = key then (key, value) :: rest else (other, old) :: put rest key value

/-- Whether a path may lead through a table that came to be by `origin`, when the tables that the
path adds come to be by `added`. -/
def passes (added : Origin) : Origin → Bool
  | .inlineBraces => false
  | .header => added != .dotted
  | .implied | .dotted => true

/-- Changes the table to which a path leads. Tables that are missing on the way come to be by
`added`; an array of tables stands for its last table. -/
def update (added : Origin) (change : Origin → Entries → Option Entries) (path : List String)
    (origin : Origin) (entries : Entries) : Option Entries :=
  match path with
  | [] => change origin entries
  | key :: path =>
    match entries.get? key with
    | none => do
      let inner ← update added change path added []
      some (entries.put key (.table added inner))
    | some (.table origin inner) =>
      if passes added origin then do
        let changed ← update added change path origin inner
        some (entries.put key (.table origin changed))
      else
        none
    | some (.tables elements) => do
      let last ← elements.getLast?
      let changed ← update added change path .header last
      some (entries.put key (.tables (elements.dropLast ++ [changed])))
    | some _ => none

/-- Adds the value of a possibly dotted key. A key is given once, and a dotted key ends in a table
that only dotted keys have made. -/
def assign (entries : Entries) (path : KeyPath) (value : Value) : Option Entries :=
  update .dotted (place path.parents.isEmpty) path.parents .header entries
where
  /-- Adds the value to the table it belongs to. -/
  place (direct : Bool) (origin : Origin) (inner : Entries) : Option Entries :=
    if (direct || origin = .dotted) && (inner.get? path.leaf).isNone then
      some (inner ++ [(path.leaf, value)])
    else
      none

/-- Adds the values of several keys in order. -/
def assignAll (entries : Entries) (assignments : List (KeyPath × Value)) : Option Entries :=
  assignments.foldlM (fun entries (path, value) => entries.assign path value) entries

/-- Fills the table of a header. The table is new or has so far only been implied. -/
def openTable (entries : Entries) (path : KeyPath) (assignments : List (KeyPath × Value)) :
    Option Entries :=
  update .implied fill path.parents .header entries
where
  /-- Fills the table inside the one it belongs to. -/
  fill (_ : Origin) (inner : Entries) : Option Entries :=
    match inner.get? path.leaf with
    | none => do
      let filled ← assignAll [] assignments
      some (inner.put path.leaf (.table .header filled))
    | some (.table .implied old) => do
      let filled ← assignAll old assignments
      some (inner.put path.leaf (.table .header filled))
    | some _ => none

/-- Adds a table to an array of tables, which is new or consists of such tables only. -/
def appendTable (entries : Entries) (path : KeyPath) (assignments : List (KeyPath × Value)) :
    Option Entries :=
  update .implied fill path.parents .header entries
where
  /-- Adds the table to the array inside the table it belongs to. -/
  fill (_ : Origin) (inner : Entries) : Option Entries := do
    let filled ← assignAll [] assignments
    match inner.get? path.leaf with
    | none => some (inner.put path.leaf (.tables [filled]))
    | some (.tables elements) => some (inner.put path.leaf (.tables (elements ++ [filled])))
    | some _ => none

end Entries

end Symtab.Toml
