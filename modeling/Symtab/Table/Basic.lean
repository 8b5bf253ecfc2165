import Std.Data.TreeMap
import Symtab.Event
import Symtab.Key
import Symtab.Settings.Basic

/-!
# The symbol table

A symbol table holds the labels and equations of one assembly run, each kind in the order of its
declaration, and an index from keys to symbols. A key belongs to at most one symbol, and the first
declaration of a key decides of which kind it is.
-/

namespace Symtab

/-- The symbol that a key belongs to. -/
inductive Entry where
  | label (id : LabelId)
  | equation (id : EquationId)
  deriving DecidableEq, Repr

/-- The kind of symbol that a key belongs to. -/
def Entry.kind : Entry → SymbolKind
  | label _ => .label
  | equation _ => .equation

/-- The labels and equations of one assembly run. -/
structure Table where
  settings : Settings := {}
  index : Std.TreeMap Key Entry := ∅
  /-- The labels in the order of their declaration. -/
  labels : Arena LabelId Label := ∅
  /-- The equations in the order of their declaration. -/
  equations : Arena EquationId Equation := ∅
  /-- The number of the next generated name to try. -/
  counter : UInt64 := 0

/-- What an operation on a table gives: its answer, the table after it, and what it reported. -/
structure Outcome (α : Type) where
  answer : α
  table : Table
  events : List Event := []

namespace Table

/-- The table without symbols, refused when the settings are not allowed. -/
def ofSettings (settings : Settings) : Except SymbolError Table := do
  let settings ← settings.checked
  return { settings }

/-- Drops all symbols and starts the generated names anew. The settings stay. -/
def clear (table : Table) : Outcome Unit where
  answer := ()
  table := { table with index := ∅, labels := ∅, equations := ∅, counter := 0 }
  events := [.clearing table.labels.size table.equations.size]

/-- The number of symbols. -/
def size (table : Table) : Nat := table.index.size

/-- Whether there are no symbols. -/
def isEmpty (table : Table) : Bool := table.index.isEmpty

/-- The symbol that a name in a context belongs to, if it is declared. -/
def entry? (table : Table) (name : String) (context : Context) : Option Entry :=
  match Key.resolve name context with
  | .ok key => table.index[key]?
  | .error _ => none

/-- Whether a name in a context is declared, as a symbol of either kind. -/
def declares (table : Table) (name : String) (context : Context) : Bool :=
  (table.entry? name context).isSome

/-- The label of a name in a context, made on first use. -/
def labelFor (table : Table) (name : String) (context : Context) :
    Outcome (Except SymbolError LabelId) :=
  match Key.resolve name context with
  | .error refusal => { answer := .error refusal, table, events := [.rejectedName name] }
  | .ok key =>
    match table.index[key]? with
    | some (.label id) => { answer := .ok id, table }
    | some (.equation _) =>
      { answer := .error (.kindConflict name .equation)
        table
        events := [.kindMismatch name .equation] }
    | none =>
      match table.labels.push { name } with
      | .error fault => { answer := .error (.handlesExhausted fault), table }
      | .ok (labels, id) =>
        { answer := .ok id
          table := { table with labels, index := table.index.insert key (.label id) }
          events := [.createdLabel name context id] }

/-- The label of a name in a context, if there is one. -/
def findLabel? (table : Table) (name : String) (context : Context) : Option LabelId :=
  match table.entry? name context with
  | some (.label id) => some id
  | some (.equation _) | none => none

/-- Declares an equation for lines that the context covers; refused when the key is taken. -/
def declareEquation (table : Table) (name : String) (context : Context) (replacement : String) :
    Outcome (Except SymbolError EquationId) :=
  match Key.resolve name context with
  | .error refusal => { answer := .error refusal, table, events := [.rejectedName name] }
  | .ok key =>
    match table.index[key]? with
    | some existing =>
      { answer := .error (.duplicateDeclaration name existing.kind)
        table
        events := [.redeclared name existing.kind] }
    | none =>
      match table.equations.push { name, replacement, declared := context } with
      | .error fault => { answer := .error (.handlesExhausted fault), table }
      | .ok (equations, id) =>
        { answer := .ok id
          table := { table with equations, index := table.index.insert key (.equation id) }
          events := [.declaredEquation name context id] }

/-- The label of a handle, if the handle is in use. -/
def label? (table : Table) (id : LabelId) : Option Label := table.labels.get? id

/-- The equation of a handle, if the handle is in use. -/
def equation? (table : Table) (id : EquationId) : Option Equation := table.equations.get? id

/-- What becomes of a value written to a label. -/
inductive LabelWrite where
  | absent
  | written (label : Label)
  /-- The write is refused, and the label stays as it is. -/
  | refused (refusal : SymbolError) (label : Label)
  deriving DecidableEq

/-- Gives the label of a handle its value, refused when it has one. -/
def defineLabel (table : Table) (id : LabelId) (value : Int64) : Outcome LabelWrite :=
  match table.label? id with
  | none => { answer := .absent, table }
  | some label =>
    match label.define value with
    | .error refusal => { answer := .refused refusal label, table }
    | .ok defined =>
      { answer := .written defined, table := { table with labels := table.labels.set id defined } }

/-- Gives the label of a handle a value, whether it has one or not. -/
def setLabelValue (table : Table) (id : LabelId) (value : Int64) : Outcome LabelWrite :=
  match table.label? id with
  | none => { answer := .absent, table }
  | some label =>
    { answer := .written (label.setValue value)
      table := { table with labels := table.labels.set id (label.setValue value) } }

end Table

end Symtab
