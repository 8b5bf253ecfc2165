import Symtab.Table.FreshName
import Symtab.Table.Listing
import Symtab.Table.Substitution

/-!
# Operations and runs

Everything that can be asked of a symbol table as data, so that a run is a list of operations.
-/

namespace Symtab

/-- What can be asked of a table. -/
inductive Operation where
  /-- The label of a name, made on first use. -/
  | labelFor (name : String) (context : Context)
  /-- The label of a name, if there is one. -/
  | findLabel (name : String) (context : Context)
  | declares (name : String) (context : Context)
  | label (id : LabelId)
  | defineLabel (id : LabelId) (value : Int64)
  /-- Gives a label a value, whether it has one or not. -/
  | setLabelValue (id : LabelId) (value : Int64)
  | labels
  | declareEquation (name : String) (context : Context) (replacement : String)
  | equation (id : EquationId)
  | equations
  /-- Whether a context sees the equation of a handle. -/
  | isVisible (id : EquationId) (context : Context)
  | substitute (line : String) (context : Context)
  | freshName
  | settings
  | listing
  /-- The listing in a buffer of a given size. -/
  | listingWithin (capacity : Nat)
  | exportListing (path : String) (destination : Storage.Destination)
  | clear

/-- What an operation answers. -/
inductive Answer where
  | done
  | truth (holds : Bool)
  | truth? (holds : Option Bool)
  | text (content : String)
  /-- The handle of a label, or why there is none. -/
  | labelId (result : Except SymbolError LabelId)
  /-- The handle of a label, if there is one. -/
  | labelId? (id : Option LabelId)
  | label? (label : Option Label)
  /-- What became of a value written to a label. -/
  | labelWrite (result : Table.LabelWrite)
  | labels (labels : List (LabelId × Label))
  /-- The handle of an equation, or why there is none. -/
  | equationId (result : Except SymbolError EquationId)
  | equation? (equation : Option Equation)
  | equations (equations : List (EquationId × Equation))
  | settings (settings : Settings)
  /-- What a buffer holds, and whether that is everything. -/
  | buffer (buffer : Storage.Buffer) (result : Except SymbolError Unit)
  /-- What stands where a file was to be written. -/
  | destination (destination : Storage.Destination)

namespace Outcome

/-- Changes the answer of an outcome. -/
def map {α β : Type} (change : α → β) (outcome : Outcome α) : Outcome β :=
  { outcome with answer := change outcome.answer }

end Outcome

namespace Table

/-- Performs one operation. -/
def perform (table : Table) : Operation → Outcome Answer
  | .labelFor name context => (table.labelFor name context).map .labelId
  | .findLabel name context => { answer := .labelId? (table.findLabel? name context), table }
  | .declares name context => { answer := .truth (table.declares name context), table }
  | .label id => { answer := .label? (table.label? id), table }
  | .defineLabel id value => (table.defineLabel id value).map .labelWrite
  | .setLabelValue id value => (table.setLabelValue id value).map .labelWrite
  | .labels => { answer := .labels table.labels.enumerate, table }
  | .declareEquation name context replacement =>
    (table.declareEquation name context replacement).map .equationId
  | .equation id => { answer := .equation? (table.equation? id), table }
  | .equations => { answer := .equations table.equations.enumerate, table }
  | .isVisible id context =>
    { answer := .truth? ((table.equation? id).map (·.isVisibleFrom context)), table }
  | .substitute line context =>
    { answer := .text (table.substitute line context)
      table
      events := table.substitutionEvents line context }
  | .freshName => table.freshName.map .text
  | .settings => { answer := .settings table.settings, table }
  | .listing => { answer := .text table.listing.render, table }
  | .listingWithin capacity =>
    let (buffer, result) := table.listing.writeWithin capacity
    { answer := .buffer buffer (result.mapError .ofStorage), table }
  | .exportListing path destination => (table.exportListing path destination).map .destination
  | .clear => table.clear.map fun _ => .done

/-- The outcomes of operations performed one after the other. -/
def run (table : Table) : List Operation → List (Outcome Answer)
  | [] => []
  | operation :: operations =>
    let outcome := table.perform operation
    outcome :: outcome.table.run operations

/-- The table after operations performed one after the other. -/
def after (table : Table) (operations : List Operation) : Table :=
  operations.foldl (fun table operation => (table.perform operation).table) table

end Table

end Symtab
