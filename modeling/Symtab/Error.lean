import Symtab.Arena.Basic
import Symtab.Storage

/-!
# Refusals

Why an operation on symbols or on settings is refused, the wording of each refusal, and the symbol
it is about.
-/

namespace Symtab

/-- The kinds of symbols. -/
inductive SymbolKind where
  | label
  | equation
  deriving DecidableEq, Repr

/-- The word for a kind of symbol. -/
def SymbolKind.describe : SymbolKind → String
  | label => "label"
  | equation => "equation"

/-- Why an operation is refused. -/
inductive SymbolError where
  | invalidName (name : String)
  /-- A label is asked for and the key belongs to a symbol of another kind. -/
  | kindConflict (name : String) (existing : SymbolKind)
  /-- An equation is declared and the key is taken. -/
  | duplicateDeclaration (name : String) (existing : SymbolKind)
  /-- A label that has a value is defined again. -/
  | labelRedefined (name : String)
  | storage (reason : String)
  /-- Settings cannot be read or have a value that is not allowed. -/
  | settings (reason : String)
  /-- Settings are not well-formed TOML, or a value in them has the wrong type. -/
  | malformedToml
  /-- All handles of a kind have been issued. -/
  | handlesExhausted (fault : Arena.Fault)
  deriving DecidableEq, Repr

namespace SymbolError

/-- The refusal that a fault of stored files amounts to. -/
def ofStorage (fault : Storage.Fault) : SymbolError := storage fault.message

/-- The wording of a refusal. -/
def message : SymbolError → String
  | invalidName name => s!"Invalid symbol name: '{name}'"
  | kindConflict name existing => takenMessage name existing
  | duplicateDeclaration name existing => takenMessage name existing
  | labelRedefined name => s!"Label '{name}' already has a value"
  | storage reason => s!"IO error: {reason}"
  | settings reason => s!"Configuration error: {reason}"
  | malformedToml => "Failed to parse configuration"
  | handlesExhausted fault => fault.message
where
  /-- The wording shared by the refusals of a key that is taken. -/
  takenMessage (name : String) (existing : SymbolKind) : String :=
    s!"Symbol '{name}' is already declared as {existing.describe}"

/-- The symbol that a refusal is about. -/
def symbolName? : SymbolError → Option String
  | invalidName name | kindConflict name _ | duplicateDeclaration name _ | labelRedefined name =>
    some name
  | storage _ | settings _ | malformedToml | handlesExhausted _ => none

end SymbolError

end Symtab
