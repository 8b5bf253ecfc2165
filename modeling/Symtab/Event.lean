import Symtab.Equation
import Symtab.Label

/-!
# Events

What a symbol table reports while it works. Every event has a level, a wording and named fields.
-/

namespace Symtab

/-- How much an event matters. -/
inductive Level where
  | trace
  | debug
  | warn
  deriving DecidableEq, Repr

/-- The word for a level. -/
def Level.describe : Level → String
  | trace => "TRACE"
  | debug => "DEBUG"
  | warn => "WARN"

/-- What a table reports. -/
inductive Event where
  | clearing (labels equations : Nat)
  | rejectedName (name : String)
  /-- A label is asked for and the key belongs to a symbol of another kind. -/
  | kindMismatch (name : String) (existing : SymbolKind)
  /-- A label is made, from a context as it was given. -/
  | createdLabel (name : String) (context : Context) (id : LabelId)
  /-- An equation is declared and its key is taken. -/
  | redeclared (name : String) (existing : SymbolKind)
  /-- An equation is made, from a context as it was given. -/
  | declaredEquation (name : String) (context : Context) (id : EquationId)
  | substituted (word replacement : String)
  /-- A generated name is passed over because it is declared. -/
  | skippedName (name : String)
  /-- The file of a listing cannot be opened. -/
  | cannotCreateFile (path : String) (fault : Storage.Fault)
  /-- A listing cannot be written to its open file. -/
  | cannotWriteFile (path : String) (fault : Storage.Fault)
  | wroteFile (path : String) (labels : Nat)
  deriving DecidableEq

namespace Event

/-- The value of a field of an event. -/
inductive Field where
  | text (content : String)
  | number (amount : Int)
  deriving DecidableEq, Repr

/-- The level of an event, by its form. -/
def level : Event → Level
  | createdLabel .. | declaredEquation .. | substituted .. | skippedName .. => .trace
  | clearing .. | rejectedName .. | kindMismatch .. | redeclared .. | wroteFile .. => .debug
  | cannotCreateFile .. | cannotWriteFile .. => .warn

/-- The wording of an event, by its form. -/
def message : Event → String
  | clearing .. => "clearing symbol table"
  | rejectedName .. => "rejected symbol name"
  | kindMismatch .. => "label lookup hit another kind"
  | createdLabel .. => "created label"
  | redeclared .. => "equation redeclared"
  | declaredEquation .. => "declared equation"
  | substituted .. => "substituted equation"
  | skippedName .. => "generated name already declared, skipping"
  | cannotCreateFile .. => "cannot create symbol file"
  | cannotWriteFile .. => "failed to write symbol file"
  | wroteFile .. => "wrote symbol file"

/-- The fields of the events that report a declaration. -/
def declarationFields (name : String) (context : Context) (number : Nat) :
    List (String × Field) :=
  [("name", .text name), ("file", .number context.fileId.toInt),
    ("section", .number context.sectionId.toInt), ("id", .number number)]

/-- The fields of an event with their names. -/
def fields : Event → List (String × Field)
  | clearing labels equations => [("labels", .number labels), ("equations", .number equations)]
  | rejectedName name | skippedName name => [("name", .text name)]
  | kindMismatch name existing | redeclared name existing =>
    [("name", .text name), ("existing", .text existing.describe)]
  | createdLabel name context id => declarationFields name context (Position.toNat id)
  | declaredEquation name context id => declarationFields name context (Position.toNat id)
  | substituted word replacement => [("word", .text word), ("replacement", .text replacement)]
  | cannotCreateFile path fault | cannotWriteFile path fault =>
    [("path", .text path), ("error", .text fault.message)]
  | wroteFile path labels => [("path", .text path), ("labels", .number labels)]

end Event

end Symtab
