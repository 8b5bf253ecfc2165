import Symtab.Name

/-!
# Scopes and contexts

Source text is assembled in a context: a file and one of its sections, each named by a number.
A symbol is either local to the file that declares it or known everywhere, as the sigil of its name
says. In the place of a file or section, `anyScope` means that the place does not matter.
-/

namespace Symtab

/-- The number of a file or of a section. -/
abbrev ScopeToken := Int32

/-- The token that stands for every file or every section. -/
def anyScope : ScopeToken := -1

/-- Where a line of source text stands. -/
structure Context where
  fileId : ScopeToken
  sectionId : ScopeToken
  deriving DecidableEq, Repr

/-- The context that stands for every file and every section. -/
def Context.everywhere : Context := ⟨anyScope, anyScope⟩

/-- Where a symbol is known. -/
inductive Scope where
  /-- Known in the declaring file, in all of its sections. -/
  | file
  | global
  deriving DecidableEq, Repr

namespace Scope

/-- The scope that the sigil of a name selects: a single `@` keeps the symbol in its file. -/
def ofName (name : String) : Scope :=
  if Name.sigilLength name = 1 then file else global

/-- The context under which a symbol declared in `fileId` is stored. A section never survives. -/
def normalize (scope : Scope) (fileId : ScopeToken) : Context :=
  match scope with
  | file => ⟨fileId, anyScope⟩
  | global => Context.everywhere

end Scope

end Symtab
