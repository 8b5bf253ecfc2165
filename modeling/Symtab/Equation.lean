import Symtab.Arena.Basic
import Symtab.Scope

/-!
# Equations

An equation is a named piece of text that replaces its name in source lines. It remembers the
context of its declaration as it was given, and only lines that this context covers see it.
-/

namespace Symtab

/-- The handle of an equation. -/
structure EquationId where
  /-- The number of the equation among the equations. -/
  word : UInt32
  deriving DecidableEq, Repr

instance : Position EquationId where
  limit := Position.limit UInt32
  largest := Position.largest UInt32
  toNat id := Position.toNat id.word
  ofNat n inRange := ⟨Position.ofNat n inRange⟩
  toNat_lt id := Position.toNat_lt id.word
  toNat_ofNat n inRange := Position.toNat_ofNat n inRange
  ofNat_toNat id := congrArg EquationId.mk (Position.ofNat_toNat id.word)

/-- A named piece of text. -/
structure Equation where
  name : String
  replacement : String
  declared : Context
  deriving DecidableEq

/-- Whether a declared token covers an actual one. -/
def ScopeToken.covers (declared actual : ScopeToken) : Bool :=
  declared == anyScope || declared == actual

/-- Whether a line in a context sees an equation. -/
def Equation.isVisibleFrom (equation : Equation) (context : Context) : Bool :=
  ScopeToken.covers equation.declared.fileId context.fileId &&
    ScopeToken.covers equation.declared.sectionId context.sectionId

end Symtab
