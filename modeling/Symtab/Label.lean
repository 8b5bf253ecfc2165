import Symtab.Error

/-!
# Labels

A label names an address. It is made without a value; the value comes once, by definition, or any
number of times by setting it.
-/

namespace Symtab

/-- The handle of a label. -/
structure LabelId where
  /-- The number of the label among the labels. -/
  word : UInt32
  deriving DecidableEq, Repr

instance : Position LabelId where
  limit := Position.limit UInt32
  largest := Position.largest UInt32
  toNat id := Position.toNat id.word
  ofNat n inRange := ⟨Position.ofNat n inRange⟩
  toNat_lt id := Position.toNat_lt id.word
  toNat_ofNat n inRange := Position.toNat_ofNat n inRange
  ofNat_toNat id := congrArg LabelId.mk (Position.ofNat_toNat id.word)

/-- A named address. -/
structure Label where
  /-- The name as it was first used, with its sigil. -/
  name : String
  value : Option Int64 := none
  deriving DecidableEq

namespace Label

/-- Whether a label has a value. -/
def isDefined (label : Label) : Bool := label.value.isSome

/-- Gives a label its value, refused when it has one. -/
def define (value : Int64) (label : Label) : Except SymbolError Label :=
  if label.isDefined then .error (.labelRedefined label.name)
  else .ok { label with value := some value }

/-- Gives a label a value, whether it has one or not. -/
def setValue (value : Int64) (label : Label) : Label := { label with value := some value }

end Label

end Symtab
