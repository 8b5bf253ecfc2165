/-!
# Arenas

An arena keeps items in the order of their arrival and issues a position for each. Items can be
overwritten in place and all be dropped at once, but none is removed alone, so a position denotes
the same item until the arena is cleared. Positions have a type of their own, and an arena never
holds more items than that type has values.
-/

namespace Symtab

/-- A type of positions, numbered from zero up to a limit. -/
class Position (ι : Type) where
  limit : Nat
  largest : String
  toNat : ι → Nat
  ofNat : (n : Nat) → n < limit → ι
  toNat_lt : ∀ i, toNat i < limit
  /-- The position of a number has that number. -/
  toNat_ofNat : ∀ n h, toNat (ofNat n h) = n
  /-- A position is the position of its number. -/
  ofNat_toNat : ∀ i, ofNat (toNat i) (toNat_lt i) = i

instance : Position UInt32 where
  limit := 2 ^ 32
  largest := "u32::MAX"
  toNat := UInt32.toNat
  ofNat n h := UInt32.ofNatLT n h
  toNat_lt i := i.toNat_lt
  toNat_ofNat _ _ := rfl
  ofNat_toNat i := by simp

instance : Position UInt64 where
  limit := 2 ^ 64
  largest := "u64::MAX"
  toNat := UInt64.toNat
  ofNat n h := UInt64.ofNatLT n h
  toNat_lt i := i.toNat_lt
  toNat_ofNat _ _ := rfl
  ofNat_toNat i := by simp

namespace Arena

/-- Why an arena refuses a position. -/
inductive Fault where
  | outside (length position : Nat)
  /-- The position type has no value for the number. -/
  | tooLarge (position : Nat) (largest : String)
  deriving DecidableEq, Repr

/-- The wording of a fault. -/
def Fault.message : Fault → String
  | outside length position =>
    s!"index out of bounds: the len is {length} but the index is {position}"
  | tooLarge position largest => s!"Index {position} exceeds {largest}"

end Arena

/-- The position with the number `n`, refused when the type has none. -/
def Position.numbered (ι : Type) [Position ι] (n : Nat) : Except Arena.Fault ι :=
  if inRange : n < limit ι then .ok (ofNat n inRange) else .error (.tooLarge n (largest ι))

/-- Items of type `α` at positions of type `ι`, in the order of their arrival. -/
@[ext]
structure Arena (ι : Type) (α : Type) [Position ι] where
  items : Array α
  size_le : items.size ≤ Position.limit ι

namespace Arena

variable {ι α : Type} [Position ι]

/-- The arena without items. -/
def empty : Arena ι α := ⟨#[], Nat.zero_le _⟩

instance : EmptyCollection (Arena ι α) := ⟨empty⟩

instance : Inhabited (Arena ι α) := ⟨empty⟩

instance [DecidableEq α] : DecidableEq (Arena ι α) := fun first second =>
  decidable_of_iff (first.items = second.items) Arena.ext_iff.symm

/-- The number of items. -/
def size (arena : Arena ι α) : Nat := arena.items.size

/-- Whether there are no items. -/
def isEmpty (arena : Arena ι α) : Bool := arena.items.isEmpty

/-- The items in the order of their arrival. -/
def toList (arena : Arena ι α) : List α := arena.items.toList

/-- The position that the next item will get, refused when all positions are taken. -/
def next (arena : Arena ι α) : Except Fault ι := Position.numbered ι arena.size

/-- Adds an item at the end and issues its position, refused when all positions are taken. -/
def push (arena : Arena ι α) (item : α) : Except Fault (Arena ι α × ι) :=
  if room : arena.items.size < Position.limit ι then
    .ok (⟨arena.items.push item, by simpa using Nat.succ_le_of_lt room⟩,
      Position.ofNat arena.items.size room)
  else
    .error (.tooLarge arena.items.size (Position.largest ι))

/-- The item at a position, if there is one. -/
def get? (arena : Arena ι α) (position : ι) : Option α :=
  arena.items[Position.toNat position]?

/-- The item at a position, refused behind the last item. -/
def read (arena : Arena ι α) (position : ι) : Except Fault α :=
  match arena.get? position with
  | some item => .ok item
  | none => .error (.outside arena.size (Position.toNat position))

/-- The arena with another item at a position; unchanged behind the last item. -/
def set (arena : Arena ι α) (position : ι) (item : α) : Arena ι α :=
  ⟨arena.items.setIfInBounds (Position.toNat position) item, by simpa using arena.size_le⟩

/-- Overwrites the item at a position, refused behind the last item. -/
def write (arena : Arena ι α) (position : ι) (item : α) : Except Fault (Arena ι α) :=
  match arena.get? position with
  | some _ => .ok (arena.set position item)
  | none => .error (.outside arena.size (Position.toNat position))

/-- The items with their positions, in the order of their arrival. -/
def enumerate (arena : Arena ι α) : List (ι × α) :=
  arena.items.toList.mapFinIdx fun n item inRange =>
    (Position.ofNat n (Nat.lt_of_lt_of_le (by simpa using inRange) arena.size_le), item)

/-- The positions of the items, in the order of their arrival. -/
def positions (arena : Arena ι α) : List ι :=
  List.ofFn fun n : Fin arena.items.size =>
    Position.ofNat n.val (Nat.lt_of_lt_of_le n.isLt arena.size_le)

/-- The items as text, in brackets and separated by commas. -/
def render (arena : Arena ι α) (itemText : α → String) : String :=
  "[" ++ ", ".intercalate (arena.toList.map itemText) ++ "]"

end Arena

end Symtab
