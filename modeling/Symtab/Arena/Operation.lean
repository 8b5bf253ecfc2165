import Symtab.Arena.Basic

/-!
# Operations on arenas

Everything that can be asked of an arena as data, so that a run is a list of operations. A run has
the arena at hand and a copy of it that can be kept and brought back. A refused operation changes
nothing.
-/

namespace Symtab.Arena

/-- Something asked of an arena with items of type `α`. -/
inductive Operation (α : Type) where
  | push (item : α)
  /-- The item at a position, if there is one. -/
  | get (position : Nat)
  /-- The item at a position, refused behind the last item. -/
  | read (position : Nat)
  /-- The item at a position, if there is one, and another in its place. -/
  | exchange (position : Nat) (item : α)
  /-- Overwrites the item at a position, refused behind the last item. -/
  | write (position : Nat) (item : α)
  | items
  | enumerate
  | positions
  | render
  | clear
  | keep
  | restore
  | equalsKept

/-- What an operation on an arena answers. -/
inductive Answer (ι α : Type) where
  | done
  | refused (fault : Fault)
  | position (position : ι)
  | item (item : α)
  | item? (item : Option α)
  | items (items : List α)
  | enumerated (items : List (ι × α))
  | positions (positions : List ι)
  | text (content : String)
  | truth (holds : Bool)

/-- An arena at hand and a kept copy. -/
structure Session (ι α : Type) [Position ι] where
  current : Arena ι α := ∅
  kept : Arena ι α := ∅

namespace Session

variable {ι α : Type} [Position ι]

/-- Answers a question about a position, which is refused when it is too large. -/
def withPosition (session : Session ι α) (n : Nat) (ask : ι → Answer ι α × Session ι α) :
    Answer ι α × Session ι α :=
  match Position.numbered ι n with
  | .ok position => ask position
  | .error fault => (.refused fault, session)

/-- Performs an operation; `itemText` is the text of an item. -/
def perform [DecidableEq α] (itemText : α → String) (session : Session ι α) :
    Operation α → Answer ι α × Session ι α
  | .push item =>
    match session.current.push item with
    | .ok (current, position) => (.position position, { session with current })
    | .error fault => (.refused fault, session)
  | .get n =>
    session.withPosition n fun position => (.item? (session.current.get? position), session)
  | .read n => session.withPosition n fun position =>
    match session.current.read position with
    | .ok item => (.item item, session)
    | .error fault => (.refused fault, session)
  | .exchange n item => session.withPosition n fun position =>
    (.item? (session.current.get? position),
      { session with current := session.current.set position item })
  | .write n item => session.withPosition n fun position =>
    match session.current.write position item with
    | .ok current => (.done, { session with current })
    | .error fault => (.refused fault, session)
  | .items => (.items session.current.toList, session)
  | .enumerate => (.enumerated session.current.enumerate, session)
  | .positions => (.positions session.current.positions, session)
  | .render => (.text (session.current.render itemText), session)
  | .clear => (.done, { session with current := ∅ })
  | .keep => (.done, { session with kept := session.current })
  | .restore => (.done, { session with current := session.kept })
  | .equalsKept => (.truth (decide (session.current = session.kept)), session)

end Session

end Symtab.Arena
