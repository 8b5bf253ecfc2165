import Mathlib.Data.List.Nodup
import Symtab.Arena.Lemmas
import Symtab.Arena.Operation
import Symtab.Equation
import Symtab.Label

/-!
# Runs of arenas

Whoever uses an arena can keep notes of it: every position that a push has issued, with the item
last written there. The notes are torn up when the arena is cleared, and copied when it is. They are
taken from operations and answers alone, and after every run they agree with the arena: positions
denote the items that were put there, and are numbered from zero without gaps.

What an operation does to the arena at hand is said once, as a relation. From it follow what becomes
of the notes and what becomes of a single item.
-/

namespace Symtab.Arena

variable {ι α : Type} [Position ι]

namespace Operation

/-- What an operation writes in place, with the number of the position. -/
def write? : Operation α → Option (Nat × α)
  | .exchange n item | .write n item => some (n, item)
  | _ => none

/-- What an operation writes at the position with the number `n`. -/
def writtenAt? (n : Nat) (operation : Operation α) : Option α :=
  operation.write?.bind fun (number, item) => if number = n then some item else none

/-- Whether an operation puts other items in the place of all items. -/
def isDrop : Operation α → Bool
  | .clear | .restore => true
  | _ => false

/-- Whether an operation only looks at the items. -/
def isLook : Operation α → Bool
  | .get _ | .read _ | .items | .enumerate | .positions | .render | .equalsKept => true
  | _ => false

theorem writtenAt?_of_write? {operation : Operation α} {number : Nat} {item : α}
    (writes : operation.write? = some (number, item)) (n : Nat) :
    operation.writtenAt? n = if number = n then some item else none := by
  rw [writtenAt?, writes, Option.bind_some]

theorem write?_of_isLook {operation : Operation α} (looks : operation.isLook = true) :
    operation.write? = none := by
  cases operation with
  | push | exchange | write | clear | keep | restore => cases looks
  | _ => rfl

theorem writtenAt?_of_isLook {operation : Operation α} (looks : operation.isLook = true) (n : Nat) :
    operation.writtenAt? n = none := by
  rw [writtenAt?, write?_of_isLook looks, Option.bind_none]

end Operation

/-- The item that some operations last wrote at the position with the number `n`, or the one that
was there before. -/
def lastWritten (n : Nat) (item : α) (operations : List (Operation α)) : α :=
  operations.foldl (fun last operation => (operation.writtenAt? n).getD last) item

/-- What the user of an arena and of a kept copy has noted. -/
structure Notes (ι α : Type) where
  /-- The positions issued since the last clearing, with the items last written there. -/
  held : List (ι × α) := []
  kept : List (ι × α) := []

namespace Notes

/-- Notes in which an operation has written in place. -/
def rewritten (operation : Operation α) (held : List (ι × α)) : List (ι × α) :=
  held.map fun (position, item) =>
    (position, (operation.writtenAt? (Position.toNat position)).getD item)

/-- The notes after an operation and its answer. -/
def add (notes : Notes ι α) : Operation α × Answer ι α → Notes ι α
  | (.push item, .position position) => { notes with held := notes.held ++ [(position, item)] }
  | (.clear, _) => { notes with held := [] }
  | (.keep, _) => { notes with kept := notes.held }
  | (.restore, _) => { notes with held := notes.kept }
  | (operation, _) => { notes with held := rewritten operation notes.held }

/-- The notes of a whole run. -/
def taken (transcript : List (Operation α × Answer ι α)) : Notes ι α :=
  transcript.foldl add {}

theorem rewritten_eq_self {operation : Operation α} {held : List (ι × α)}
    (misses : ∀ pair ∈ held, operation.writtenAt? (Position.toNat pair.1) = none) :
    rewritten operation held = held := by
  refine (List.map_congr_left ?_).trans (List.map_id held)
  intro pair pairMem
  simp only [misses pair pairMem]
  rfl

theorem add_of_write? (notes : Notes ι α) {operation : Operation α} {write : Nat × α}
    (writes : operation.write? = some write) (answer : Answer ι α) :
    notes.add (operation, answer) = { notes with held := rewritten operation notes.held } := by
  cases operation with
  | exchange n item => rfl
  | write n item => rfl
  | _ => cases writes

theorem add_of_isLook (notes : Notes ι α) {operation : Operation α}
    (looks : operation.isLook = true) (answer : Answer ι α) :
    notes.add (operation, answer) = notes := by
  have same : rewritten operation notes.held = notes.held :=
    rewritten_eq_self fun pair _ => Operation.writtenAt?_of_isLook looks _
  cases operation with
  | push | exchange | write | clear | keep | restore => cases looks
  | _ => exact congrArg (fun held => { notes with held }) same

end Notes

namespace Session

/-- What one operation does to the arena at hand and to the kept copy. -/
inductive Step (before : Session ι α) : Operation α → Answer ι α → Session ι α → Prop where
  | pushed {item : α} {current : Arena ι α} {position : ι}
      (pushes : before.current.push item = .ok (current, position)) :
      Step before (.push item) (.position position) { before with current }
  | full {item : α} {fault : Fault} (refuses : before.current.push item = .error fault) :
      Step before (.push item) (.refused fault) before
  | wrote {operation : Operation α} {answer : Answer ι α} {position : ι} {item : α}
      (writes : operation.write? = some (Position.toNat position, item)) :
      Step before operation answer { before with current := before.current.set position item }
  | missed {operation : Operation α} {answer : Answer ι α} {n : Nat} {item : α}
      (writes : operation.write? = some (n, item)) (outside : before.current.size ≤ n) :
      Step before operation answer before
  | looked {operation : Operation α} {answer : Answer ι α} (looks : operation.isLook = true) :
      Step before operation answer before
  | cleared {answer : Answer ι α} : Step before .clear answer { before with current := ∅ }
  | kept {answer : Answer ι α} : Step before .keep answer { before with kept := before.current }
  | restored {answer : Answer ι α} :
      Step before .restore answer { before with current := before.kept }

section Perform

variable [DecidableEq α] (itemText : α → String)

/-- The session after operations performed one after the other. -/
def after (session : Session ι α) (operations : List (Operation α)) : Session ι α :=
  operations.foldl (fun session operation => (session.perform itemText operation).2) session

/-- The operations of a run with their answers. -/
def transcript (session : Session ι α) :
    List (Operation α) → List (Operation α × Answer ι α)
  | [] => []
  | operation :: operations =>
    let (answer, next) := session.perform itemText operation
    (operation, answer) :: next.transcript operations

omit [DecidableEq α] in
/-- Asking about a position is refused only when its number is behind the last item. -/
theorem Step.of_withPosition {session : Session ι α} {operation : Operation α} {n : Nat}
    {ask : ι → Answer ι α × Session ι α}
    (asked : ∀ position, Position.toNat position = n →
      session.Step operation (ask position).1 (ask position).2)
    (refused : ∀ answer, session.current.size ≤ n → session.Step operation answer session) :
    session.Step operation (session.withPosition n ask).1 (session.withPosition n ask).2 := by
  unfold withPosition
  cases found : Position.numbered ι n with
  | ok position => exact asked position (Position.numbered_eq_ok_iff.mp found)
  | error fault =>
      apply refused
      exact Nat.le_trans session.current.size_le (Position.numbered_eq_error_iff.mp found).1

theorem step_perform (session : Session ι α) (operation : Operation α) :
    session.Step operation (session.perform itemText operation).1
      (session.perform itemText operation).2 := by
  cases operation with
  | push item =>
      cases pushes : session.current.push item with
      | ok pushed =>
          rcases pushed with ⟨current, position⟩
          simp only [perform, pushes]
          exact .pushed pushes
      | error fault =>
          simp only [perform, pushes]
          exact .full pushes
  | exchange n item =>
      apply Step.of_withPosition
      · rintro position rfl
        exact .wrote rfl
      · intro answer outside
        exact .missed rfl outside
  | write n item =>
      apply Step.of_withPosition
      · rintro position rfl
        cases written : session.current.write position item with
        | ok current =>
            obtain rfl := (write_eq_ok_iff.mp written).2
            exact .wrote rfl
        | error fault =>
            have absent := (write_eq_error_iff.mp written).1
            exact .missed rfl (get?_eq_none_iff.mp absent)
      · intro answer outside
        exact .missed rfl outside
  | get n =>
      apply Step.of_withPosition
      · intro position _
        exact .looked rfl
      · intro answer _
        exact .looked rfl
  | read n =>
      apply Step.of_withPosition
      · intro position _
        cases session.current.read position with
        | ok item => exact .looked rfl
        | error fault => exact .looked rfl
      · intro answer _
        exact .looked rfl
  | clear => exact .cleared
  | keep => exact .kept
  | restore => exact .restored
  | _ => exact .looked rfl

end Perform

variable {before next : Session ι α} {operation : Operation α} {answer : Answer ι α}

/-- A step that does not drop the items leaves every item in its place, unless it writes there. -/
theorem Step.get?_eq_some (step : before.Step operation answer next)
    (noDrop : operation.isDrop = false) {position : ι} {item : α}
    (found : before.current.get? position = some item) :
    next.current.get? position =
      some ((operation.writtenAt? (Position.toNat position)).getD item) := by
  have inUse := (before.current.exists_get?_eq_some_iff position).mp ⟨item, found⟩
  cases step with
  | pushed pushes =>
      apply mem_enumerate_iff.mp
      rw [enumerate_of_push pushes]
      exact List.mem_append_left _ (mem_enumerate_iff.mpr found)
  | full => exact found
  | wrote writes =>
      simp only [get?_set, found, Operation.writtenAt?_of_write? writes, Option.map_some, eq_comm]
      split <;> rfl
  | @missed _ _ n _ writes outside =>
      have elsewhere : n ≠ Position.toNat position := by omega
      simpa only [Operation.writtenAt?_of_write? writes, if_neg elsewhere, Option.getD_none]
        using found
  | looked looks =>
      simpa only [Operation.writtenAt?_of_isLook looks, Option.getD_none] using found
  | kept => exact found
  | cleared => cases noDrop
  | restored => cases noDrop

/-- A step that writes in place leaves all other positions alone. -/
theorem Step.get?_of_write? (step : before.Step operation answer next) {n : Nat} {item : α}
    (writes : operation.write? = some (n, item)) {position : ι}
    (elsewhere : Position.toNat position ≠ n) :
    next.current.get? position = before.current.get? position := by
  cases step with
  | wrote writesSame =>
      rw [writesSame, Option.some.injEq, Prod.mk.injEq] at writes
      obtain rfl := writes.1
      rw [get?_set, if_neg elsewhere]
  | missed => rfl
  | looked looks =>
      simp only [Operation.write?_of_isLook looks, reduceCtorEq] at writes
  | _ => cases writes

end Session

/-- Notes agree with an arena and its kept copy. -/
structure Notes.Describes (notes : Notes ι α) (session : Session ι α) : Prop where
  held_eq : session.current.enumerate = notes.held
  kept_eq : session.kept.enumerate = notes.kept

namespace Notes.Describes

variable {notes : Notes ι α} {before next : Session ι α}

theorem of_step (describes : notes.Describes before) {operation : Operation α}
    {answer : Answer ι α} (step : before.Step operation answer next) :
    (notes.add (operation, answer)).Describes next := by
  rcases describes with ⟨heldEq, keptEq⟩
  cases step with
  | pushed pushes =>
      refine ⟨?_, keptEq⟩
      rw [enumerate_of_push pushes, heldEq]
      rfl
  | @full item fault =>
      have same : rewritten (.push item) notes.held = notes.held :=
        rewritten_eq_self fun _ _ => rfl
      exact ⟨heldEq.trans same.symm, keptEq⟩
  | wrote writes =>
      rw [add_of_write? notes writes]
      refine ⟨?_, keptEq⟩
      rw [enumerate_set, heldEq]
      apply List.map_congr_left
      rintro ⟨position, item⟩ _
      simp only [Operation.writtenAt?_of_write? writes, eq_comm]
      split <;> rfl
  | @missed _ _ n _ writes outside =>
      rw [add_of_write? notes writes]
      refine ⟨heldEq.trans (Eq.symm ?_), keptEq⟩
      apply rewritten_eq_self
      rintro ⟨position, item⟩ pairMem
      have inUse := (before.current.exists_get?_eq_some_iff position).mp
        ⟨item, mem_enumerate_iff.mp (heldEq ▸ pairMem)⟩
      have elsewhere : n ≠ Position.toNat position := by omega
      simp only [Operation.writtenAt?_of_write? writes, if_neg elsewhere]
  | looked looks =>
      rw [add_of_isLook notes looks]
      exact ⟨heldEq, keptEq⟩
  | cleared => exact ⟨rfl, keptEq⟩
  | kept => exact ⟨heldEq, heldEq⟩
  | restored => exact ⟨keptEq, keptEq⟩

end Notes.Describes

section Runs

variable [DecidableEq α] (itemText : α → String)

/-- Notes that agree with a session keep agreeing with it. They are taken from the left, so this is
about all notes that agree so far. -/
theorem Notes.Describes.foldl_add {notes : Notes ι α} {session : Session ι α}
    (describes : notes.Describes session) (operations : List (Operation α)) :
    ((session.transcript itemText operations).foldl Notes.add notes).Describes
      (session.after itemText operations) := by
  induction operations generalizing notes session with
  | nil => exact describes
  | cons operation operations ih =>
      exact ih (describes.of_step (session.step_perform itemText operation))

/-- The notes of a run agree with the session after it. -/
theorem describes_taken (operations : List (Operation α)) :
    (Notes.taken (({} : Session ι α).transcript itemText operations)).Describes
      (({} : Session ι α).after itemText operations) :=
  Notes.Describes.foldl_add itemText ⟨rfl, rfl⟩ operations

theorem Session.get?_after {session : Session ι α} {operations : List (Operation α)}
    (noDrop : ∀ operation ∈ operations, operation.isDrop = false) {position : ι} {item : α}
    (found : session.current.get? position = some item) :
    (session.after itemText operations).current.get? position =
      some (lastWritten (Position.toNat position) item operations) := by
  induction operations generalizing session item with
  | nil => exact found
  | cons operation operations ih =>
      rcases List.forall_mem_cons.mp noDrop with ⟨noDropNow, noDropLater⟩
      apply ih noDropLater
      exact (session.step_perform itemText operation).get?_eq_some noDropNow found

/-- The ways to look at an arena agree: looking up, reading, listing and enumerating. Reading and
writing are refused exactly where there is no item. -/
structure Coherent (arena : Arena ι α) : Prop where
  get?_eq : ∀ position, arena.get? position = arena.toList[Position.toNat position]?
  isSome_get?_iff : ∀ position, (arena.get? position).isSome ↔ Position.toNat position < arena.size
  read_eq_ok_iff : ∀ position item,
    arena.read position = .ok item ↔ arena.get? position = some item
  read_eq_error_iff : ∀ position,
    arena.read position = .error (.outside arena.size (Position.toNat position)) ↔
      arena.get? position = none
  write_eq_ok_iff : ∀ position item written,
    arena.write position item = .ok written ↔
      arena.get? position ≠ none ∧ written = arena.set position item
  write_eq_error_iff : ∀ position item,
    arena.write position item = .error (.outside arena.size (Position.toNat position)) ↔
      arena.get? position = none
  enumerate_eq_zip : arena.enumerate = arena.positions.zip arena.toList
  length_toList : arena.toList.length = arena.size
  map_toNat_positions : arena.positions.map Position.toNat = List.range arena.size
  length_positions : arena.positions.length = arena.size

omit [DecidableEq α] in
theorem coherent (arena : Arena ι α) : arena.Coherent where
  get?_eq := arena.get?_eq_getElem?
  isSome_get?_iff position := by
    rw [Option.isSome_iff_exists, exists_get?_eq_some_iff]
  read_eq_ok_iff _ _ := read_eq_ok_iff
  read_eq_error_iff position := by
    simp only [read_eq_error_iff, and_true]
  write_eq_ok_iff _ _ _ := write_eq_ok_iff
  write_eq_error_iff position item := by
    simp only [write_eq_error_iff, and_true]
  enumerate_eq_zip := arena.enumerate_eq_zip
  length_toList := arena.length_toList
  map_toNat_positions := arena.map_toNat_positions
  length_positions := arena.length_positions

/-- In every run an arena enumerates the positions issued since the last clearing, each with the
item last written there, and these positions differ. As long as there is room, a push issues the
position announced as the next one, which has the number of items before as its number, and the
position denotes its item until the arena is cleared. A write changes no other position, the views
of the arena agree, and no number is taken for another one when it is made a position. -/
theorem positions_denote_items (operations : List (Operation α)) :
    let session : Session ι α := ({} : Session ι α).after itemText operations
    let notes : Notes ι α := .taken (({} : Session ι α).transcript itemText operations)
    session.current.enumerate = notes.held ∧ (notes.held.map Prod.fst).Nodup ∧
    (session.current.size < Position.limit ι → ∀ item, ∃ position,
      (session.perform itemText (.push item)).1 = .position position ∧
      session.current.next = .ok position ∧
      Position.toNat position = session.current.size ∧
      position ∉ notes.held.map Prod.fst ∧
      ∀ later, (∀ operation ∈ later, operation.isDrop = false) →
        (session.after itemText (.push item :: later)).current.get? position =
          some (lastWritten (Position.toNat position) item later)) ∧
    (∀ (operation : Operation α) n item, operation.write? = some (n, item) →
      ∀ position, Position.toNat position ≠ n →
        (session.perform itemText operation).2.current.get? position =
          session.current.get? position) ∧
    session.current.Coherent ∧
    (∀ n, (Position.numbered ι n = .error (.tooLarge n (Position.largest ι)) ↔
        Position.limit ι ≤ n) ∧
      ∀ position : ι, Position.numbered ι n = .ok position ↔ Position.toNat position = n) ∧
    Position.limit UInt32 = UInt32.size ∧ Position.limit LabelId = UInt32.size ∧
      Position.limit EquationId = UInt32.size := by
  intro session notes
  have heldEq : session.current.enumerate = notes.held :=
    (describes_taken itemText operations).held_eq
  have issuedEq : notes.held.map Prod.fst = session.current.positions :=
    heldEq ▸ session.current.map_fst_enumerate
  have distinct : (notes.held.map Prod.fst).Nodup := by
    apply List.Nodup.of_map Position.toNat
    rw [issuedEq, map_toNat_positions]
    exact List.nodup_range
  refine ⟨heldEq, distinct, ?_, ?_, session.current.coherent, ?_, rfl, rfl, rfl⟩
  · intro room item
    rcases exists_push_eq_ok room item with ⟨pushed, position, pushes⟩
    have number := (push_eq_ok_iff.mp pushes).2.2
    have performed : session.perform itemText (.push item) =
        (.position position, { session with current := pushed }) := by
      simp only [Session.perform, pushes]
    refine ⟨position, congrArg Prod.fst performed, Position.numbered_eq_ok_iff.mpr number, number,
      ?_, ?_⟩
    · intro issued
      have inRange : Position.toNat position ∈ session.current.positions.map Position.toNat :=
        List.mem_map_of_mem (issuedEq ▸ issued)
      rw [map_toNat_positions, List.mem_range] at inRange
      omega
    · intro later noDrop
      apply Session.get?_after itemText noDrop
      simp only [performed]
      apply mem_enumerate_iff.mp
      simp [enumerate_of_push pushes]
  · intro operation n item writes position elsewhere
    exact (session.step_perform itemText operation).get?_of_write? writes elsewhere
  · intro n
    refine ⟨?_, fun position => Position.numbered_eq_ok_iff⟩
    simp only [Position.numbered_eq_error_iff, and_true]

/-- After a clearing positions start again at zero, and the third push issues the third position,
where a later write leaves its item. -/
theorem positions_denote_items_after_clear :
    let operations : List (Operation Nat) := [.push 7, .clear, .push 1, .push 2, .exchange 0 5]
    let session : Session UInt32 Nat := ({} : Session UInt32 Nat).after toString operations
    session.current.size < Position.limit UInt32 ∧ session.current.enumerate = [(0, 5), (1, 2)] ∧
      ∃ position, (session.perform toString (.push 9)).1 = .position position ∧
        Position.toNat position = 2 ∧
        (session.after toString [.push 9, .write 2 8, .exchange 7 0]).current.get? position =
          some 8 := by
  intro operations session
  have room : session.current.size < Position.limit UInt32 := by decide +kernel
  rcases @positions_denote_items UInt32 Nat _ _ toString operations with ⟨heldEq, _, pushes, _⟩
  rcases pushes room 9 with ⟨position, issued, _, number, _, denotes⟩
  have isThird : Position.toNat position = 2 := by
    rw [number]
    decide +kernel
  refine ⟨room, ?_, position, issued, isThird, ?_⟩
  · rw [heldEq]
    decide +kernel
  · rw [denotes [.write 2 8, .exchange 7 0] (by decide +kernel), isThird]
    rfl

end Runs

end Symtab.Arena
