import Symtab.Arena.Basic

/-!
# Arenas seen as lists

An arena is determined by the list of its items. Each operation is described by what it does to this
list: a push adds an item at the end, a write replaces one in its place, and a position reads the
item with its number.
-/

namespace Symtab

namespace Position

variable {ι : Type} [Position ι]

/-- Positions with the same number are the same. -/
theorem toNat_injective {first second : ι} (sameNumber : toNat first = toNat second) :
    first = second := by
  rw [← ofNat_toNat first, ← ofNat_toNat second]
  congr 1

/-- The position of a number is the one with that number. -/
theorem numbered_eq_ok_iff {n : Nat} {position : ι} :
    numbered ι n = .ok position ↔ toNat position = n := by
  unfold numbered
  constructor
  · intro found
    split at found
    next inRange =>
      cases found
      exact toNat_ofNat n inRange
    next => cases found
  · rintro rfl
    rw [dif_pos (toNat_lt position), ofNat_toNat]

/-- A number is refused exactly when it does not lie below the limit. -/
theorem numbered_eq_error_iff {n : Nat} {fault : Arena.Fault} :
    numbered ι n = .error fault ↔ limit ι ≤ n ∧ fault = .tooLarge n (largest ι) := by
  unfold numbered
  split
  next inRange =>
    simp only [reduceCtorEq, false_iff, not_and]
    intro tooLarge
    omega
  next outside =>
    simp only [Except.error.injEq, eq_comm (a := fault), iff_and_self]
    intro _
    omega

end Position

namespace Arena

variable {ι α : Type} [Position ι]

@[simp]
theorem toList_empty : (∅ : Arena ι α).toList = [] := rfl

@[simp]
theorem length_toList (arena : Arena ι α) : arena.toList.length = arena.size := by
  simp [toList, size]

/-- Arenas with the same items are the same. -/
theorem ext_toList {first second : Arena ι α} (sameItems : first.toList = second.toList) :
    first = second :=
  Arena.ext (Array.toList_inj.mp sameItems)

/-- There is an item at a position exactly when its number lies below the number of items. -/
theorem get?_eq_getElem? (arena : Arena ι α) (position : ι) :
    arena.get? position = arena.toList[Position.toNat position]? := by
  simp [get?, toList]

/-- A push succeeds exactly when there is a position left. Then the item stands behind all others,
at the position whose number is the number of items before. -/
theorem push_eq_ok_iff {arena pushed : Arena ι α} {item : α} {position : ι} :
    arena.push item = .ok (pushed, position) ↔
      arena.size < Position.limit ι ∧ pushed.toList = arena.toList ++ [item] ∧
        Position.toNat position = arena.size := by
  unfold push
  constructor
  · intro pushes
    split at pushes
    next room =>
      simp only [Except.ok.injEq, Prod.mk.injEq] at pushes
      rcases pushes with ⟨rfl, rfl⟩
      exact ⟨room, by simp [toList], Position.toNat_ofNat _ _⟩
    next => simp at pushes
  · rintro ⟨room, items, number⟩
    change arena.items.size < Position.limit ι at room
    rw [dif_pos room]
    have samePosition : Position.ofNat arena.items.size room = position := by
      rw [← Position.ofNat_toNat position]
      congr 1
      exact number.symm
    have sameArena :
        (⟨arena.items.push item, by simpa using Nat.succ_le_of_lt room⟩ : Arena ι α) = pushed :=
      ext_toList (by simpa [toList] using items.symm)
    rw [samePosition, sameArena]

/-- A push succeeds when there is a position left. -/
theorem exists_push_eq_ok {arena : Arena ι α} (room : arena.size < Position.limit ι) (item : α) :
    ∃ pushed position, arena.push item = .ok (pushed, position) :=
  ⟨_, _, dif_pos room⟩

/-- A push is refused only when all positions are taken. -/
theorem size_eq_limit_of_push {arena : Arena ι α} {item : α} {fault : Fault}
    (refused : arena.push item = .error fault) : arena.size = Position.limit ι := by
  refine Nat.le_antisymm arena.size_le (Nat.le_of_not_lt fun room => ?_)
  rcases exists_push_eq_ok room item with ⟨pushed, position, pushes⟩
  rw [pushes] at refused
  cases refused

theorem push_eq_error_iff {arena : Arena ι α} {item : α} {fault : Fault} :
    arena.push item = .error fault ↔
      arena.size = Position.limit ι ∧ fault = .tooLarge arena.size (Position.largest ι) := by
  constructor
  · intro refused
    refine ⟨size_eq_limit_of_push refused, ?_⟩
    unfold push at refused
    split at refused
    next => cases refused
    next => exact (Except.error.inj refused).symm
  · rintro ⟨full, rfl⟩
    exact dif_neg (Nat.not_lt.mpr (Nat.le_of_eq full.symm))

/-- Arenas with as many items each issue the same position, or are full together. -/
theorem push_of_size_eq {first second : Arena ι α} (sameSize : second.size = first.size)
    (item : α) :
    (∀ fault, first.push item = .error fault → second.push item = .error fault) ∧
    ∀ pushed position, first.push item = .ok (pushed, position) →
      ∃ other, second.push item = .ok (other, position) := by
  refine ⟨?_, ?_⟩
  · intro fault refused
    simp only [push_eq_error_iff, sameSize] at refused ⊢
    exact refused
  · intro pushed position pushes
    rcases push_eq_ok_iff.mp pushes with ⟨room, _, number⟩
    rcases exists_push_eq_ok (sameSize ▸ room) item with ⟨other, otherPosition, otherPushes⟩
    have otherNumber := (push_eq_ok_iff.mp otherPushes).2.2
    have samePosition : otherPosition = position :=
      Position.toNat_injective (by rw [otherNumber, sameSize, number])
    exact ⟨other, samePosition ▸ otherPushes⟩

theorem size_of_push {arena pushed : Arena ι α} {item : α} {position : ι}
    (pushes : arena.push item = .ok (pushed, position)) : pushed.size = arena.size + 1 := by
  rw [← length_toList, (push_eq_ok_iff.mp pushes).2.1]
  simp

/-- After a push the new position has the new item, and every other position has what it had. -/
theorem get?_of_push [DecidableEq ι] {arena pushed : Arena ι α} {item : α} {position : ι}
    (pushes : arena.push item = .ok (pushed, position)) (other : ι) :
    pushed.get? other = if other = position then some item else arena.get? other := by
  rcases push_eq_ok_iff.mp pushes with ⟨_, items, number⟩
  rw [← length_toList] at number
  rw [get?_eq_getElem?, get?_eq_getElem?, items]
  split
  next isNew => simp [isNew, number]
  next isOld =>
    have differs : Position.toNat other ≠ arena.toList.length :=
      fun same => isOld (Position.toNat_injective (same.trans number.symm))
    rcases Nat.lt_or_gt_of_ne differs with inFront | behind
    · exact List.getElem?_append_left inFront
    · rw [List.getElem?_eq_none (by simp only [List.length_append, List.length_singleton]; omega),
        List.getElem?_eq_none (by omega)]

@[simp]
theorem toList_set (arena : Arena ι α) (position : ι) (item : α) :
    (arena.set position item).toList = arena.toList.set (Position.toNat position) item := by
  simp [set, toList]

/-- There is an item at every position whose number lies below the number of items. -/
theorem exists_get?_eq_some_iff (arena : Arena ι α) (position : ι) :
    (∃ item, arena.get? position = some item) ↔ Position.toNat position < arena.size := by
  rw [get?_eq_getElem?, ← length_toList, ← Option.isSome_iff_exists, isSome_getElem?]

theorem get?_eq_none_iff {arena : Arena ι α} {position : ι} :
    arena.get? position = none ↔ arena.size ≤ Position.toNat position := by
  rw [get?_eq_getElem?, List.getElem?_eq_none_iff, length_toList]

/-- The items are what stands at the positions. -/
theorem mem_toList_iff {arena : Arena ι α} {item : α} :
    item ∈ arena.toList ↔ ∃ position, arena.get? position = some item := by
  simp only [get?_eq_getElem?, List.mem_iff_getElem?]
  constructor
  · rintro ⟨number, found⟩
    rcases List.getElem?_eq_some_iff.mp found with ⟨inUse, _⟩
    rw [length_toList] at inUse
    have inRange : number < Position.limit ι := Nat.lt_of_lt_of_le inUse arena.size_le
    exact ⟨Position.ofNat number inRange, by rw [Position.toNat_ofNat, found]⟩
  · rintro ⟨position, found⟩
    exact ⟨Position.toNat position, found⟩

/-- The items of an enumeration are all items in order. -/
@[simp]
theorem map_snd_enumerate (arena : Arena ι α) : arena.enumerate.map Prod.snd = arena.toList := by
  apply List.ext_getElem <;> simp [enumerate, toList]

/-- The positions of an enumeration are all positions in use in order. -/
@[simp]
theorem map_fst_enumerate (arena : Arena ι α) :
    arena.enumerate.map Prod.fst = arena.positions := by
  apply List.ext_getElem <;> simp [enumerate, positions]

/-- An enumeration numbers the items from zero. -/
theorem enumerate_eq_zipIdx (arena : Arena ι α) :
    arena.enumerate.map (fun (position, item) => (item, Position.toNat position)) =
      arena.toList.zipIdx := by
  apply List.ext_getElem <;> simp [enumerate, toList, Position.toNat_ofNat]

@[simp]
theorem length_positions (arena : Arena ι α) : arena.positions.length = arena.size := by
  simp [positions, size]

/-- The positions in use are numbered from zero without gaps. -/
theorem map_toNat_positions (arena : Arena ι α) :
    arena.positions.map Position.toNat = List.range arena.size := by
  apply List.ext_getElem <;> simp [positions, size, Position.toNat_ofNat]

/-- An enumeration pairs the positions in use with the items. -/
theorem enumerate_eq_zip (arena : Arena ι α) :
    arena.enumerate = arena.positions.zip arena.toList := by
  apply List.ext_getElem <;> simp [enumerate, positions, toList]

/-- An enumeration is known by its items and their numbers. -/
theorem enumerate_eq_iff {arena : Arena ι α} {pairs : List (ι × α)} :
    arena.enumerate = pairs ↔
      pairs.map (fun (position, item) => (item, Position.toNat position)) =
        arena.toList.zipIdx := by
  rw [← enumerate_eq_zipIdx]
  constructor
  · rintro rfl
    rfl
  · intro sameNumbers
    refine ((List.map_inj_right ?_).mp sameNumbers).symm
    rintro ⟨first, item⟩ ⟨second, other⟩ same
    simp only [Prod.mk.injEq] at same
    exact Prod.ext (Position.toNat_injective same.2) same.1

/-- The pairs of an enumeration are the positions with what stands there. -/
theorem mem_enumerate_iff {arena : Arena ι α} {position : ι} {item : α} :
    (position, item) ∈ arena.enumerate ↔ arena.get? position = some item := by
  have numbered : (item, Position.toNat position) ∈ arena.toList.zipIdx ↔
      arena.toList[Position.toNat position]? = some item := List.mem_zipIdx_iff_getElem?
  rw [get?_eq_getElem?, ← numbered, ← enumerate_eq_zipIdx, List.mem_map]
  constructor
  · intro listed
    exact ⟨_, listed, rfl⟩
  · rintro ⟨⟨other, found⟩, listed, same⟩
    simp only [Prod.mk.injEq] at same
    rcases same with ⟨rfl, sameNumber⟩
    exact Position.toNat_injective sameNumber ▸ listed

theorem enumerate_of_push {arena pushed : Arena ι α} {item : α} {position : ι}
    (pushes : arena.push item = .ok (pushed, position)) :
    pushed.enumerate = arena.enumerate ++ [(position, item)] := by
  rcases push_eq_ok_iff.mp pushes with ⟨_, items, number⟩
  apply enumerate_eq_iff.mpr
  rw [items, List.map_append, enumerate_eq_zipIdx, List.zipIdx_append]
  simp [number]

/-- A write replaces the item listed with its position, if there is one. -/
theorem enumerate_set (arena : Arena ι α) (position : ι) (item : α) :
    (arena.set position item).enumerate =
      arena.enumerate.map fun (other, old) =>
        (other, if Position.toNat other = Position.toNat position then item else old) := by
  apply List.ext_getElem
  · simp [enumerate, set]
  · intro n inRange _
    have inUse : n < arena.items.size := by simpa [enumerate, set] using inRange
    simp only [enumerate, set, List.getElem_mapFinIdx, List.getElem_map, Array.getElem_toList,
      Position.toNat_ofNat, Array.getElem_setIfInBounds inUse]
    simp only [eq_comm]

/-- A write reaches its own position and no other. -/
theorem get?_set (arena : Arena ι α) (position other : ι) (item : α) :
    (arena.set position item).get? other =
      if Position.toNat other = Position.toNat position then (arena.get? other).map fun _ => item
      else arena.get? other := by
  rw [get?_eq_getElem?, get?_eq_getElem?, toList_set, List.getElem?_set]
  split
  next same =>
    rw [if_pos same.symm, same]
    split
    next inUse => simp [List.getElem?_eq_getElem inUse]
    next outside => simp [List.getElem?_eq_none (Nat.le_of_not_lt outside)]
  next differs => rw [if_neg (Ne.symm differs)]

theorem read_eq_ok_iff {arena : Arena ι α} {position : ι} {item : α} :
    arena.read position = .ok item ↔ arena.get? position = some item := by
  unfold read
  cases arena.get? position <;> simp

theorem read_eq_error_iff {arena : Arena ι α} {position : ι} {fault : Fault} :
    arena.read position = .error fault ↔
      arena.get? position = none ∧ fault = .outside arena.size (Position.toNat position) := by
  unfold read
  cases arena.get? position <;> simp [eq_comm]

theorem write_eq_ok_iff {arena written : Arena ι α} {position : ι} {item : α} :
    arena.write position item = .ok written ↔
      arena.get? position ≠ none ∧ written = arena.set position item := by
  unfold write
  cases arena.get? position <;> simp [eq_comm]

theorem write_eq_error_iff {arena : Arena ι α} {position : ι} {item : α} {fault : Fault} :
    arena.write position item = .error fault ↔
      arena.get? position = none ∧ fault = .outside arena.size (Position.toNat position) := by
  unfold write
  cases arena.get? position <;> simp [eq_comm]

end Arena

end Symtab
