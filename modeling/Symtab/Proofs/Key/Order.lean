import Mathlib.Data.Finset.Card
import Mathlib.Data.List.Induction
import Mathlib.Data.List.SplitBy
import Symtab.Key
import Symtab.Proofs.TextBytes

/-!
# The order of keys

Keys are compared by the numbers of their files, then of their sections, then by the bytes of their
names. This is a strict total order, in which only a key itself compares as equal to it. So a list
of keys has exactly one arrangement in this order, and sorting finds it, however the list was
arranged before. Equal keys are neighbours there, so that there are as many runs of equal neighbours
as different keys.
-/

namespace Symtab.Key

/-- A key stands in front of another: its file has the smaller number, or in the same file its
section, or in the same section its name has the smaller bytes. -/
inductive Precedes (first second : Key) : Prop where
  | byFile (smaller : first.fileId.toInt < second.fileId.toInt)
  | bySection (sameFile : first.fileId = second.fileId)
      (smaller : first.sectionId.toInt < second.sectionId.toInt)
  | byName (sameFile : first.fileId = second.fileId)
      (sameSection : first.sectionId = second.sectionId)
      (smaller : first.name.toUTF8.toList < second.name.toUTF8.toList)

variable {first second third : Key}

theorem compare_eq_then (first second : Key) :
    compare first second = (compare first.fileId second.fileId).then
      ((compare first.sectionId second.sectionId).then (compare first.name second.name)) := rfl

theorem compare_eq_lt_iff : compare first second = .lt ↔ first.Precedes second := by
  have stages : compare first second = .lt ↔
      first.fileId < second.fileId ∨ first.fileId = second.fileId ∧
        (first.sectionId < second.sectionId ∨ first.sectionId = second.sectionId ∧
          first.name < second.name) := by
    have smallerName : compare first.name second.name = .lt ↔ first.name < second.name :=
      compareOfLessAndEq_eq_lt
    simp only [compare_eq_then, Ordering.then_eq_lt, Std.compare_eq_lt,
      Std.LawfulEqCmp.compare_eq_iff_eq, smallerName]
  rw [stages, Int32.lt_iff_toInt_lt, Int32.lt_iff_toInt_lt, ← Storage.bytes_lt_iff]
  constructor
  · rintro (smaller | ⟨sameFile, smaller | ⟨sameSection, smaller⟩⟩)
    · exact .byFile smaller
    · exact .bySection sameFile smaller
    · exact .byName sameFile sameSection smaller
  · intro precedes
    cases precedes with
    | byFile smaller => exact .inl smaller
    | bySection sameFile smaller => exact .inr ⟨sameFile, .inl smaller⟩
    | byName sameFile sameSection smaller => exact .inr ⟨sameFile, .inr ⟨sameSection, smaller⟩⟩

theorem compare_eq_gt_iff : compare first second = .gt ↔ second.Precedes first := by
  rw [Std.OrientedCmp.gt_iff_lt, compare_eq_lt_iff]

theorem compare_eq_eq_iff : compare first second = .eq ↔ first = second :=
  Std.LawfulEqCmp.compare_eq_iff_eq

instance (first second : Key) : Decidable (first.Precedes second) :=
  decidable_of_iff _ compare_eq_lt_iff

theorem isLE_compare_iff : (compare first second).isLE = true ↔ ¬ second.Precedes first := by
  rw [← compare_eq_gt_iff]
  cases compare first second <;> simp

theorem Precedes.trans (earlier : first.Precedes second) (later : second.Precedes third) :
    first.Precedes third :=
  compare_eq_lt_iff.mp
    (Std.TransCmp.lt_trans (compare_eq_lt_iff.mpr earlier) (compare_eq_lt_iff.mpr later))

theorem not_precedes_self (key : Key) : ¬ key.Precedes key := by
  rw [← compare_eq_lt_iff, compare_eq_eq_iff.mpr rfl]
  simp

theorem Precedes.asymm (precedes : first.Precedes second) : ¬ second.Precedes first :=
  fun reversed => not_precedes_self first (precedes.trans reversed)

theorem Precedes.ne (precedes : first.Precedes second) : first ≠ second := by
  rintro rfl
  exact not_precedes_self first precedes

theorem precedes_trichotomy (first second : Key) :
    first.Precedes second ∨ first = second ∨ second.Precedes first := by
  cases order : compare first second with
  | lt => exact .inl (compare_eq_lt_iff.mp order)
  | eq => exact .inr (.inl (compare_eq_eq_iff.mp order))
  | gt => exact .inr (.inr (compare_eq_gt_iff.mp order))

/-- No key of a list stands behind one that it precedes. -/
def InOrder (keys : List Key) : Prop :=
  keys.Pairwise fun earlier later => ¬ later.Precedes earlier

instance (keys : List Key) : Decidable (InOrder keys) :=
  inferInstanceAs (Decidable (keys.Pairwise _))

theorem sort_perm (keys : List Key) : (sort keys).Perm keys :=
  List.mergeSort_perm keys _

theorem inOrder_sort (keys : List Key) : InOrder (sort keys) := by
  have sorted : (sort keys).Pairwise fun earlier later => (compare earlier later).isLE = true := by
    apply List.pairwise_mergeSort
    · intro first second third
      exact Std.TransCmp.isLE_trans
    · intro first second
      rw [Bool.or_eq_true, isLE_compare_iff, isLE_compare_iff]
      rcases precedes_trichotomy first second with earlier | rfl | later
      · exact .inl earlier.asymm
      · exact .inl (not_precedes_self first)
      · exact .inr later.asymm
  exact sorted.imp isLE_compare_iff.mp

/-- There is only one way to put keys in order. -/
theorem InOrder.eq_of_perm {keys others : List Key} (inOrder : InOrder keys)
    (othersInOrder : InOrder others) (perm : keys.Perm others) : keys = others := by
  refine List.Perm.eq_of_pairwise ?_ inOrder othersInOrder perm
  intro key other _ _ notBehind notInFront
  rcases precedes_trichotomy key other with earlier | same | later
  · exact absurd earlier notInFront
  · exact same
  · exact absurd later notBehind

theorem eq_sort_iff {keys others : List Key} :
    others = sort keys ↔ others.Perm keys ∧ InOrder others := by
  constructor
  · rintro rfl
    exact ⟨sort_perm keys, inOrder_sort keys⟩
  · rintro ⟨perm, inOrder⟩
    exact inOrder.eq_of_perm (inOrder_sort keys) (perm.trans (sort_perm keys).symm)

theorem sort_eq_sort_iff {keys others : List Key} : sort others = sort keys ↔ others.Perm keys := by
  rw [eq_sort_iff]
  constructor
  · rintro ⟨perm, _⟩
    exact (sort_perm others).symm.trans perm
  · intro perm
    exact ⟨(sort_perm others).trans perm, inOrder_sort others⟩

theorem distinctCount_eq_card (keys : List Key) : distinctCount keys = keys.toFinset.card := by
  induction keys using List.reverseRecOn with
  | nil => rfl
  | append_singleton keys key ih =>
      rw [distinctCount] at ih ⊢
      rw [List.eraseDups_append, List.length_append, ih, List.toFinset_append]
      by_cases repeated : key ∈ keys
      · simp [List.removeAll, repeated]
      · simp [List.removeAll, repeated, List.eraseDups_cons]

/-- The runs of equal neighbours in a list. -/
def runs (keys : List Key) : List (List Key) := keys.splitBy (· == ·)

theorem length_splitBy_loop {α : Type} (same : α → α → Bool) (items : List α) (item : α)
    (run : List α) (done : List (List α)) :
    (List.splitBy.loop same items item run done).length =
      (List.splitBy.loop same items item [] []).length + done.length := by
  induction items generalizing item run done with
  | nil =>
      simp only [List.splitBy.loop, List.length_reverse, List.length_cons, List.length_nil]
      omega
  | cons next items ih =>
      rw [List.splitBy.loop, List.splitBy.loop]
      split
      · rw [ih, ih _ [item]]
        rfl
      · rw [ih, ih _ _ [_]]
        simp only [List.length_cons, List.length_nil]
        omega

/-- A key that its neighbour repeats is in the same run. -/
theorem length_runs_cons (key : Key) (rest : List Key) :
    (runs (key :: rest)).length =
      (runs rest).length + if rest.head? = some key then 0 else 1 := by
  cases rest with
  | nil => rfl
  | cons next rest =>
      rw [runs, runs, List.splitBy, List.splitBy, List.splitBy.loop]
      simp only [List.head?_cons, Option.some.injEq]
      split
      next same =>
        rw [length_splitBy_loop, if_pos (beq_iff_eq.mp same).symm]
        rfl
      next different =>
        rw [length_splitBy_loop, if_neg (Ne.symm (ne_of_beq_false different))]
        rfl

/-- In order, a key is repeated only by its neighbour. -/
theorem InOrder.mem_iff_head? {key : Key} {rest : List Key} (inOrder : InOrder (key :: rest)) :
    key ∈ rest ↔ rest.head? = some key := by
  refine ⟨fun keyMem => ?_, List.mem_of_mem_head?⟩
  cases rest with
  | nil => cases keyMem
  | cons next rest =>
      rcases List.pairwise_cons.mp inOrder with ⟨keyFirst, restInOrder⟩
      rcases List.mem_cons.mp keyMem with rfl | inRest
      · rfl
      · have notBehind := (List.pairwise_cons.mp restInOrder).1 key inRest
        rcases precedes_trichotomy key next with earlier | rfl | later
        · exact absurd earlier notBehind
        · rfl
        · exact absurd later (keyFirst next List.mem_cons_self)

theorem InOrder.length_runs {keys : List Key} (inOrder : InOrder keys) :
    (runs keys).length = keys.toFinset.card := by
  induction keys with
  | nil => rfl
  | cons key rest ih =>
      rw [length_runs_cons, ih inOrder.of_cons, List.toFinset_cons]
      simp only [← inOrder.mem_iff_head?]
      split
      next repeated => simp [repeated]
      next fresh => simp [fresh]

theorem length_runs_sort (keys : List Key) : (runs (sort keys)).length = distinctCount keys := by
  rw [(inOrder_sort keys).length_runs, distinctCount_eq_card,
    List.toFinset_eq_of_perm _ _ (sort_perm keys)]

/-- Of two keys the first precedes the second or is the same or is preceded by it, and only one of
these, which is the one that comparing them gives; and preceding is transitive. Sorting arranges a
list in the one way in which no key stands behind one that it precedes, so that two lists sort alike
exactly when they are rearrangements of each other. The sorted list has as many runs of equal
neighbours as there are different keys in the list. -/
theorem sorted_by_total_order :
    (∀ first second : Key,
      (first.Precedes second ∨ first = second ∨ second.Precedes first) ∧
      ¬ (first.Precedes second ∧ first = second) ∧
      ¬ (first = second ∧ second.Precedes first) ∧
      ¬ (first.Precedes second ∧ second.Precedes first) ∧
      (compare first second = .lt ↔ first.Precedes second) ∧
      (compare first second = .eq ↔ first = second) ∧
      (compare first second = .gt ↔ second.Precedes first)) ∧
    (∀ first second third : Key,
      first.Precedes second → second.Precedes third → first.Precedes third) ∧
    ∀ keys : List Key,
      (∀ others, others = sort keys ↔ others.Perm keys ∧ InOrder others) ∧
      (∀ others, sort others = sort keys ↔ others.Perm keys) ∧
      distinctCount keys = keys.toFinset.card ∧
      (runs (sort keys)).length = distinctCount keys := by
  refine ⟨fun first second => ?_, fun _ _ _ => Precedes.trans, fun keys => ?_⟩
  · refine ⟨precedes_trichotomy first second, ?_, ?_, ?_, compare_eq_lt_iff, compare_eq_eq_iff,
      compare_eq_gt_iff⟩
    · rintro ⟨earlier, same⟩
      exact earlier.ne same
    · rintro ⟨same, later⟩
      exact later.ne same.symm
    · rintro ⟨earlier, later⟩
      exact earlier.asymm later
  · exact ⟨fun _ => eq_sort_iff, fun _ => sort_eq_sort_iff, distinctCount_eq_card keys,
      length_runs_sort keys⟩

/-- A name known everywhere comes before the names of a file, and the number of the file counts for
more than the name. -/
theorem sorted_by_total_order_of_three :
    let everywhere : Key := ⟨-1, -1, "mmm"⟩
    let inZero : Key := ⟨0, -1, "@zzz"⟩
    let inOne : Key := ⟨1, -1, "@aaa"⟩
    resolve "mmm" ⟨3, 3⟩ = .ok everywhere ∧ resolve "@zzz" ⟨0, 5⟩ = .ok inZero ∧
      resolve "@aaa" ⟨1, 5⟩ = .ok inOne ∧
      everywhere.Precedes inZero ∧ inZero.Precedes inOne ∧ everywhere.Precedes inOne ∧
      sort [inOne, inZero, everywhere, inZero] = [everywhere, inZero, inZero, inOne] ∧
      (runs [everywhere, inZero, inZero, inOne]).length = 3 := by
  intro everywhere inZero inOne
  rcases sorted_by_total_order with ⟨_, transitive, lists⟩
  rcases lists [inOne, inZero, everywhere, inZero] with ⟨eqSorted, _, _, runCount⟩
  have zeroLater : everywhere.Precedes inZero := by decide
  have oneLater : inZero.Precedes inOne := by decide
  have sorted : [everywhere, inZero, inZero, inOne] = sort [inOne, inZero, everywhere, inZero] :=
    (eqSorted _).mpr (by decide)
  refine ⟨resolve_eq_ok_iff.mpr (by decide), resolve_eq_ok_iff.mpr (by decide),
    resolve_eq_ok_iff.mpr (by decide), zeroLater, oneLater,
    transitive _ _ _ zeroLater oneLater, sorted.symm, ?_⟩
  rw [sorted, runCount]
  decide

end Symtab.Key
