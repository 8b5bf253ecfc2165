import Symtab.Proofs.Table.LabelWrites

/-!
# Values of labels

Whoever uses the handle of a label can keep notes of it: the writes through the handle since it was
issued. The notes are begun when a call for a label is answered with the handle for the first time,
and torn up when the table is cleared. They are taken from operations and answers alone, and in
every run they tell whether the handle is in use and which value its label has: the value that was
last set, or else the first one that was defined.
-/

namespace Symtab

namespace ValueWrite

/-- The value by which a write defines a label. -/
def defined? : ValueWrite → Option Int64
  | define value => some value
  | set _ => none

/-- The value to which a write sets a label. -/
def set? : ValueWrite → Option Int64
  | define _ => none
  | set value => some value

/-- The value that some writes leave in a label which had none: the one that was set last, or else
the one that was defined first. -/
def settled (writes : List ValueWrite) : Option Int64 :=
  (writes.filterMap set?).getLast?.or (writes.filterMap defined?).head?

theorem settled_concat (writes : List ValueWrite) (write : ValueWrite) :
    settled (writes ++ [write]) = write.apply (settled writes) := by
  cases write with
  | define value => simp [settled, set?, defined?, apply, List.head?_append]
  | set value => simp [settled, set?, defined?, apply]

/-- Every write settles a value. -/
theorem settled_eq_none_iff {writes : List ValueWrite} : settled writes = none ↔ writes = [] := by
  rcases List.eq_nil_or_concat writes with rfl | ⟨earlier, last, rfl⟩
  · simp [settled]
  · rw [List.concat_eq_append, settled_concat]
    cases last <;> simp [apply]

end ValueWrite

/-- The notes about a handle after an operation and its answer. -/
def noteWrite (id : LabelId) (notes : Option (List ValueWrite)) :
    Operation × Answer → Option (List ValueWrite)
  | (.clear, _) => none
  | (.labelFor _ _, .labelId (.ok issued)) => notes.or (if issued = id then some [] else none)
  | (operation, _) => notes.map (· ++ (operation.writeTo? id).toList)

/-- The writes through a handle since it was issued, unless it was not issued since the last
clearing. -/
def writesThrough (id : LabelId) (transcript : List (Operation × Answer)) :
    Option (List ValueWrite) :=
  transcript.foldl (noteWrite id) none

namespace Table

/-- The operations of a run with their answers. -/
def transcript (table : Table) (operations : List Operation) : List (Operation × Answer) :=
  operations.zip ((table.run operations).map Outcome.answer)

variable {table : Table} {id : LabelId} {notes : Option (List ValueWrite)}

theorem WellFormed.perform (wellFormed : table.WellFormed) (operation : Operation) :
    (table.perform operation).table.WellFormed :=
  wellFormed.of_step (step_perform table operation)

theorem Initial.label?_eq_none (initial : table.Initial) : table.label? id = none := by
  rcases initial with rfl | ⟨settings, made⟩
  · rfl
  · rw [(ofSettings_eq_ok_iff.mp made).2]
    rfl

/-- Notes that agree with a label before an operation do so afterwards. -/
theorem WellFormed.map_value_perform (wellFormed : table.WellFormed)
    (agree : (table.label? id).map Label.value = notes.map ValueWrite.settled)
    (operation : Operation) :
    ((table.perform operation).table.label? id).map Label.value =
      (noteWrite id notes (operation, (table.perform operation).answer)).map
        ValueWrite.settled := by
  let change (old : Option Int64) : Option Int64 :=
    (operation.writeTo? id).elim old (·.apply old)
  have settledNext : ∀ writes, ValueWrite.settled (writes ++ (operation.writeTo? id).toList) =
      change (ValueWrite.settled writes) := by
    intro writes
    cases written : operation.writeTo? id with
    | none => simp [change, written]
    | some write => simp [change, written, ValueWrite.settled_concat]
  have agreeNext : ((table.label? id).map (operation.written id)).map Label.value =
      (notes.map (· ++ (operation.writeTo? id).toList)).map ValueWrite.settled :=
    calc ((table.label? id).map (operation.written id)).map Label.value
        = ((table.label? id).map Label.value).map change := by
          rw [Option.map_map, Option.map_map]
          rfl
      _ = (notes.map ValueWrite.settled).map change := by rw [agree]
      _ = (notes.map (· ++ (operation.writeTo? id).toList)).map ValueWrite.settled := by
          rw [Option.map_map, Option.map_map]
          exact congrArg (notes.map ·) (funext fun writes => (settledNext writes).symm)
  cases operation with
  | clear => rfl
  | labelFor name context =>
      change ((table.labelFor name context).table.label? id).map Label.value =
        (noteWrite id notes (_, .labelId (table.labelFor name context).answer)).map _
      rw [wellFormed.label?_labelFor, Option.map_or, agree]
      cases answer : (table.labelFor name context).answer with
      | error refusal => simp [noteWrite, Operation.writeTo?]
      | ok issued =>
          simp only [noteWrite, Except.ok.injEq, Option.map_or]
          split <;> rfl
  | _ =>
      rw [label?_perform rfl (by simp)]
      exact agreeNext

/-- Notes that agree with a label keep agreeing with it. They are taken from the left, so this is
about all notes that agree so far. -/
theorem WellFormed.map_value_after (wellFormed : table.WellFormed)
    (agree : (table.label? id).map Label.value = notes.map ValueWrite.settled)
    (operations : List Operation) :
    ((table.after operations).label? id).map Label.value =
      ((table.transcript operations).foldl (noteWrite id) notes).map ValueWrite.settled := by
  induction operations generalizing table notes with
  | nil => exact agree
  | cons operation operations ih =>
      exact ih (wellFormed.perform operation) (wellFormed.map_value_perform agree operation)

/-- A label without a value takes the value by which it is defined. -/
theorem answer_defineLabel_of_undefined {label : Label} (found : table.label? id = some label)
    (undefined : label.value = none) (value : Int64) :
    (table.defineLabel id value).answer = .written { label with value := some value } := by
  simp [defineLabel, found, Label.define, Label.isDefined, undefined]

/-- A label with a value refuses to be defined, under its name, and nothing changes. -/
theorem defineLabel_of_defined {label : Label} (found : table.label? id = some label)
    (isDefined : label.value ≠ none) (value : Int64) :
    table.defineLabel id value =
      { answer := .refused (.labelRedefined label.name) label, table } := by
  have hasValue : label.isDefined = true := Option.isSome_iff_ne_none.mpr isDefined
  simp [defineLabel, found, Label.define, hasValue]

theorem table_perform_of_absent {operation : Operation} (writes : operation.writesTo id = true)
    (absent : table.label? id = none) : (table.perform operation).table = table := by
  rcases Option.isSome_iff_exists.mp writes with ⟨write, writesThis⟩
  rw [table_perform_of_writeTo? writesThis, absent]

theorem WellFormed.label?_perform_of_elsewhere (wellFormed : table.WellFormed)
    {operation : Operation} (noClear : operation.isClear = false)
    (elsewhere : operation.writesTo id = false) {label : Label}
    (found : table.label? id = some label) :
    (table.perform operation).table.label? id = some label := by
  cases operation with
  | labelFor name context =>
      change (table.labelFor name context).table.label? id = some label
      rw [wellFormed.label?_labelFor, found, Option.some_or]
  | _ => rw [label?_perform noClear (by simp), found, Option.map_some,
      Operation.written_eq_self elsewhere]

/-- In every run the notes about a handle tell whether it is in use and which value its label has.
A label can be defined exactly as long as nothing was written through its handle, and is refused
under its name from then on. A write reaches the value of the label of its handle and nothing else,
and nothing at all if the handle is not in use; no other operation but clearing changes the value.
Leaving out all writes through a handle changes no other outcome of the run. -/
theorem label_values_follow_writes {start : Table} (initial : start.Initial)
    (operations : List Operation) (id : LabelId) :
    let table := start.after operations
    let writes? := writesThrough id (start.transcript operations)
    let withoutWrites := start.after (operations.filter (!·.writesTo id))
    (table.label? id).map Label.value = writes?.map ValueWrite.settled ∧
    (∀ label, table.label? id = some label →
      (label.value = none ↔ writes? = some []) ∧
      ∀ value,
        (label.value = none →
          (table.defineLabel id value).answer = .written { label with value := some value }) ∧
        (label.value ≠ none → table.defineLabel id value =
          { answer := .refused (.labelRedefined label.name) label, table })) ∧
    (∀ write : Operation, write.writesTo id = true →
      AgreeExcept id table (table.perform write).table ∧
      (table.label? id = none → (table.perform write).table = table)) ∧
    (∀ operation : Operation, operation.isClear = false → operation.writesTo id = false →
      ∀ label, table.label? id = some label →
        (table.perform operation).table.label? id = some label) ∧
    AgreeExcept id withoutWrites table ∧
    ∀ operation : Operation, operation.writesTo id = false → operation.showsValueOf id = false →
      SameOutcome id (withoutWrites.perform operation) (table.perform operation) := by
  intro table writes? withoutWrites
  have wellFormed : table.WellFormed := (initial.reachable.after operations).wellFormed
  have valueEq : (table.label? id).map Label.value = writes?.map ValueWrite.settled :=
    initial.reachable.wellFormed.map_value_after (by rw [initial.label?_eq_none]; rfl) operations
  have agree : AgreeExcept id withoutWrites table :=
    (AgreeExcept.refl id start).after_filter operations
  refine ⟨valueEq, ?_, ?_, ?_, agree, ?_⟩
  · intro label found
    refine ⟨?_, ?_⟩
    · rw [found, Option.map_some] at valueEq
      rcases Option.map_eq_some_iff.mp valueEq.symm with ⟨writes, noted, settled⟩
      rw [← settled, ValueWrite.settled_eq_none_iff, noted, Option.some.injEq]
    · intro value
      exact ⟨fun undefined => answer_defineLabel_of_undefined found undefined value,
        fun isDefined => defineLabel_of_defined found isDefined value⟩
  · intro write writes
    exact ⟨table.agreeExcept_perform writes, table_perform_of_absent writes⟩
  · intro operation noClear elsewhere label found
    exact wellFormed.label?_perform_of_elsewhere noClear elsewhere found
  · intro operation elsewhere hidden
    exact agree.perform_hidden elsewhere hidden

/-- The first label is defined and then refuses to be defined again. The second one is set between
two calls for it from different sections, refuses to be defined and is set again. What was written
before the table was cleared does not count. -/
theorem label_values_follow_writes_redefined :
    let operations : List Operation :=
      [.labelFor "old" ⟨0, 0⟩, .setLabelValue ⟨0⟩ 9, .clear, .setLabelValue ⟨0⟩ 5,
        .labelFor "start" ⟨0, 0⟩, .labelFor "@loop" ⟨1, 0⟩, .defineLabel ⟨0⟩ 3,
        .defineLabel ⟨0⟩ 4, .setLabelValue ⟨1⟩ 6, .labelFor "@loop" ⟨1, 7⟩, .defineLabel ⟨1⟩ 8,
        .setLabelValue ⟨1⟩ 7]
    let table := ({} : Table).after operations
    Initial {} ∧ (table.label? ⟨0⟩).map Label.value = some (some 3) ∧
      (table.label? ⟨1⟩).map Label.value = some (some 7) ∧
      table.defineLabel ⟨0⟩ 4 =
        { answer := .refused (.labelRedefined "start") ⟨"start", some 3⟩, table } ∧
      (table.perform (.setLabelValue ⟨2⟩ 1)).table = table := by
  intro operations table
  have initial : Initial {} := Or.inl rfl
  have firstNotes : writesThrough ⟨0⟩ (({} : Table).transcript operations) =
      some [.define 3, .define 4] := by
    decide +kernel
  have secondNotes : writesThrough ⟨1⟩ (({} : Table).transcript operations) =
      some [.set 6, .define 8, .set 7] := by
    decide +kernel
  have found : table.label? ⟨0⟩ = some ⟨"start", some 3⟩ := by decide +kernel
  rcases label_values_follow_writes initial operations ⟨0⟩ with ⟨firstValue, definable, _⟩
  rcases label_values_follow_writes initial operations ⟨1⟩ with ⟨secondValue, _⟩
  rcases label_values_follow_writes initial operations ⟨2⟩ with ⟨_, _, unreached, _⟩
  refine ⟨initial, ?_, ?_, ?_, ?_⟩
  · rw [firstValue, firstNotes]
    rfl
  · rw [secondValue, secondNotes]
    rfl
  · exact ((definable _ found).2 4).2 (by simp)
  · exact (unreached (.setLabelValue ⟨2⟩ 1) (by decide)).2 (by decide +kernel)

end Table

end Symtab
