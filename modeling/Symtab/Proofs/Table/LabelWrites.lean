import Symtab.Proofs.Table.FreshName

/-!
# Writes to labels

A label gets its value through its handle, by definition or by setting it. Such a write reaches the
value of this one label and nothing else. So two tables that agree except for this value still do
after the same operation on both, and as long as the value itself is not asked for nobody can tell
them apart. It follows for whole runs that leaving out the writes through one handle changes no
other answer.
-/

namespace Symtab

/-- A value written through the handle of a label. -/
inductive ValueWrite where
  /-- Takes effect only on a label without a value. -/
  | define (value : Int64)
  | set (value : Int64)
  deriving DecidableEq

/-- The value of a label after a write. -/
def ValueWrite.apply (old : Option Int64) : ValueWrite → Option Int64
  | define value => old.or (some value)
  | set value => some value

namespace Operation

/-- What an operation writes through a handle. -/
def writeTo? (id : LabelId) : Operation → Option ValueWrite
  | defineLabel target value => if target = id then some (.define value) else none
  | setLabelValue target value => if target = id then some (.set value) else none
  | _ => none

/-- Whether an operation writes through a handle. -/
def writesTo (id : LabelId) (operation : Operation) : Bool := (operation.writeTo? id).isSome

/-- Whether the answer to an operation may show the value of a label. -/
def showsValueOf (id : LabelId) : Operation → Bool
  | label target => target = id
  | labels | listing | listingWithin _ | exportListing .. => true
  | _ => false

/-- A label after an operation, whose handle is given. -/
def written (operation : Operation) (id : LabelId) (label : Label) : Label :=
  { label with value := (operation.writeTo? id).elim label.value (·.apply label.value) }

theorem written_eq_self {operation : Operation} {id : LabelId}
    (elsewhere : operation.writesTo id = false) (label : Label) :
    operation.written id label = label := by
  have noWrite : operation.writeTo? id = none := by simpa [writesTo] using elsewhere
  rw [written, noWrite, Option.elim_none]

/-- An operation writes through one handle at most. -/
theorem writesTo_of_ne {operation : Operation} {id other : LabelId}
    (writes : operation.writesTo id = true) (differs : other ≠ id) :
    operation.writesTo other = false := by
  cases operation with
  | defineLabel target value =>
      obtain rfl : target = id := by simpa [writesTo, writeTo?] using writes
      simp [writesTo, writeTo?, Ne.symm differs]
  | setLabelValue target value =>
      obtain rfl : target = id := by simpa [writesTo, writeTo?] using writes
      simp [writesTo, writeTo?, Ne.symm differs]
  | _ => cases writes

end Operation

namespace Table

variable {table : Table} {id : LabelId}

theorem label?_set {target : LabelId} {label : Label} (found : table.label? target = some label)
    (replaced : Label) :
    label? { table with labels := table.labels.set target replaced } id =
      if target = id then some replaced else table.label? id := by
  rw [label?, Arena.get?_set]
  by_cases same : target = id
  · subst same
    change table.labels.get? target = some label at found
    simp [found]
  · have differs : Position.toNat id ≠ Position.toNat target := fun sameNumber =>
      same (Position.toNat_injective sameNumber).symm
    rw [if_neg differs, if_neg same]
    rfl

theorem set_eq_self {label : Label} (found : table.label? id = some label) :
    { table with labels := table.labels.set id label } = table := by
  have sameLabels : table.labels.set id label = table.labels := by
    apply Arena.ext_toList
    rw [label?, Arena.get?_eq_getElem?] at found
    rcases List.getElem?_eq_some_iff.mp found with ⟨inUse, rfl⟩
    rw [Arena.toList_set, List.set_getElem_self]
  rw [sameLabels]

/-- A write replaces the value of the label of its handle, if there is one. -/
theorem table_perform_of_writeTo? {operation : Operation} {write : ValueWrite}
    (writes : operation.writeTo? id = some write) :
    (table.perform operation).table =
      match table.label? id with
      | none => table
      | some label =>
        { table with
          labels := table.labels.set id { label with value := write.apply label.value } } := by
  cases operation with
  | defineLabel target value =>
      simp only [Operation.writeTo?, Option.ite_none_right_eq_some, Option.some.injEq] at writes
      rcases writes with ⟨rfl, rfl⟩
      change (table.defineLabel target value).table = _
      cases found : table.label? target with
      | none => simp only [defineLabel, found]
      | some label =>
          rcases label with ⟨name, _ | earlier⟩
          · simp only [defineLabel, found]
            rfl
          · simp only [defineLabel, found]
            exact (set_eq_self found).symm
  | setLabelValue target value =>
      simp only [Operation.writeTo?, Option.ite_none_right_eq_some, Option.some.injEq] at writes
      rcases writes with ⟨rfl, rfl⟩
      change (table.setLabelValue target value).table = _
      cases found : table.label? target with
      | none => simp only [setLabelValue, found]
      | some label =>
          simp only [setLabelValue, found]
          rfl
  | _ => cases writes

theorem labels_declareEquation (table : Table) (name : String) (context : Context)
    (replacement : String) :
    (table.declareEquation name context replacement).table.labels = table.labels := by
  have call := table.equationCall name context replacement
  generalize table.declareEquation name context replacement = outcome at call ⊢
  cases call <;> rfl

/-- Asking for a label makes it if its handle is the answer and was not in use. -/
theorem WellFormed.label?_labelFor (wellFormed : table.WellFormed) (name : String)
    (context : Context) :
    (table.labelFor name context).table.label? id =
      (table.label? id).or
        (if (table.labelFor name context).answer = .ok id then some { name } else none) := by
  have call := table.labelCall name context
  generalize table.labelFor name context = outcome at call ⊢
  cases call with
  | invalid => simp
  | conflict => simp
  | full => simp
  | @known key other resolves bound =>
      by_cases same : other = id
      · subst same
        rcases wellFormed.suits key _ bound with ⟨label, found, _⟩
        simp [found]
      · simp [same]
  | @made key labels other resolves free pushes =>
      have notInUse : table.label? other = none := by
        rw [label?, Arena.get?_eq_none_iff, (Arena.push_eq_ok_iff.mp pushes).2.2]
      simp only [label?, Arena.get?_of_push pushes, Except.ok.injEq] at notInUse ⊢
      by_cases same : other = id
      · subst same
        simp [notInUse]
      · simp [same, Ne.symm same]

/-- Every operation but clearing and asking for a label leaves a label as what it has written
through the handle makes of it. -/
theorem label?_perform {operation : Operation} (noClear : operation.isClear = false)
    (noCall : ∀ name context, operation ≠ .labelFor name context) :
    (table.perform operation).table.label? id =
      (table.label? id).map (operation.written id) := by
  have unwritten : operation.writesTo id = false →
      (table.label? id).map (operation.written id) = table.label? id := by
    intro elsewhere
    rw [funext (Operation.written_eq_self elsewhere), Option.map_id']
  have ofWrite : ∀ target write, operation.writeTo? target = some write →
      (table.perform operation).table.label? id =
        (table.label? id).map (operation.written id) := by
    intro target write writes
    rw [table_perform_of_writeTo? writes]
    by_cases same : target = id
    · subst same
      cases found : table.label? target with
      | none => simp [found]
      | some label => simp [label?_set found, Operation.written, writes]
    · rw [unwritten (Operation.writesTo_of_ne (by simp [Operation.writesTo, writes])
        (Ne.symm same))]
      cases found : table.label? target with
      | none => rfl
      | some label => rw [label?_set found, if_neg same]
  cases operation with
  | clear => cases noClear
  | labelFor name context => exact absurd rfl (noCall name context)
  | defineLabel target value =>
      exact ofWrite target (.define value) (by simp [Operation.writeTo?])
  | setLabelValue target value =>
      exact ofWrite target (.set value) (by simp [Operation.writeTo?])
  | declareEquation name context replacement =>
      rw [unwritten rfl]
      change (table.declareEquation name context replacement).table.labels.get? id = _
      rw [labels_declareEquation]
      rfl
  | exportListing path destination =>
      rw [unwritten rfl]
      change (table.exportListing path destination).table.label? id = _
      rw [table_exportListing]
  | _ => rw [unwritten rfl]; rfl

/-- Tables with the same symbols and the same labels, up to the value of one label. -/
structure AgreeExcept (id : LabelId) (first second : Table) : Prop
    extends SameSymbols first second where
  counter_eq : second.counter = first.counter
  label?_eq : ∀ other, other ≠ id → second.label? other = first.label? other

theorem SameSymbols.symm {first second : Table} (same : first.SameSymbols second) :
    second.SameSymbols first :=
  ⟨same.settings_eq.symm, same.index_eq.symm, same.equations_eq.symm, same.names_eq.symm⟩

theorem SameSymbols.trans {first second third : Table} (same : first.SameSymbols second)
    (sameAgain : second.SameSymbols third) : first.SameSymbols third :=
  ⟨sameAgain.settings_eq.trans same.settings_eq, sameAgain.index_eq.trans same.index_eq,
    sameAgain.equations_eq.trans same.equations_eq, sameAgain.names_eq.trans same.names_eq⟩

/-- A write reaches the value of the label of its handle and nothing else. -/
theorem agreeExcept_perform {operation : Operation} (writes : operation.writesTo id = true) :
    AgreeExcept id table (table.perform operation).table := by
  have label?Eq : ∀ other, other ≠ id →
      (table.perform operation).table.label? other = table.label? other := by
    intro other differs
    have elsewhere := Operation.writesTo_of_ne writes differs
    rw [label?_perform, funext (Operation.written_eq_self elsewhere), Option.map_id']
    · cases operation <;> first | rfl | cases writes
    · rintro name context rfl
      cases writes
  have counterEq : (table.perform operation).table.counter = table.counter := by
    apply counter_perform
    constructor <;> rintro rfl <;> cases writes
  refine ⟨?_, counterEq, label?Eq⟩
  cases operation with
  | defineLabel target value => exact table.sameSymbols_defineLabel target value
  | setLabelValue target value => exact table.sameSymbols_setLabelValue target value
  | _ => cases writes

namespace AgreeExcept

variable {first second : Table}

theorem refl (id : LabelId) (table : Table) : AgreeExcept id table table :=
  ⟨.refl table, rfl, fun _ _ => rfl⟩

theorem trans {third : Table} (agree : AgreeExcept id first second)
    (agreeAgain : AgreeExcept id second third) : AgreeExcept id first third :=
  ⟨agree.toSameSymbols.trans agreeAgain.toSameSymbols,
    agreeAgain.counter_eq.trans agree.counter_eq,
    fun other differs => (agreeAgain.label?_eq other differs).trans (agree.label?_eq other differs)⟩

theorem exists_labels (agree : AgreeExcept id first second) :
    ∃ labels, second = { first with labels } := by
  refine ⟨second.labels, ?_⟩
  rcases agree with ⟨⟨settingsEq, indexEq, equationsEq, _⟩, counterEq, _⟩
  cases second
  simp only at settingsEq indexEq equationsEq counterEq
  simp only [settingsEq, indexEq, equationsEq, counterEq]

theorem size_labels_eq (agree : AgreeExcept id first second) :
    second.labels.size = first.labels.size := by
  simpa using congrArg List.length agree.names_eq

end AgreeExcept

/-- Outcomes with the same answer and the same events that leave tables which agree except for the
value of one label. -/
structure SameOutcome {α : Type} (id : LabelId) (first second : Outcome α) : Prop where
  answer_eq : second.answer = first.answer
  events_eq : second.events = first.events
  agree : AgreeExcept id first.table second.table

theorem SameOutcome.map {α β : Type} {first second : Outcome α} (change : α → β)
    (same : SameOutcome id first second) :
    SameOutcome id (first.map change) (second.map change) :=
  ⟨congrArg change same.answer_eq, same.events_eq, same.agree⟩

theorem firstFree_withLabels (table : Table) (labels : Arena LabelId Label) (budget : Nat)
    (number : UInt64) :
    firstFree { table with labels } budget number = table.firstFree budget number := by
  induction budget generalizing number with
  | zero => rfl
  | succ budget ih =>
      rw [firstFree, firstFree, ih]
      rfl

namespace AgreeExcept

variable {first second : Table}

theorem labelFor (agree : AgreeExcept id first second) (name : String) (context : Context) :
    SameOutcome id (first.labelFor name context) (second.labelFor name context) := by
  have sameSize := agree.size_labels_eq
  have sameEntry : ∀ key : Key, second.index[key]? = first.index[key]? := by
    simp [agree.index_eq]
  have call := first.labelCall name context
  generalize first.labelFor name context = outcome at call ⊢
  cases call with
  | invalid isInvalid =>
      rw [labelFor_of_invalid _ isInvalid]
      exact ⟨rfl, rfl, agree⟩
  | known resolves bound =>
      rw [labelFor_of_label resolves ((sameEntry _).trans bound)]
      exact ⟨rfl, rfl, agree⟩
  | conflict resolves bound =>
      rw [labelFor_of_equation resolves ((sameEntry _).trans bound)]
      exact ⟨rfl, rfl, agree⟩
  | full resolves free refuses =>
      have refusesToo := (Arena.push_of_size_eq sameSize _).1 _ refuses
      rw [labelFor_of_full resolves ((sameEntry _).trans free) refusesToo]
      exact ⟨rfl, rfl, agree⟩
  | made resolves free pushes =>
      rcases (Arena.push_of_size_eq sameSize _).2 _ _ pushes with ⟨otherLabels, otherPushes⟩
      rw [labelFor_of_push resolves ((sameEntry _).trans free) otherPushes]
      refine ⟨rfl, rfl, ⟨agree.settings_eq, ?_, agree.equations_eq, ?_⟩, agree.counter_eq, ?_⟩
      · simp only [agree.index_eq]
      · simp only [(Arena.push_eq_ok_iff.mp pushes).2.1, (Arena.push_eq_ok_iff.mp otherPushes).2.1,
          List.map_append, agree.names_eq]
      · intro other differs
        simp only [label?, Arena.get?_of_push pushes, Arena.get?_of_push otherPushes]
        exact if_congr Iff.rfl rfl (agree.label?_eq other differs)

theorem declareEquation (agree : AgreeExcept id first second) (name : String) (context : Context)
    (replacement : String) :
    SameOutcome id (first.declareEquation name context replacement)
      (second.declareEquation name context replacement) := by
  have sameEntry : ∀ key : Key, second.index[key]? = first.index[key]? := by
    simp [agree.index_eq]
  have call := first.equationCall name context replacement
  generalize first.declareEquation name context replacement = outcome at call ⊢
  cases call with
  | invalid isInvalid =>
      rw [declareEquation_of_invalid _ isInvalid]
      exact ⟨rfl, rfl, agree⟩
  | redeclared resolves bound =>
      rw [declareEquation_of_bound resolves ((sameEntry _).trans bound)]
      exact ⟨rfl, rfl, agree⟩
  | full resolves free refuses =>
      rw [← agree.equations_eq] at refuses
      rw [declareEquation_of_full resolves ((sameEntry _).trans free) refuses]
      exact ⟨rfl, rfl, agree⟩
  | made resolves free pushes =>
      rw [← agree.equations_eq] at pushes
      rw [declareEquation_of_push resolves ((sameEntry _).trans free) pushes]
      refine ⟨rfl, rfl, ⟨agree.settings_eq, ?_, rfl, agree.names_eq⟩, agree.counter_eq,
        agree.label?_eq⟩
      simp only [agree.index_eq]

theorem freshName (agree : AgreeExcept id first second) :
    SameOutcome id first.freshName second.freshName := by
  have sameNumber : second.freshNumber = first.freshNumber ∧
      second.passedOver = first.passedOver := by
    rcases agree.exists_labels with ⟨labels, rfl⟩
    rw [freshNumber, passedOver, firstFree_withLabels]
    exact ⟨rfl, rfl⟩
  refine ⟨?_, ?_, ⟨agree.settings_eq, agree.index_eq, agree.equations_eq, agree.names_eq⟩, ?_,
    agree.label?_eq⟩
  · rw [answer_freshName, answer_freshName, sameNumber.1, agree.settings_eq]
  · change second.passedOver.map _ = first.passedOver.map _
    rw [sameNumber.2]
  · rw [counter_freshName, counter_freshName, sameNumber.1]

theorem clear (agree : AgreeExcept id first second) : SameOutcome id first.clear second.clear := by
  refine ⟨rfl, ?_, ?_⟩
  · simp only [Table.clear, agree.size_labels_eq, agree.equations_eq]
  · simp only [Table.clear, agree.settings_eq]
    exact .refl id _

/-- The same write keeps the agreement, whichever label it reaches. -/
theorem perform_write (agree : AgreeExcept id first second) {operation : Operation}
    {target : LabelId} (writes : operation.writesTo target = true) :
    AgreeExcept id (first.perform operation).table (second.perform operation).table := by
  have firstAgrees := first.agreeExcept_perform writes
  have secondAgrees := second.agreeExcept_perform writes
  have noClear : operation.isClear = false := by cases operation <;> first | rfl | cases writes
  have noCall : ∀ name context, operation ≠ .labelFor name context := by
    rintro name context rfl
    cases writes
  refine ⟨?_, ?_, ?_⟩
  · exact (firstAgrees.toSameSymbols.symm.trans agree.toSameSymbols).trans
      secondAgrees.toSameSymbols
  · rw [secondAgrees.counter_eq, agree.counter_eq, firstAgrees.counter_eq]
  · intro other differs
    rw [label?_perform noClear noCall, label?_perform noClear noCall,
      agree.label?_eq other differs]

theorem defineLabel (agree : AgreeExcept id first second) {target : LabelId}
    (differs : target ≠ id) (value : Int64) :
    SameOutcome id (first.defineLabel target value) (second.defineLabel target value) := by
  have sameReport : (second.defineLabel target value).answer =
      (first.defineLabel target value).answer ∧
        (second.defineLabel target value).events = (first.defineLabel target value).events := by
    unfold Table.defineLabel
    rw [agree.label?_eq target differs]
    cases first.label? target with
    | none => exact ⟨rfl, rfl⟩
    | some label => cases defined : label.define value <;> simp only [defined, and_self]
  have writes : (Operation.defineLabel target value).writesTo target = true := by
    simp [Operation.writesTo, Operation.writeTo?]
  exact ⟨sameReport.1, sameReport.2, agree.perform_write writes⟩

theorem setLabelValue (agree : AgreeExcept id first second) {target : LabelId}
    (differs : target ≠ id) (value : Int64) :
    SameOutcome id (first.setLabelValue target value) (second.setLabelValue target value) := by
  have sameReport : (second.setLabelValue target value).answer =
      (first.setLabelValue target value).answer ∧
        (second.setLabelValue target value).events =
          (first.setLabelValue target value).events := by
    unfold Table.setLabelValue
    rw [agree.label?_eq target differs]
    cases first.label? target <;> exact ⟨rfl, rfl⟩
  have writes : (Operation.setLabelValue target value).writesTo target = true := by
    simp [Operation.writesTo, Operation.writeTo?]
  exact ⟨sameReport.1, sameReport.2, agree.perform_write writes⟩

/-- As long as the one value is neither written nor asked for, an operation has the same outcome on
both tables. -/
theorem perform_hidden (agree : AgreeExcept id first second) {operation : Operation}
    (elsewhere : operation.writesTo id = false) (hidden : operation.showsValueOf id = false) :
    SameOutcome id (first.perform operation) (second.perform operation) := by
  cases operation with
  | labelFor name context => exact (agree.labelFor name context).map Answer.labelId
  | declareEquation name context replacement =>
      exact (agree.declareEquation name context replacement).map Answer.equationId
  | freshName => exact agree.freshName.map Answer.text
  | clear => exact agree.clear.map fun _ => Answer.done
  | defineLabel target value =>
      have differs : target ≠ id := by
        simpa [Operation.writesTo, Operation.writeTo?] using elsewhere
      exact (agree.defineLabel differs value).map Answer.labelWrite
  | setLabelValue target value =>
      have differs : target ≠ id := by
        simpa [Operation.writesTo, Operation.writeTo?] using elsewhere
      exact (agree.setLabelValue differs value).map Answer.labelWrite
  | label target =>
      have differs : target ≠ id := by simpa [Operation.showsValueOf] using hidden
      exact ⟨congrArg Answer.label? (agree.label?_eq target differs), rfl, agree⟩
  | labels | listing | listingWithin | exportListing => cases hidden
  | _ =>
      rcases agree.exists_labels with ⟨labels, rfl⟩
      exact ⟨rfl, rfl, agree⟩

/-- Operations keep the agreement. Those that show the value change nothing. -/
theorem perform (agree : AgreeExcept id first second) (operation : Operation) :
    AgreeExcept id (first.perform operation).table (second.perform operation).table := by
  cases writes : operation.writesTo id with
  | true => exact agree.perform_write writes
  | false =>
      cases shows : operation.showsValueOf id with
      | false => exact (agree.perform_hidden writes shows).agree
      | true =>
          cases operation with
          | label | labels | listing | listingWithin => exact agree
          | exportListing path destination =>
              change AgreeExcept id (first.exportListing path destination).table
                (second.exportListing path destination).table
              rw [table_exportListing, table_exportListing]
              exact agree
          | _ => cases shows

/-- Leaving out the writes through one handle changes nothing but the value of its label. -/
theorem after_filter (agree : AgreeExcept id first second) (operations : List Operation) :
    AgreeExcept id (first.after (operations.filter (!·.writesTo id)))
      (second.after operations) := by
  induction operations generalizing first second with
  | nil => exact agree
  | cons operation operations ih =>
      cases writes : operation.writesTo id with
      | true =>
          rw [List.filter_cons_of_neg (by simp [writes])]
          exact ih (agree.trans (second.agreeExcept_perform writes))
      | false =>
          rw [List.filter_cons_of_pos (by simp [writes])]
          exact ih (agree.perform operation)

end AgreeExcept

end Table

end Symtab
