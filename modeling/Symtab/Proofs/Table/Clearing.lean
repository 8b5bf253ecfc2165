import Symtab.Proofs.Table.FirstDeclaration
import Symtab.Proofs.Table.FreshName

/-!
# Clearing

A cleared table is the table that its settings give anew: the settings of a table that a run leads
to are always allowed, and everything else is dropped. So no later operation can tell what was
declared before, which values labels had, or how many names were generated.

This goes for handles too, and it is the limit of what clearing can promise about them. A handle is
a number and nothing else. Since the numbers of labels start again at zero, a handle from before the
clearing is that of no label only until as many labels as its number says, and one more, have been
declared anew. From then on it is the handle of one of these.
-/

namespace Symtab.Table

open Declaration

theorem after_append (table : Table) (earlier later : List Operation) :
    table.after (earlier ++ later) = (table.after earlier).after later :=
  List.foldl_append

theorem settings_after (table : Table) (operations : List Operation) :
    (table.after operations).settings = table.settings := by
  induction operations generalizing table with
  | nil => rfl
  | cons operation operations ih =>
      exact (ih _).trans (step_perform table operation).settings_eq

/-- Whatever happened before a clearing, the table afterwards depends on the settings alone. -/
theorem after_clear (table : Table) (earlier later : List Operation) :
    table.after (earlier ++ .clear :: later) =
      ({ settings := table.settings } : Table).after later := by
  have cleared : ((table.after earlier).perform .clear).table = { settings := table.settings } :=
    congrArg (fun settings => ({ settings } : Table)) (table.settings_after earlier)
  rw [after_append]
  exact congrArg (·.after later) cleared

/-- The settings of a table that a run leads to give a table anew: the one that clearing leaves. -/
theorem Reachable.ofSettings_eq_clear {table : Table} (reachable : table.Reachable) :
    Table.ofSettings table.settings = .ok (table.perform .clear).table :=
  ofSettings_eq_ok_iff.mpr ⟨Settings.validate_eq_ok_iff.mpr reachable.allowed, rfl⟩

/-- After a clearing every run has the outcomes that it has on the table which the settings give
anew: the answers, the events and the tables after each operation are the same. So two tables with
the same settings cannot be told apart once they are cleared. -/
theorem clearing_forgets {table : Table} (reachable : table.Reachable) :
    (∃ fresh, Table.ofSettings table.settings = .ok fresh ∧
      ∀ later, (table.perform .clear).table.run later = fresh.run later) ∧
    ∀ other : Table, other.settings = table.settings →
      ∀ later, (other.perform .clear).table.run later = (table.perform .clear).table.run later := by
  refine ⟨⟨_, reachable.ofSettings_eq_clear, fun _ => rfl⟩, ?_⟩
  intro other sameSettings later
  have sameTable : (other.perform .clear).table = (table.perform .clear).table :=
    congrArg (fun settings => ({ settings } : Table)) sameSettings
  rw [sameTable]

/-- A label with a value, an equation and a generated name leave no trace. -/
theorem clearing_forgets_after_mixed_run :
    let table := ({} : Table).after
      [.labelFor "SIZE" ⟨0, 0⟩, .defineLabel ⟨0⟩ 7, .declareEquation "@n" ⟨1, 0⟩ "2", .freshName]
    let later : List Operation :=
      [.labels, .freshName, .declareEquation "SIZE" ⟨3, 1⟩ "16", .substitute "SIZE @n" ⟨1, 0⟩]
    table.Reachable ∧ table.size = 2 ∧ table.counter = 1 ∧
      Table.ofSettings table.settings = .ok {} ∧
      (table.perform .clear).table.run later = ({} : Table).run later := by
  intro table later
  have reachable : table.Reachable := Reachable.new.after _
  rcases (clearing_forgets reachable).1 with ⟨fresh, made, sameOutcomes⟩
  have isNew : Table.ofSettings table.settings = .ok {} := by
    rw [settings_after]
    rfl
  obtain rfl : fresh = {} := Except.ok.inj (made.symm.trans isNew)
  exact ⟨reachable, by decide +kernel, by decide +kernel, isNew, sameOutcomes later⟩

/-- A write to a label is answered as absent exactly when the handle is that of no label. -/
theorem answer_defineLabel_eq_absent_iff {table : Table} {id : LabelId} {value : Int64} :
    (table.defineLabel id value).answer = .absent ↔ table.label? id = none := by
  unfold defineLabel
  cases table.label? id with
  | none => simp
  | some label =>
      simp only [reduceCtorEq, iff_false]
      split <;> simp

theorem answer_setLabelValue_eq_absent_iff {table : Table} {id : LabelId} {value : Int64} :
    (table.setLabelValue id value).answer = .absent ↔ table.label? id = none := by
  unfold setLabelValue
  cases table.label? id <;> simp

/-- A handle is that of the label with its number among the labels declared since the last
clearing. -/
theorem name_label?_of_records {table : Table} {declarations : List Declaration}
    (records : table.Records declarations) (id : LabelId) :
    (table.label? id).map Label.name = (labelNames (firsts declarations))[Position.toNat id]? := by
  rw [← records.names_eq, List.getElem?_map, label?, Arena.get?_eq_getElem?]

/-- After a clearing a handle, whenever it was issued, is that of no label exactly as long as no
more labels than its number have been declared since. Then reading, defining and setting a value
find no label. From then on they find the label with this number among those declared since. -/
theorem label?_eq_none_iff_after_clear (settings : Settings) (earlier : List Operation)
    {later : List Operation} (room : HasRoom (requested later)) (id : LabelId) :
    let table := ({ settings } : Table).after (earlier ++ .clear :: later)
    let declared := labelNames (firsts (requested later))
    (table.label? id = none ↔ declared.length ≤ Position.toNat id) ∧
    (∀ value, (table.defineLabel id value).answer = .absent ↔
      declared.length ≤ Position.toNat id) ∧
    (∀ value, (table.setLabelValue id value).answer = .absent ↔
      declared.length ≤ Position.toNat id) ∧
    (table.label? id).map Label.name = declared[Position.toNat id]? := by
  intro table declared
  have isLater : table = ({ settings } : Table).after later := after_clear _ earlier later
  have nameEq : (table.label? id).map Label.name = declared[Position.toNat id]? := by
    rw [isLater]
    exact name_label?_of_records (records_after settings later room) id
  have absentIff : table.label? id = none ↔ declared.length ≤ Position.toNat id := by
    rw [← List.getElem?_eq_none_iff, ← nameEq, Option.map_eq_none_iff]
  refine ⟨absentIff, ?_, ?_, nameEq⟩
  · intro value
    exact answer_defineLabel_eq_absent_iff.trans absentIff
  · intro value
    exact answer_setLabelValue_eq_absent_iff.trans absentIff

/-- After a clearing and one label, the second handle from before is that of no label. -/
theorem label?_eq_none_iff_after_clear_second :
    let earlier : List Operation := [.labelFor "a" ⟨0, 0⟩, .labelFor "b" ⟨0, 0⟩]
    let later : List Operation := [.labelFor "c" ⟨0, 0⟩, .labelFor "c" ⟨1, 1⟩]
    HasRoom (requested later) ∧
      (({} : Table).after (earlier ++ .clear :: later)).label? ⟨1⟩ = none := by
  intro earlier later
  have room : HasRoom (requested later) := by
    intro kind
    cases kind <;> decide +kernel
  refine ⟨room, ?_⟩
  apply (label?_eq_none_iff_after_clear {} earlier room ⟨1⟩).1.mpr
  decide +kernel

/-- The handle of the label `old` is that of no label right after a clearing, but it is that of the
label `new` once this is declared, and a value set through the handle is the value of `new`. -/
theorem old_handle_reaches_new_label :
    let cleared := ({} : Table).after [.labelFor "old" ⟨0, 0⟩, .clear]
    let table := cleared.after [.labelFor "new" ⟨0, 0⟩]
    (({} : Table).labelFor "old" ⟨0, 0⟩).answer = .ok ⟨0⟩ ∧
      cleared.label? ⟨0⟩ = none ∧ table.label? ⟨0⟩ = some { name := "new" } ∧
      (table.setLabelValue ⟨0⟩ 5).table.label? ⟨0⟩ = some ⟨"new", some 5⟩ := by
  decide +kernel

end Symtab.Table
