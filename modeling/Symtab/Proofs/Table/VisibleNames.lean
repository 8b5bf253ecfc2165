import Symtab.Proofs.Table.DeclaredEquations
import Symtab.Proofs.Table.Standing

/-!
# Names of visible equations

Whether a context sees an equation is decided by the context of its declaration as it was given, and
whether a name is declared in a context by the key under which it is stored. Both agree: a context
that sees an equation finds its name declared, as the name of this equation, and no second symbol
can be declared there under the name as long as the table is not cleared.

They part only where a name is local to its file and the file does not matter to the declaration.
All files see such an equation, but it is stored under a file of its own.
-/

namespace Symtab.Table

variable {table : Table} {context : Context} {equation : Equation} {id : EquationId}

/-- Where an equation is seen, its name has the key under which the equation was declared. -/
theorem resolve_of_visible (visible : equation.isVisibleFrom context = true)
    (placed : ¬(Name.IsLocal equation.name ∧ equation.declared.fileId = anyScope)) :
    Key.resolve equation.name context = Key.resolve equation.name equation.declared := by
  rcases Equation.isVisibleFrom_eq_true_iff.mp visible with ⟨anyFile | sameFile, _⟩
  · apply Key.resolve_congr
    intro isLocal
    exact absurd ⟨isLocal, anyFile⟩ placed
  · apply Key.resolve_congr
    intro _
    exact sameFile.symm

theorem WellFormed.stands_of_visible (wellFormed : table.WellFormed)
    (found : table.equation? id = some equation)
    (visible : equation.isVisibleFrom context = true)
    (placed : ¬(Name.IsLocal equation.name ∧ equation.declared.fileId = anyScope)) :
    table.Stands equation.name context (.equation id) := by
  rcases wellFormed.exists_key_of_equation found with ⟨key, resolves, bound⟩
  exact ⟨key, (resolve_of_visible visible placed).trans resolves, bound⟩

/-- An equation keeps its handle until the table is cleared. -/
theorem equation?_after (found : table.equation? id = some equation) {later : List Operation}
    (noClear : ∀ operation ∈ later, operation.isClear = false) :
    (table.after later).equation? id = some equation := by
  simp only [equation?, Arena.get?_eq_getElem?] at found ⊢
  rcases List.getElem?_eq_some_iff.mp found with ⟨inUse, rfl⟩
  exact List.prefix_iff_getElem?.mp (equations_prefix_after noClear) _ inUse

/-- In every later state of the table, until it is cleared, the name of an equation is declared in
all contexts that see the equation, and belongs to this equation. It is no name of a label there,
and neither a label nor another equation can be declared under it. -/
theorem visible_name_is_declared (reachable : table.Reachable)
    (found : table.equation? id = some equation)
    (visible : equation.isVisibleFrom context = true)
    (placed : ¬(Name.IsLocal equation.name ∧ equation.declared.fileId = anyScope))
    (later : List Operation) (noClear : ∀ operation ∈ later, operation.isClear = false)
    (text : String) :
    let final := table.after later
    final.entry? equation.name context = some (.equation id) ∧
      final.declares equation.name context = true ∧
      (final.labelFor equation.name context).answer =
        .error (.kindConflict equation.name .equation) ∧
      final.findLabel? equation.name context = none ∧
      (final.declareEquation equation.name context text).answer =
        .error (.duplicateDeclaration equation.name .equation) ∧
      ∀ operation ∈ callsOf equation.name context text,
        (final.perform operation).table = final := by
  intro final
  have stands : final.Stands equation.name context (.equation id) :=
    (reachable.after later).wellFormed.stands_of_visible (equation?_after found noClear) visible
      placed
  rcases answers_of_equation stands text with ⟨labelAnswer, equationAnswer, notFound, declared⟩
  refine ⟨?_, declared, labelAnswer, notFound, equationAnswer, ?_⟩
  · rcases stands with ⟨key, resolves, bound⟩
    exact (final.entry?_of_resolve resolves).trans bound
  · intro operation call
    exact perform_of_stands stands Standing.noConfusion call

/-- All sections of a file see its equation `@SIZE`, and none of them can make `@SIZE` a label, also
after another file has declared a label of this name. -/
theorem visible_name_is_declared_size :
    let table := ({} : Table).after [.labelFor "SIZE" ⟨3, 1⟩, .declareEquation "@SIZE" ⟨3, -1⟩ "16"]
    let later := [Operation.labelFor "@SIZE" ⟨4, 7⟩, .labelFor "@SIZE" ⟨3, 2⟩, .freshName]
    let equation : Equation := ⟨"@SIZE", "16", ⟨3, -1⟩⟩
    table.Reachable ∧ table.equation? ⟨0⟩ = some equation ∧
      equation.isVisibleFrom ⟨3, 7⟩ = true ∧
      ¬(Name.IsLocal equation.name ∧ equation.declared.fileId = anyScope) ∧
      ((table.after later).labelFor "@SIZE" ⟨3, 7⟩).answer =
        .error (.kindConflict "@SIZE" .equation) := by
  intro table later equation
  have reachable : table.Reachable := Reachable.new.after _
  have found : table.equation? ⟨0⟩ = some equation := by decide +kernel
  have visible : equation.isVisibleFrom ⟨3, 7⟩ = true := by decide
  have placed : ¬(Name.IsLocal equation.name ∧ equation.declared.fileId = anyScope) :=
    fun ⟨_, anyFile⟩ => absurd anyFile (by decide)
  rcases visible_name_is_declared reachable found visible placed later (by decide) "32" with
    ⟨_, _, labelAnswer, _⟩
  exact ⟨reachable, found, visible, placed, labelAnswer⟩

/-- Without a file of its own `@SIZE` is seen from file three, and not declared there. -/
example :
    let table := ({} : Table).after [.declareEquation "@SIZE" ⟨-1, -1⟩ "16"]
    (table.perform (.isVisible ⟨0⟩ ⟨3, 7⟩)).answer matches .truth? (some true) ∧
      table.declares "@SIZE" ⟨3, 7⟩ = false := by
  decide +kernel

end Symtab.Table
