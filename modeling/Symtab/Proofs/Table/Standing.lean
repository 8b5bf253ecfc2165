import Mathlib.Logic.ExistsUnique
import Symtab.Proofs.Table.Representation

/-!
# How a name stands

In a context a name is invalid, or its key belongs to a label, or its key belongs to an equation, or
its key is free. Asking for a label, looking one up, declaring an equation and testing whether a
name is declared all decide by this alone, and they agree on it. A refused call leaves the table as
it was, and the refusal is about the name of the call.
-/

namespace Symtab

/-- How a name stands in a context. -/
inductive Standing where
  | invalid
  | label (id : LabelId)
  | equation (id : EquationId)
  | free

/-- How a valid name stands, by the symbol to which its key belongs. -/
def Standing.ofBinding : Option Entry → Standing
  | some (.label id) => .label id
  | some (.equation id) => .equation id
  | none => .free

namespace Table

/-- Whether a name stands in a given way in a context of a table. -/
def Stands (table : Table) (name : String) (context : Context) : Standing → Prop
  | .invalid => Name.isValid name = false
  | .label id =>
    ∃ key, Key.resolve name context = .ok key ∧ table.index[key]? = some (.label id)
  | .equation id =>
    ∃ key, Key.resolve name context = .ok key ∧ table.index[key]? = some (.equation id)
  | .free => ∃ key, Key.resolve name context = .ok key ∧ table.index[key]? = none

/-- What the four calls answer for a name that stands in a given way, where `text` is the
replacement of an equation to be declared. -/
def Answers (table : Table) (name : String) (context : Context) (text : String) : Standing → Prop
  | .invalid =>
    (table.labelFor name context).answer = .error (.invalidName name) ∧
      (table.declareEquation name context text).answer = .error (.invalidName name) ∧
      table.findLabel? name context = none ∧ table.declares name context = false
  | .label id =>
    (table.labelFor name context).answer = .ok id ∧
      (table.declareEquation name context text).answer =
        .error (.duplicateDeclaration name .label) ∧
      table.findLabel? name context = some id ∧ table.declares name context = true
  | .equation _ =>
    (table.labelFor name context).answer = .error (.kindConflict name .equation) ∧
      (table.declareEquation name context text).answer =
        .error (.duplicateDeclaration name .equation) ∧
      table.findLabel? name context = none ∧ table.declares name context = true
  | .free =>
    (∃ id, (table.labelFor name context).answer = .ok id ∧
      Position.toNat id = table.labels.size) ∧
      (∃ id, (table.declareEquation name context text).answer = .ok id ∧
        Position.toNat id = table.equations.size) ∧
      table.findLabel? name context = none ∧ table.declares name context = false

variable {table : Table} {name : String} {context : Context}

theorem stands_iff_of_invalid (invalid : Name.isValid name = false) {standing : Standing} :
    table.Stands name context standing ↔ standing = .invalid := by
  have unresolved : ∀ key, Key.resolve name context ≠ .ok key := by
    intro key resolves
    rw [(Key.resolve_eq_ok_iff.mp resolves).1] at invalid
    cases invalid
  cases standing <;> simp [Stands, invalid, unresolved]

theorem stands_iff_of_resolve {key : Key} (resolves : Key.resolve name context = .ok key)
    {standing : Standing} :
    table.Stands name context standing ↔ standing = .ofBinding table.index[key]? := by
  have valid := (Key.resolve_eq_ok_iff.mp resolves).1
  cases bound : table.index[key]? with
  | none =>
      cases standing <;>
        simp only [Stands, resolves, valid, Except.ok.injEq, exists_eq_left', bound,
          Standing.ofBinding, reduceCtorEq]
  | some entry =>
      cases entry <;> cases standing <;>
        simp only [Stands, resolves, valid, Except.ok.injEq, exists_eq_left', bound,
          Option.some.injEq, Standing.ofBinding, Entry.label.injEq, Entry.equation.injEq,
          Standing.label.injEq, Standing.equation.injEq, reduceCtorEq, eq_comm]

/-- A name stands in exactly one way. -/
theorem existsUnique_stands (table : Table) (name : String) (context : Context) :
    ∃! standing, table.Stands name context standing := by
  cases resolves : Key.resolve name context with
  | error refusal =>
      have invalid := (Key.resolve_eq_error_iff.mp resolves).1
      refine ⟨.invalid, invalid, ?_⟩
      intro standing stands
      exact (stands_iff_of_invalid invalid).mp stands
  | ok key =>
      refine ⟨_, (stands_iff_of_resolve resolves).mpr rfl, ?_⟩
      intro standing stands
      exact (stands_iff_of_resolve resolves).mp stands

/-- Calls for a name that belongs to an equation need no handle. -/
theorem answers_of_equation {id : EquationId} (stands : table.Stands name context (.equation id))
    (text : String) : table.Answers name context text (.equation id) := by
  rcases stands with ⟨key, resolves, bound⟩
  have found := table.entry?_of_resolve resolves
  refine ⟨?_, ?_, ?_, ?_⟩
  · simp only [labelFor_of_equation resolves bound]
  · simp only [declareEquation_of_bound resolves bound]
    rfl
  · simp only [findLabel?, found, bound]
  · simp only [declares, found, bound]
    rfl

/-- The way a name stands decides what the four calls answer, as long as handles are left. -/
theorem answers_of_stands (labelRoom : table.labels.size < UInt32.size)
    (equationRoom : table.equations.size < UInt32.size) (text : String) {standing : Standing}
    (stands : table.Stands name context standing) :
    table.Answers name context text standing := by
  cases standing with
  | invalid =>
      have notFound := table.entry?_of_invalid stands context
      refine ⟨?_, ?_, ?_, ?_⟩
      · simp only [labelFor_of_invalid table stands]
      · simp only [declareEquation_of_invalid table stands]
      · simp only [findLabel?, notFound]
      · simp only [declares, notFound]
        rfl
  | label id =>
      rcases stands with ⟨key, resolves, bound⟩
      have found := table.entry?_of_resolve resolves
      refine ⟨?_, ?_, ?_, ?_⟩
      · simp only [labelFor_of_label resolves bound]
      · simp only [declareEquation_of_bound resolves bound]
        rfl
      · simp only [findLabel?, found, bound]
      · simp only [declares, found, bound]
        rfl
  | equation id => exact answers_of_equation stands text
  | free =>
      rcases stands with ⟨key, resolves, free⟩
      have found := table.entry?_of_resolve resolves
      rcases Arena.exists_push_eq_ok labelRoom { name } with ⟨labels, labelId, pushesLabel⟩
      rcases Arena.exists_push_eq_ok equationRoom ⟨name, text, context⟩ with
        ⟨equations, equationId, pushesEquation⟩
      refine ⟨⟨labelId, ?_, ?_⟩, ⟨equationId, ?_, ?_⟩, ?_, ?_⟩
      · simp only [labelFor_of_push resolves free pushesLabel]
      · exact (Arena.push_eq_ok_iff.mp pushesLabel).2.2
      · simp only [declareEquation_of_push resolves free pushesEquation]
      · exact (Arena.push_eq_ok_iff.mp pushesEquation).2.2
      · simp only [findLabel?, found, free]
      · simp only [declares, found, free]
        rfl

/-- The four calls about a name. -/
def callsOf (name : String) (context : Context) (text : String) : List Operation :=
  [.labelFor name context, .declareEquation name context text, .findLabel name context,
    .declares name context]

/-- Only a free key lets a call change the table. -/
theorem perform_of_stands {text : String} {standing : Standing}
    (stands : table.Stands name context standing) (notFree : standing ≠ .free)
    {operation : Operation} (call : operation ∈ callsOf name context text) :
    (table.perform operation).table = table := by
  have labelKept : (table.labelFor name context).table = table := by
    cases standing with
    | invalid => simp only [labelFor_of_invalid table stands]
    | label id =>
        rcases stands with ⟨key, resolves, bound⟩
        simp only [labelFor_of_label resolves bound]
    | equation id =>
        rcases stands with ⟨key, resolves, bound⟩
        simp only [labelFor_of_equation resolves bound]
    | free => exact absurd rfl notFree
  have equationKept : (table.declareEquation name context text).table = table := by
    cases standing with
    | invalid => simp only [declareEquation_of_invalid table stands]
    | label id =>
        rcases stands with ⟨key, resolves, bound⟩
        simp only [declareEquation_of_bound resolves bound]
    | equation id =>
        rcases stands with ⟨key, resolves, bound⟩
        simp only [declareEquation_of_bound resolves bound]
    | free => exact absurd rfl notFree
  simp only [callsOf, List.mem_cons, List.not_mem_nil, or_false] at call
  rcases call with rfl | rfl | rfl | rfl
  · exact labelKept
  · exact equationKept
  · rfl
  · rfl

/-- Where the calls answer as a name stands, every refusal is about that name. -/
theorem Answers.symbolName_of_refused {text : String} {standing : Standing}
    (answers : table.Answers name context text standing) :
    (∀ refusal, (table.labelFor name context).answer = .error refusal →
      refusal.symbolName? = some name) ∧
    ∀ refusal, (table.declareEquation name context text).answer = .error refusal →
      refusal.symbolName? = some name := by
  cases standing with
  | invalid =>
      rcases answers with ⟨labelAnswer, equationAnswer, _⟩
      simp [labelAnswer, equationAnswer, SymbolError.symbolName?]
  | label id =>
      rcases answers with ⟨labelAnswer, equationAnswer, _⟩
      simp [labelAnswer, equationAnswer, SymbolError.symbolName?]
  | equation id =>
      rcases answers with ⟨labelAnswer, equationAnswer, _⟩
      simp [labelAnswer, equationAnswer, SymbolError.symbolName?]
  | free =>
      rcases answers with ⟨⟨_, labelAnswer, _⟩, ⟨_, equationAnswer, _⟩, _⟩
      simp [labelAnswer, equationAnswer]

/-- A name stands in exactly one way, and the four calls answer accordingly. Every refusal is about
the name of the call, and unless the key is free no call changes the table. -/
theorem calls_agree (table : Table) (labelRoom : table.labels.size < UInt32.size)
    (equationRoom : table.equations.size < UInt32.size) (name : String) (context : Context)
    (text : String) :
    (∃! standing, table.Stands name context standing) ∧
    (∀ standing, table.Stands name context standing →
      table.Answers name context text standing ∧
        (standing ≠ .free → ∀ operation ∈ callsOf name context text,
          (table.perform operation).table = table)) ∧
    (∀ refusal, (table.labelFor name context).answer = .error refusal →
      refusal.symbolName? = some name) ∧
    ∀ refusal, (table.declareEquation name context text).answer = .error refusal →
      refusal.symbolName? = some name := by
  rcases table.existsUnique_stands name context with ⟨standing, stands, unique⟩
  have answers := answers_of_stands labelRoom equationRoom text stands
  rcases answers.symbolName_of_refused with ⟨labelRefused, equationRefused⟩
  refine ⟨⟨standing, stands, unique⟩, ?_, labelRefused, equationRefused⟩
  intro other otherStands
  refine ⟨answers_of_stands labelRoom equationRoom text otherStands, ?_⟩
  intro notFree operation call
  exact perform_of_stands otherStands notFree call

/-- Every file finds the equation `SIZE`, and no file can make a label of this name. -/
theorem calls_agree_of_equation :
    let table := ({} : Table).after [.labelFor "@SIZE" ⟨3, 1⟩, .declareEquation "SIZE" ⟨3, 1⟩ "16"]
    table.labels.size < UInt32.size ∧ table.equations.size < UInt32.size ∧
      table.Answers "SIZE" ⟨4, 4⟩ "32" (.equation ⟨0⟩) := by
  intro table
  have labelRoom : table.labels.size < UInt32.size := by decide +kernel
  have equationRoom : table.equations.size < UInt32.size := by decide +kernel
  have stands : table.Stands "SIZE" ⟨4, 4⟩ (.equation ⟨0⟩) :=
    ⟨Key.global "SIZE", Key.resolve_eq_ok_iff.mpr (by decide +kernel), by decide +kernel⟩
  exact ⟨labelRoom, equationRoom,
    ((calls_agree table labelRoom equationRoom "SIZE" ⟨4, 4⟩ "32").2.1 _ stands).1⟩

end Table

end Symtab
