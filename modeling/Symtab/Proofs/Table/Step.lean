import Symtab.Arena.Lemmas
import Symtab.Proofs.Key
import Symtab.Table.Operation

/-!
# Steps of a table

What one operation does to a table, stated once. An operation either drops all symbols, or keeps
all symbols and changes at most values of labels and the number of generated names, or declares one
symbol under a key that was free. The last happens only to calls with a valid name, and only to the
first call of its key.
-/

namespace Symtab

/-- The number of a symbol among the symbols of its kind. -/
def Entry.number : Entry → Nat
  | label id => Position.toNat id
  | equation id => Position.toNat id

/-- What a call declares when its key is free. -/
inductive Symbol where
  | label (name : String)
  | equation (equation : Equation)

/-- The kind of a symbol. -/
def Symbol.kind : Symbol → SymbolKind
  | .label _ => .label
  | .equation _ => .equation

/-- The name of a symbol that is a label. -/
def Symbol.labelName? : Symbol → Option String
  | .label name => some name
  | .equation _ => none

/-- The equation that a symbol is. -/
def Symbol.equation? : Symbol → Option Equation
  | .label _ => none
  | .equation declared => some declared

/-- A call that declares a symbol under a key, unless the key is taken. -/
structure Declaration where
  key : Key
  symbol : Symbol

/-- The declaration that an operation asks for. An operation with an invalid name asks for none. -/
def Operation.declaration? : Operation → Option Declaration
  | labelFor name context =>
    (Key.resolve name context).toOption.map (⟨·, .label name⟩)
  | declareEquation name context replacement =>
    (Key.resolve name context).toOption.map (⟨·, .equation ⟨name, replacement, context⟩⟩)
  | _ => none

/-- Whether an operation clears the table. -/
def Operation.isClear : Operation → Bool
  | clear => true
  | _ => false

/-- Whether the key of a declaration is one to which the name of its symbol resolves. -/
def Declaration.Resolves (declaration : Declaration) : Prop :=
  match declaration.symbol with
  | .label name => ∃ context, Key.resolve name context = .ok declaration.key
  | .equation equation => Key.resolve equation.name equation.declared = .ok declaration.key

namespace Operation

theorem declaration?_labelFor {name : String} {context : Context} {key : Key}
    (resolves : Key.resolve name context = .ok key) :
    (labelFor name context).declaration? = some ⟨key, .label name⟩ := by
  simp [declaration?, resolves, Except.toOption]

theorem declaration?_declareEquation {name replacement : String} {context : Context} {key : Key}
    (resolves : Key.resolve name context = .ok key) :
    (declareEquation name context replacement).declaration? =
      some ⟨key, .equation ⟨name, replacement, context⟩⟩ := by
  simp [declaration?, resolves, Except.toOption]

theorem declaration?_eq_none {operation : Operation} {name : String} {context : Context}
    (invalid : Name.isValid name = false)
    (asks : operation = labelFor name context ∨
      ∃ replacement, operation = declareEquation name context replacement) :
    operation.declaration? = none := by
  have refused : Key.resolve name context = .error (.invalidName name) :=
    Key.resolve_eq_error_iff.mpr ⟨invalid, rfl⟩
  rcases asks with rfl | ⟨replacement, rfl⟩ <;> simp [declaration?, refused, Except.toOption]

theorem resolves_of_declaration? {operation : Operation} {declaration : Declaration}
    (asks : operation.declaration? = some declaration) : declaration.Resolves := by
  cases operation with
  | labelFor name context =>
      cases resolves : Key.resolve name context with
      | error refusal => simp [declaration?, resolves, Except.toOption] at asks
      | ok key =>
          simp only [declaration?_labelFor resolves, Option.some.injEq] at asks
          subst declaration
          exact ⟨context, resolves⟩
  | declareEquation name context replacement =>
      cases resolves : Key.resolve name context with
      | error refusal => simp [declaration?, resolves, Except.toOption] at asks
      | ok key =>
          simp only [declaration?_declareEquation resolves, Option.some.injEq] at asks
          subst declaration
          exact resolves
  | _ => cases asks

end Operation

namespace Table

/-- The number of symbols of a kind. -/
def count (table : Table) : SymbolKind → Nat
  | .label => table.labels.size
  | .equation => table.equations.size

/-- Tables with the same symbols, up to the values of labels. -/
structure SameSymbols (before after : Table) : Prop where
  settings_eq : after.settings = before.settings
  index_eq : after.index = before.index
  equations_eq : after.equations = before.equations
  names_eq : after.labels.toList.map Label.name = before.labels.toList.map Label.name

theorem SameSymbols.refl (table : Table) : table.SameSymbols table := ⟨rfl, rfl, rfl, rfl⟩

/-- What one operation does to a table. -/
inductive Step (before : Table) : Operation → Table → Prop where
  | cleared : Step before .clear { settings := before.settings }
  | kept {operation : Operation} {after : Table} (asksNothing : operation.declaration? = none)
      (noClear : operation.isClear = false) (same : before.SameSymbols after) :
      Step before operation after
  | taken {operation : Operation} {declaration : Declaration} {entry : Entry}
      (asks : operation.declaration? = some declaration)
      (bound : before.index[declaration.key]? = some entry) : Step before operation before
  | exhausted {operation : Operation} {declaration : Declaration}
      (asks : operation.declaration? = some declaration)
      (free : before.index[declaration.key]? = none)
      (full : before.count declaration.symbol.kind = UInt32.size) : Step before operation before
  | label {operation : Operation} {key : Key} {name : String} {labels : Arena LabelId Label}
      {id : LabelId} (asks : operation.declaration? = some ⟨key, .label name⟩)
      (free : before.index[key]? = none)
      (pushes : before.labels.push { name } = .ok (labels, id)) :
      Step before operation { before with labels, index := before.index.insert key (.label id) }
  | equation {operation : Operation} {key : Key} {equation : Equation}
      {equations : Arena EquationId Equation} {id : EquationId}
      (asks : operation.declaration? = some ⟨key, .equation equation⟩)
      (free : before.index[key]? = none)
      (pushes : before.equations.push equation = .ok (equations, id)) :
      Step before operation
        { before with equations, index := before.index.insert key (.equation id) }

theorem entry?_of_resolve {name : String} {context : Context} {key : Key} (table : Table)
    (resolves : Key.resolve name context = .ok key) :
    table.entry? name context = table.index[key]? := by
  unfold entry?
  simp only [resolves]

theorem entry?_of_invalid {name : String} (table : Table) (invalid : Name.isValid name = false)
    (context : Context) : table.entry? name context = none := by
  have refused : Key.resolve name context = .error (.invalidName name) :=
    Key.resolve_eq_error_iff.mpr ⟨invalid, rfl⟩
  unfold entry?
  simp only [refused]

/-- A name is declared exactly when it is valid and its key is in use. -/
theorem declares_eq_true_iff {table : Table} {name : String} {context : Context} :
    table.declares name context = true ↔
      ∃ key, Key.resolve name context = .ok key ∧ table.index[key]? ≠ none := by
  rw [declares, Option.isSome_iff_ne_none]
  unfold entry?
  cases Key.resolve name context <;> simp

section Calls

variable {table : Table} {name replacement : String} {context : Context} {key : Key}

theorem labelFor_of_invalid (table : Table) (invalid : Name.isValid name = false)
    (context : Context) :
    table.labelFor name context =
      { answer := .error (.invalidName name), table, events := [.rejectedName name] } := by
  have refused : Key.resolve name context = .error (.invalidName name) :=
    Key.resolve_eq_error_iff.mpr ⟨invalid, rfl⟩
  simp only [labelFor, refused]

theorem labelFor_of_label {id : LabelId} (resolves : Key.resolve name context = .ok key)
    (bound : table.index[key]? = some (.label id)) :
    table.labelFor name context = { answer := .ok id, table } := by
  simp only [labelFor, resolves, bound]

theorem labelFor_of_equation {id : EquationId} (resolves : Key.resolve name context = .ok key)
    (bound : table.index[key]? = some (.equation id)) :
    table.labelFor name context =
      { answer := .error (.kindConflict name .equation)
        table
        events := [.kindMismatch name .equation] } := by
  simp only [labelFor, resolves, bound]

theorem labelFor_of_full {fault : Arena.Fault} (resolves : Key.resolve name context = .ok key)
    (free : table.index[key]? = none) (full : table.labels.push { name } = .error fault) :
    table.labelFor name context = { answer := .error (.handlesExhausted fault), table } := by
  simp only [labelFor, resolves, free, full]

theorem labelFor_of_push {labels : Arena LabelId Label} {id : LabelId}
    (resolves : Key.resolve name context = .ok key) (free : table.index[key]? = none)
    (pushes : table.labels.push { name } = .ok (labels, id)) :
    table.labelFor name context =
      { answer := .ok id
        table := { table with labels, index := table.index.insert key (.label id) }
        events := [.createdLabel name context id] } := by
  simp only [labelFor, resolves, free, pushes]

theorem declareEquation_of_invalid (table : Table) (invalid : Name.isValid name = false)
    (context : Context) (replacement : String) :
    table.declareEquation name context replacement =
      { answer := .error (.invalidName name), table, events := [.rejectedName name] } := by
  have refused : Key.resolve name context = .error (.invalidName name) :=
    Key.resolve_eq_error_iff.mpr ⟨invalid, rfl⟩
  simp only [declareEquation, refused]

theorem declareEquation_of_bound {existing : Entry} (resolves : Key.resolve name context = .ok key)
    (bound : table.index[key]? = some existing) (replacement : String) :
    table.declareEquation name context replacement =
      { answer := .error (.duplicateDeclaration name existing.kind)
        table
        events := [.redeclared name existing.kind] } := by
  simp only [declareEquation, resolves, bound]

theorem declareEquation_of_full {fault : Arena.Fault}
    (resolves : Key.resolve name context = .ok key) (free : table.index[key]? = none)
    (full : table.equations.push ⟨name, replacement, context⟩ = .error fault) :
    table.declareEquation name context replacement =
      { answer := .error (.handlesExhausted fault), table } := by
  simp only [declareEquation, resolves, free, full]

theorem declareEquation_of_push {equations : Arena EquationId Equation} {id : EquationId}
    (resolves : Key.resolve name context = .ok key) (free : table.index[key]? = none)
    (pushes : table.equations.push ⟨name, replacement, context⟩ = .ok (equations, id)) :
    table.declareEquation name context replacement =
      { answer := .ok id
        table := { table with equations, index := table.index.insert key (.equation id) }
        events := [.declaredEquation name context id] } := by
  simp only [declareEquation, resolves, free, pushes]

/-- What asking for a label can come to. -/
inductive LabelCall (table : Table) (name : String) (context : Context) :
    Outcome (Except SymbolError LabelId) → Prop where
  | invalid (isInvalid : Name.isValid name = false) :
      LabelCall table name context
        { answer := .error (.invalidName name), table, events := [.rejectedName name] }
  | known {key : Key} {id : LabelId} (resolves : Key.resolve name context = .ok key)
      (bound : table.index[key]? = some (.label id)) :
      LabelCall table name context { answer := .ok id, table }
  | conflict {key : Key} {id : EquationId} (resolves : Key.resolve name context = .ok key)
      (bound : table.index[key]? = some (.equation id)) :
      LabelCall table name context
        { answer := .error (.kindConflict name .equation)
          table
          events := [.kindMismatch name .equation] }
  | full {key : Key} {fault : Arena.Fault} (resolves : Key.resolve name context = .ok key)
      (free : table.index[key]? = none) (refuses : table.labels.push { name } = .error fault) :
      LabelCall table name context { answer := .error (.handlesExhausted fault), table }
  | made {key : Key} {labels : Arena LabelId Label} {id : LabelId}
      (resolves : Key.resolve name context = .ok key) (free : table.index[key]? = none)
      (pushes : table.labels.push { name } = .ok (labels, id)) :
      LabelCall table name context
        { answer := .ok id
          table := { table with labels, index := table.index.insert key (.label id) }
          events := [.createdLabel name context id] }

/-- What declaring an equation can come to. -/
inductive EquationCall (table : Table) (name : String) (context : Context) (replacement : String) :
    Outcome (Except SymbolError EquationId) → Prop where
  | invalid (isInvalid : Name.isValid name = false) :
      EquationCall table name context replacement
        { answer := .error (.invalidName name), table, events := [.rejectedName name] }
  | redeclared {key : Key} {existing : Entry} (resolves : Key.resolve name context = .ok key)
      (bound : table.index[key]? = some existing) :
      EquationCall table name context replacement
        { answer := .error (.duplicateDeclaration name existing.kind)
          table
          events := [.redeclared name existing.kind] }
  | full {key : Key} {fault : Arena.Fault} (resolves : Key.resolve name context = .ok key)
      (free : table.index[key]? = none)
      (refuses : table.equations.push ⟨name, replacement, context⟩ = .error fault) :
      EquationCall table name context replacement
        { answer := .error (.handlesExhausted fault), table }
  | made {key : Key} {equations : Arena EquationId Equation} {id : EquationId}
      (resolves : Key.resolve name context = .ok key) (free : table.index[key]? = none)
      (pushes : table.equations.push ⟨name, replacement, context⟩ = .ok (equations, id)) :
      EquationCall table name context replacement
        { answer := .ok id
          table := { table with equations, index := table.index.insert key (.equation id) }
          events := [.declaredEquation name context id] }

theorem labelCall (table : Table) (name : String) (context : Context) :
    table.LabelCall name context (table.labelFor name context) := by
  cases resolves : Key.resolve name context with
  | error refusal =>
      rcases Key.resolve_eq_error_iff.mp resolves with ⟨isInvalid, _⟩
      rw [labelFor_of_invalid table isInvalid]
      exact .invalid isInvalid
  | ok key =>
      cases bound : table.index[key]? with
      | some entry =>
          cases entry with
          | label id =>
              rw [labelFor_of_label resolves bound]
              exact .known resolves bound
          | equation id =>
              rw [labelFor_of_equation resolves bound]
              exact .conflict resolves bound
      | none =>
          cases pushes : table.labels.push { name } with
          | error fault =>
              rw [labelFor_of_full resolves bound pushes]
              exact .full resolves bound pushes
          | ok pushed =>
              rw [labelFor_of_push resolves bound pushes]
              exact .made resolves bound pushes

theorem equationCall (table : Table) (name : String) (context : Context) (replacement : String) :
    table.EquationCall name context replacement
      (table.declareEquation name context replacement) := by
  cases resolves : Key.resolve name context with
  | error refusal =>
      rcases Key.resolve_eq_error_iff.mp resolves with ⟨isInvalid, _⟩
      rw [declareEquation_of_invalid table isInvalid]
      exact .invalid isInvalid
  | ok key =>
      cases bound : table.index[key]? with
      | some entry =>
          rw [declareEquation_of_bound resolves bound]
          exact .redeclared resolves bound
      | none =>
          cases pushes : table.equations.push ⟨name, replacement, context⟩ with
          | error fault =>
              rw [declareEquation_of_full resolves bound pushes]
              exact .full resolves bound pushes
          | ok pushed =>
              rw [declareEquation_of_push resolves bound pushes]
              exact .made resolves bound pushes

end Calls

/-- Writing a value to a label changes nothing but values of labels. -/
theorem defineLabel_cases (table : Table) (id : LabelId) (value : Int64) :
    (table.defineLabel id value).table = table ∨
      ∃ label, table.label? id = some label ∧
        (table.defineLabel id value).table =
          { table with labels := table.labels.set id (label.setValue value) } := by
  cases found : table.label? id with
  | none => simp [defineLabel, found]
  | some label =>
      cases defined : label.isDefined with
      | true => simp [defineLabel, found, Label.define, defined]
      | false => simp [defineLabel, found, Label.define, Label.setValue, defined]

theorem setLabelValue_cases (table : Table) (id : LabelId) (value : Int64) :
    (table.setLabelValue id value).table = table ∨
      ∃ label, table.label? id = some label ∧
        (table.setLabelValue id value).table =
          { table with labels := table.labels.set id (label.setValue value) } := by
  cases found : table.label? id <;> simp [setLabelValue, found]

theorem sameSymbols_set {table : Table} {id : LabelId} {label : Label} (value : Int64)
    (found : table.label? id = some label) :
    table.SameSymbols { table with labels := table.labels.set id (label.setValue value) } := by
  refine ⟨rfl, rfl, rfl, ?_⟩
  rw [label?, Arena.get?_eq_getElem?] at found
  rcases List.getElem?_eq_some_iff.mp found with ⟨inRange, same⟩
  rw [Arena.toList_set, List.map_set]
  change List.set _ _ label.name = _
  rw [← same, ← List.getElem_map Label.name (h := by simpa using inRange), List.set_getElem_self]

theorem step_labelFor (table : Table) (name : String) (context : Context) :
    table.Step (.labelFor name context) (table.labelFor name context).table := by
  have call := table.labelCall name context
  generalize table.labelFor name context = outcome at call ⊢
  cases call with
  | invalid isInvalid =>
      exact .kept (Operation.declaration?_eq_none isInvalid (Or.inl rfl)) rfl (.refl table)
  | known resolves bound => exact .taken (Operation.declaration?_labelFor resolves) bound
  | conflict resolves bound => exact .taken (Operation.declaration?_labelFor resolves) bound
  | full resolves free refuses =>
      exact .exhausted (Operation.declaration?_labelFor resolves) free
        (Arena.size_eq_limit_of_push refuses)
  | made resolves free pushes =>
      exact .label (Operation.declaration?_labelFor resolves) free pushes

theorem step_declareEquation (table : Table) (name : String) (context : Context)
    (replacement : String) :
    table.Step (.declareEquation name context replacement)
      (table.declareEquation name context replacement).table := by
  have call := table.equationCall name context replacement
  generalize table.declareEquation name context replacement = outcome at call ⊢
  cases call with
  | invalid isInvalid =>
      exact .kept (Operation.declaration?_eq_none isInvalid (Or.inr ⟨replacement, rfl⟩)) rfl
        (.refl table)
  | redeclared resolves bound =>
      exact .taken (Operation.declaration?_declareEquation resolves) bound
  | full resolves free refuses =>
      exact .exhausted (Operation.declaration?_declareEquation resolves) free
        (Arena.size_eq_limit_of_push refuses)
  | made resolves free pushes =>
      exact .equation (Operation.declaration?_declareEquation resolves) free pushes

theorem sameSymbols_defineLabel (table : Table) (id : LabelId) (value : Int64) :
    table.SameSymbols (table.defineLabel id value).table := by
  rcases table.defineLabel_cases id value with same | ⟨label, found, outcome⟩
  · simp only [same]
    exact .refl table
  · simp only [outcome]
    exact sameSymbols_set value found

theorem sameSymbols_setLabelValue (table : Table) (id : LabelId) (value : Int64) :
    table.SameSymbols (table.setLabelValue id value).table := by
  rcases table.setLabelValue_cases id value with same | ⟨label, found, outcome⟩
  · simp only [same]
    exact .refl table
  · simp only [outcome]
    exact sameSymbols_set value found

/-- A listing goes to a file, and the table stays as it is. -/
theorem table_exportListing (table : Table) (path : String) (destination : Storage.Destination) :
    (table.exportListing path destination).table = table := by
  unfold exportListing
  split
  · rfl
  · split <;> rfl

theorem step_perform (table : Table) (operation : Operation) :
    table.Step operation (table.perform operation).table := by
  cases operation with
  | labelFor name context => exact table.step_labelFor name context
  | declareEquation name context replacement =>
      exact table.step_declareEquation name context replacement
  | defineLabel id value => exact .kept rfl rfl (table.sameSymbols_defineLabel id value)
  | setLabelValue id value => exact .kept rfl rfl (table.sameSymbols_setLabelValue id value)
  | exportListing path destination =>
      refine .kept rfl rfl ?_
      change SameSymbols table (table.exportListing path destination).table
      rw [table_exportListing]
      exact .refl table
  | clear => exact .cleared
  | freshName => exact .kept rfl rfl ⟨rfl, rfl, rfl, rfl⟩
  | _ => exact .kept rfl rfl (.refl table)

theorem Step.settings_eq {before after : Table} {operation : Operation}
    (step : before.Step operation after) : after.settings = before.settings := by
  cases step with
  | kept _ _ same => exact same.settings_eq
  | _ => rfl

end Table

end Symtab
