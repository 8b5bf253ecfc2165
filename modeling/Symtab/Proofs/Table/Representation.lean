import Mathlib.Data.Set.Function
import Symtab.Proofs.Table.Step

/-!
# The representation of symbols

The index, the labels and the equations of a table are three separate structures. In every table
that a run of operations leads to they describe the same symbols: the keys in use and the symbols
of both kinds correspond one to one, a label has the name of its key, and the key of an equation is
the one to which the name of the equation resolves in the context of its declaration.

The correspondence holds of a table without symbols, and every step keeps it.
-/

namespace Symtab.Table

/-- Settings give a table exactly when they are allowed, and then one without symbols. -/
theorem ofSettings_eq_ok_iff {settings : Settings} {table : Table} :
    ofSettings settings = .ok table ↔
      settings.validate = .ok () ∧ table = { settings } := by
  cases validated : settings.validate with
  | error fault => simp [ofSettings, Settings.checked, validated, bind, Except.bind]
  | ok =>
      simp [ofSettings, Settings.checked, validated, bind, Except.bind, pure, Except.pure,
        eq_comm]

/-- The tables that runs of operations lead to. -/
inductive Reachable : Table → Prop where
  | new : Reachable {}
  | ofSettings {settings : Settings} {table : Table} (made : ofSettings settings = .ok table) :
      Reachable table
  | perform {table : Table} (reachable : Reachable table) (operation : Operation) :
      Reachable (table.perform operation).table

theorem Reachable.after {table : Table} (reachable : table.Reachable)
    (operations : List Operation) : (table.after operations).Reachable := by
  induction operations generalizing table with
  | nil => exact reachable
  | cons operation operations ih => exact ih (reachable.perform operation)

/-- The tables that a run starts from. -/
def Initial (table : Table) : Prop := table = {} ∨ ∃ settings, ofSettings settings = .ok table

theorem Initial.reachable {table : Table} (initial : table.Initial) : table.Reachable := by
  rcases initial with rfl | ⟨settings, made⟩
  · exact .new
  · exact .ofSettings made

/-- The symbols in use: for each kind as many as there are, numbered from zero. -/
def symbols (table : Table) : Set Entry := {entry | entry.number < table.count entry.kind}

/-- Whether a symbol is in use and suits a key: a label has the name of the key, and the name of an
equation resolves to the key in the context of its declaration. -/
def Suits (table : Table) (key : Key) : Entry → Prop
  | .label id => ∃ label, table.label? id = some label ∧ label.name = key.name
  | .equation id =>
    ∃ equation, table.equation? id = some equation ∧
      Key.resolve equation.name equation.declared = .ok key

/-- The index, the labels and the equations describe the same symbols: keys in use are canonical and
belong to symbols that suit them, and every symbol in use has exactly one key. -/
structure WellFormed (table : Table) : Prop where
  canonical : ∀ key ∈ table.index, key.Canonical
  suits : ∀ (key : Key) (entry : Entry), table.index[key]? = some entry → table.Suits key entry
  existsUnique_key : ∀ entry ∈ table.symbols, ∃! key : Key, table.index[key]? = some entry
  size_eq : table.size = table.labels.size + table.equations.size

section Insertion

variable {index : Std.TreeMap Key Entry} {key : Key} {entry : Entry}

theorem mem_index_iff : key ∈ index ↔ ∃ bound, index[key]? = some bound := by
  rw [Std.TreeMap.mem_iff_isSome_getElem?, Option.isSome_iff_exists]

theorem getElem?_insert_index (other : Key) :
    (index.insert key entry)[other]? = if other = key then some entry else index[other]? := by
  rw [Std.TreeMap.getElem?_insert]
  exact if_congr (Std.LawfulEqOrd.compare_eq_iff_eq.trans eq_comm) rfl rfl

/-- Inserting a new symbol under a free key gives it one key and keeps those of other symbols. -/
theorem existsUnique_insert_iff (free : index[key]? = none)
    (unused : ∀ other : Key, index[other]? ≠ some entry) (bound : Entry) :
    (∃! other : Key, (index.insert key entry)[other]? = some bound) ↔
      bound = entry ∨ ∃! other : Key, index[other]? = some bound := by
  by_cases isNew : bound = entry
  · subst bound
    simp only [true_or, iff_true]
    refine ⟨key, by simp only [getElem?_insert_index, if_true], ?_⟩
    intro other isBound
    by_contra differs
    simp only [getElem?_insert_index, if_neg differs] at isBound
    exact unused other isBound
  · have sameKeys : ∀ other : Key, (index.insert key entry)[other]? = some bound ↔
        index[other]? = some bound := by
      intro other
      rw [getElem?_insert_index]
      split
      next isKey => simp [isKey, free, Ne.symm isNew]
      next => rfl
    simp only [sameKeys, isNew, false_or]

theorem size_insert_of_free (free : index[key]? = none) :
    (index.insert key entry).size = index.size + 1 := by
  have absent : index.contains key = false := by
    rw [← Std.TreeMap.isSome_getElem?_eq_contains, free]
    rfl
  simp [Std.TreeMap.size_insert, absent]

end Insertion

theorem wellFormed_of_settings (settings : Settings) : WellFormed { settings } where
  canonical key used := absurd used Std.TreeMap.not_mem_emptyc
  suits key entry bound := by simp at bound
  existsUnique_key entry inUse := by
    cases entry <;> exact absurd inUse (Nat.not_lt_zero _)
  size_eq := rfl

theorem Suits.mem_symbols {table : Table} {key : Key} {entry : Entry}
    (suits : table.Suits key entry) : entry ∈ table.symbols := by
  cases entry with
  | label id =>
      rcases suits with ⟨label, found, _⟩
      exact (table.labels.exists_get?_eq_some_iff id).mp ⟨label, found⟩
  | equation id =>
      rcases suits with ⟨equation, found, _⟩
      exact (table.equations.exists_get?_eq_some_iff id).mp ⟨equation, found⟩

/-- A push adds the next position to those below the number of items. -/
theorem lt_size_of_push_iff {ι α : Type} [Position ι] {arena pushed : Arena ι α} {item : α}
    {position : ι} (pushes : arena.push item = .ok (pushed, position)) (other : ι) :
    Position.toNat other < pushed.size ↔
      other = position ∨ Position.toNat other < arena.size := by
  have number := (Arena.push_eq_ok_iff.mp pushes).2.2
  simp only [Arena.size_of_push pushes]
  constructor
  · intro inUse
    by_cases isOld : Position.toNat other < arena.size
    · exact Or.inr isOld
    · left
      apply Position.toNat_injective
      omega
  · rintro (rfl | isOld) <;> omega

theorem symbols_of_push_label {table : Table} {index : Std.TreeMap Key Entry} {label : Label}
    {labels : Arena LabelId Label} {id : LabelId}
    (pushes : table.labels.push label = .ok (labels, id)) :
    symbols { table with labels, index } = insert (.label id) table.symbols := by
  ext entry
  cases entry with
  | label other => simp [symbols, Entry.number, Entry.kind, count, lt_size_of_push_iff pushes]
  | equation other => simp [symbols, Entry.number, Entry.kind, count]

theorem symbols_of_push_equation {table : Table} {index : Std.TreeMap Key Entry}
    {equation : Equation} {equations : Arena EquationId Equation} {id : EquationId}
    (pushes : table.equations.push equation = .ok (equations, id)) :
    symbols { table with equations, index } = insert (.equation id) table.symbols := by
  ext entry
  cases entry with
  | label other => simp [symbols, Entry.number, Entry.kind, count]
  | equation other => simp [symbols, Entry.number, Entry.kind, count, lt_size_of_push_iff pushes]

namespace WellFormed

variable {table after : Table}

/-- Well-formedness does not depend on the values of labels. -/
theorem of_sameSymbols (wellFormed : table.WellFormed) (same : table.SameSymbols after) :
    after.WellFormed := by
  rcases same with ⟨_, sameIndex, sameEquations, sameNames⟩
  have sameSize : after.labels.size = table.labels.size := by
    simpa using congrArg List.length sameNames
  have sameName : ∀ id, (after.label? id).map Label.name = (table.label? id).map Label.name := by
    intro id
    simp only [label?, Arena.get?_eq_getElem?, ← List.getElem?_map, sameNames]
  have sameSymbols : after.symbols = table.symbols := by
    ext entry
    cases entry <;> simp [symbols, Entry.number, Entry.kind, count, sameSize, sameEquations]
  refine ⟨?_, ?_, ?_, ?_⟩
  · simpa only [sameIndex] using wellFormed.canonical
  · intro key entry bound
    simp only [sameIndex] at bound
    have suits := wellFormed.suits key entry bound
    cases entry with
    | label id =>
        rcases suits with ⟨label, found, name⟩
        have nameAfter := sameName id
        simp only [found, Option.map_some, Option.map_eq_some_iff, name] at nameAfter
        exact nameAfter
    | equation id => simpa only [Suits, equation?, sameEquations] using suits
  · simpa only [sameIndex, sameSymbols] using wellFormed.existsUnique_key
  · simpa only [size, sameIndex, sameSize, sameEquations] using wellFormed.size_eq

/-- Binding a free key to a new symbol that suits it keeps a table well-formed. -/
theorem insert (wellFormed : table.WellFormed) {key : Key} {entry : Entry}
    (isCanonical : key.Canonical) (free : table.index[key]? = none)
    (isNew : entry ∉ table.symbols) (inserted : after.index = table.index.insert key entry)
    (symbolsAfter : after.symbols = Insert.insert entry table.symbols)
    (suits : after.Suits key entry)
    (stillSuits : ∀ other old, table.Suits other old → after.Suits other old)
    (sizeAfter : after.labels.size + after.equations.size =
      table.labels.size + table.equations.size + 1) : after.WellFormed := by
  have unused : ∀ other : Key, table.index[other]? ≠ some entry := by
    intro other bound
    exact isNew (wellFormed.suits other entry bound).mem_symbols
  refine ⟨?_, ?_, ?_, ?_⟩
  · intro other used
    simp only [inserted, Std.TreeMap.mem_insert, Std.LawfulEqOrd.compare_eq_iff_eq] at used
    rcases used with rfl | old
    · exact isCanonical
    · exact wellFormed.canonical other old
  · intro other bound isBound
    simp only [inserted, getElem?_insert_index] at isBound
    split at isBound
    next isKey =>
      cases isBound
      exact isKey ▸ suits
    next => exact stillSuits other bound (wellFormed.suits other bound isBound)
  · intro bound inUse
    simp only [inserted, existsUnique_insert_iff free unused]
    simp only [symbolsAfter, Set.mem_insert_iff] at inUse
    exact inUse.imp_right (wellFormed.existsUnique_key bound)
  · have sizeBefore := wellFormed.size_eq
    simp only [size, inserted, size_insert_of_free free] at sizeBefore ⊢
    omega

theorem insert_label (wellFormed : table.WellFormed) {key : Key} {context : Context}
    {labels : Arena LabelId Label} {id : LabelId} {name : String}
    (resolves : Key.resolve name context = .ok key) (free : table.index[key]? = none)
    (pushes : table.labels.push { name } = .ok (labels, id)) :
    WellFormed { table with labels, index := table.index.insert key (.label id) } := by
  have isNew : Entry.label id ∉ table.symbols := by
    have number := (Arena.push_eq_ok_iff.mp pushes).2.2
    simp [symbols, Entry.number, Entry.kind, count, number]
  refine wellFormed.insert (Key.canonical_of_resolve resolves) free isNew rfl
    (symbols_of_push_label pushes) ?_ ?_ ?_
  · refine ⟨{ name }, ?_, (Key.name_of_resolve resolves).symm⟩
    simp only [label?, Arena.get?_of_push pushes, if_true]
  · intro other old oldSuits
    cases old with
    | label oldId =>
        have isOld : oldId ≠ id := by
          rintro rfl
          exact isNew oldSuits.mem_symbols
        simpa only [Suits, label?, Arena.get?_of_push pushes, if_neg isOld] using oldSuits
    | equation oldId => exact oldSuits
  · simp only [Arena.size_of_push pushes]
    omega

theorem insert_equation (wellFormed : table.WellFormed) {key : Key}
    {equations : Arena EquationId Equation} {id : EquationId} {equation : Equation}
    (resolves : Key.resolve equation.name equation.declared = .ok key)
    (free : table.index[key]? = none)
    (pushes : table.equations.push equation = .ok (equations, id)) :
    WellFormed { table with equations, index := table.index.insert key (.equation id) } := by
  have isNew : Entry.equation id ∉ table.symbols := by
    have number := (Arena.push_eq_ok_iff.mp pushes).2.2
    simp [symbols, Entry.number, Entry.kind, count, number]
  refine wellFormed.insert (Key.canonical_of_resolve resolves) free isNew rfl
    (symbols_of_push_equation pushes) ?_ ?_ ?_
  · refine ⟨equation, ?_, resolves⟩
    simp only [equation?, Arena.get?_of_push pushes, if_true]
  · intro other old oldSuits
    cases old with
    | label oldId => exact oldSuits
    | equation oldId =>
        have isOld : oldId ≠ id := by
          rintro rfl
          exact isNew oldSuits.mem_symbols
        simpa only [Suits, equation?, Arena.get?_of_push pushes, if_neg isOld] using oldSuits
  · simp only [Arena.size_of_push pushes]
    omega

theorem of_step (wellFormed : table.WellFormed) {operation : Operation} {after : Table}
    (step : table.Step operation after) : after.WellFormed := by
  cases step with
  | cleared => exact wellFormed_of_settings table.settings
  | kept _ _ same => exact wellFormed.of_sameSymbols same
  | taken => exact wellFormed
  | exhausted => exact wellFormed
  | label asks free pushes =>
      rcases Operation.resolves_of_declaration? asks with ⟨context, resolves⟩
      exact wellFormed.insert_label resolves free pushes
  | equation asks free pushes =>
      exact wellFormed.insert_equation (Operation.resolves_of_declaration? asks) free pushes

end WellFormed

theorem Reachable.wellFormed {table : Table} (reachable : table.Reachable) : table.WellFormed := by
  induction reachable with
  | new => exact wellFormed_of_settings {}
  | ofSettings made =>
      rcases ofSettings_eq_ok_iff.mp made with ⟨_, rfl⟩
      exact wellFormed_of_settings _
  | perform _ operation ih => exact ih.of_step (step_perform _ operation)

/-- In a well-formed table the keys in use and the symbols in use correspond one to one. -/
theorem WellFormed.bijOn_symbols {table : Table} (wellFormed : table.WellFormed) :
    Set.BijOn (fun key => table.index[key]?) {key | key ∈ table.index} (some '' table.symbols) := by
  have inUse_of_bound : ∀ (key : Key) (entry : Entry), table.index[key]? = some entry →
      entry ∈ table.symbols := fun key entry bound => (wellFormed.suits key entry bound).mem_symbols
  refine ⟨?_, ?_, ?_⟩
  · intro key used
    rcases mem_index_iff.mp used with ⟨entry, bound⟩
    exact ⟨entry, inUse_of_bound key entry bound, bound.symm⟩
  · intro first firstUsed second _ sameEntry
    rcases mem_index_iff.mp firstUsed with ⟨entry, bound⟩
    have inUse := inUse_of_bound first entry bound
    exact (wellFormed.existsUnique_key entry inUse).unique bound (sameEntry.symm.trans bound)
  · rintro _ ⟨entry, inUse, rfl⟩
    rcases wellFormed.existsUnique_key entry inUse with ⟨key, bound, _⟩
    exact ⟨key, mem_index_iff.mpr ⟨entry, bound⟩, bound⟩

/-- In every table that a run of operations leads to, the keys in use and the symbols of both kinds
correspond one to one, the three structures describe the same symbols, and no key belongs to a label
and an equation. -/
theorem index_represents_symbols {table : Table} (reachable : table.Reachable) :
    Set.BijOn (fun key => table.index[key]?) {key | key ∈ table.index} (some '' table.symbols) ∧
      table.WellFormed ∧
      ∀ (key : Key) (labelId : LabelId) (equationId : EquationId),
        ¬(table.index[key]? = some (.label labelId) ∧
          table.index[key]? = some (.equation equationId)) := by
  refine ⟨reachable.wellFormed.bijOn_symbols, reachable.wellFormed, ?_⟩
  rintro key labelId equationId ⟨isLabel, isEquation⟩
  rw [isLabel] at isEquation
  cases isEquation

/-- A run with refused, repeated and conflicting calls, a clearing, and values of labels. -/
theorem index_represents_symbols_mixed_run :
    let table := ({} : Table).after
      [.labelFor "old" ⟨0, 0⟩, .clear, .labelFor "@loop" ⟨1, 2⟩, .labelFor "@loop" ⟨1, 9⟩,
        .declareEquation "SIZE" ⟨3, 1⟩ "16", .labelFor "SIZE" ⟨4, 4⟩, .labelFor "9lives" ⟨0, 0⟩,
        .defineLabel ⟨0⟩ 7, .declareEquation "@loop" ⟨2, 0⟩ "again", .freshName]
    table.Reachable ∧ table.WellFormed ∧ table.size = 3 :=
  ⟨Reachable.new.after _, (index_represents_symbols (Reachable.new.after _)).2.1, by decide +kernel⟩

end Symtab.Table
