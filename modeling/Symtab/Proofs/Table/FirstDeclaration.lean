import Mathlib.Data.List.DropRight
import Symtab.Proofs.Table.Representation

/-!
# The first declaration wins

The symbols of a table are determined by the calls since the last clearing: a key belongs to the
symbol that the first call with this key declares, and symbols of one kind are numbered in the
order of these first calls. Later calls with the same key, calls with an invalid name, and all other
operations change nothing about it.

The proof keeps the table and the history of calls side by side. A step that declares something
adds one call to the history, and the index, the labels and the equations after it are those that
the longer history determines.
-/

namespace Symtab

namespace Declaration

/-- The declarations asked for since the last clearing, in order. -/
def requested (operations : List Operation) : List Declaration :=
  (operations.rtakeWhile (!·.isClear)).filterMap Operation.declaration?

/-- The declarations whose key no earlier one has. -/
def firsts (declarations : List Declaration) : List Declaration :=
  declarations.eraseDupsBy fun later earlier => later.key == earlier.key

/-- The number of declarations of symbols of a kind. -/
def countKind (kind : SymbolKind) (declarations : List Declaration) : Nat :=
  declarations.countP (·.symbol.kind = kind)

/-- The kind of the symbol that a key belongs to and its number among the symbols of its kind: the
first declaration of the key decides, and numbers count the keys first declared before it. -/
def binding? (declarations : List Declaration) (key : Key) : Option (SymbolKind × Nat) :=
  (declarations.find? (·.key = key)).map fun first =>
    (first.symbol.kind,
      countKind first.symbol.kind (firsts (declarations.takeWhile (·.key ≠ key))))

/-- A last item is kept unless one of the others is the same. The rest of a list is filtered before
it is searched, which makes it shorter but no tail of the list. -/
theorem eraseDupsBy_concat {α : Type} (same : α → α → Bool) (items : List α) (item : α) :
    (items ++ [item]).eraseDupsBy same =
      if (items.eraseDupsBy same).any (same item) then items.eraseDupsBy same
      else items.eraseDupsBy same ++ [item] := by
  induction h : items.length using Nat.strong_induction_on generalizing items with
  | _ n ih =>
      cases items with
      | nil => simp [List.eraseDupsBy_cons]
      | cons first rest =>
          have shorter : (rest.filter fun other => same other first = false).length < n := by
            have := List.length_filter_le (fun other => same other first = false) rest
            simp only [List.length_cons] at h
            omega
          rw [List.cons_append, List.eraseDupsBy_cons, List.eraseDupsBy_cons, List.filter_append,
            List.any_cons]
          cases repeated : same item first with
          | true => simp [repeated]
          | false =>
              rw [List.filter_singleton]
              simp only [repeated, decide_true, cond_true, Bool.false_or]
              rw [ih _ shorter _ rfl]
              split <;> rfl

theorem mem_firsts_key_iff {declarations : List Declaration} {key : Key} :
    (∃ first ∈ firsts declarations, first.key = key) ↔
      ∃ declaration ∈ declarations, declaration.key = key := by
  induction declarations using List.reverseRecOn with
  | nil => simp [firsts]
  | append_singleton declarations declaration ih =>
      rw [firsts, eraseDupsBy_concat, ← firsts]
      split
      next repeated =>
        simp only [List.any_eq_true, beq_iff_eq] at repeated
        rcases repeated with ⟨first, firstMem, sameKey⟩
        rw [ih]
        constructor
        · rintro ⟨old, oldMem, isKey⟩
          exact ⟨old, List.mem_append_left _ oldMem, isKey⟩
        · rintro ⟨old, oldMem, isKey⟩
          rcases List.mem_append.mp oldMem with oldMem | isNew
          · exact ⟨old, oldMem, isKey⟩
          · rcases List.mem_singleton.mp isNew with rfl
            exact ih.mp ⟨first, firstMem, sameKey.symm.trans isKey⟩
      next => simp only [List.mem_append, List.mem_singleton, or_and_right, exists_or, ih]

theorem firsts_concat_of_mem {declarations : List Declaration} {declaration : Declaration}
    (repeated : ∃ earlier ∈ declarations, earlier.key = declaration.key) :
    firsts (declarations ++ [declaration]) = firsts declarations := by
  rcases mem_firsts_key_iff.mpr repeated with ⟨first, firstMem, sameKey⟩
  rw [firsts, eraseDupsBy_concat, ← firsts, if_pos]
  exact List.any_eq_true.mpr ⟨first, firstMem, by simp [sameKey]⟩

theorem firsts_concat_of_not_mem {declarations : List Declaration} {declaration : Declaration}
    (isNew : ¬∃ earlier ∈ declarations, earlier.key = declaration.key) :
    firsts (declarations ++ [declaration]) = firsts declarations ++ [declaration] := by
  rw [firsts, eraseDupsBy_concat, ← firsts, if_neg]
  intro repeated
  rcases List.any_eq_true.mp repeated with ⟨first, firstMem, sameKey⟩
  exact isNew (mem_firsts_key_iff.mp ⟨first, firstMem, (beq_iff_eq.mp sameKey).symm⟩)

theorem binding?_eq_none_iff {declarations : List Declaration} {key : Key} :
    binding? declarations key = none ↔ ¬∃ earlier ∈ declarations, earlier.key = key := by
  simp [binding?]

/-- A declaration binds its key when no earlier one did, and no other key. -/
theorem binding?_concat (declarations : List Declaration) (declaration : Declaration) (key : Key) :
    binding? (declarations ++ [declaration]) key =
      (binding? declarations key).or
        (if declaration.key = key then
          some (declaration.symbol.kind, countKind declaration.symbol.kind (firsts declarations))
        else none) := by
  cases found : declarations.find? (·.key = key) with
  | some first =>
      have stops : ¬(declarations.takeWhile (·.key ≠ key)).length = declarations.length := by
        intro sameLength
        have isPrefix := List.takeWhile_prefix (p := (·.key ≠ key)) (l := declarations)
        have whole := List.takeWhile_eq_self_iff.mp (isPrefix.eq_of_length sameLength)
        have differs := whole first (List.mem_of_find?_eq_some found)
        have isKey := List.find?_some found
        simp_all
      simp only [binding?, List.find?_append, found, List.takeWhile_append, if_neg stops,
        Option.some_or, Option.map_some]
  | none =>
      have differs : ∀ earlier ∈ declarations, earlier.key ≠ key := by
        simpa using List.find?_eq_none.mp found
      by_cases isKey : declaration.key = key
      · have longer : (declarations ++ [declaration]).takeWhile (·.key ≠ key) = declarations := by
          rw [List.takeWhile_append_of_pos (by simpa using differs)]
          simp [isKey]
        rw [binding?, binding?, longer, List.find?_append, found]
        simp [isKey]
      · simp [binding?, List.find?_append, found, isKey]

/-- The names of the labels that are declared. -/
def labelNames (declarations : List Declaration) : List String :=
  declarations.filterMap (·.symbol.labelName?)

/-- The equations that are declared. -/
def declaredEquations (declarations : List Declaration) : List Equation :=
  declarations.filterMap (·.symbol.equation?)

theorem countKind_label (declarations : List Declaration) :
    countKind .label declarations = (labelNames declarations).length := by
  rw [countKind, labelNames, List.length_filterMap_eq_countP]
  congr 1
  funext declaration
  cases declaration.symbol <;> rfl

theorem countKind_equation (declarations : List Declaration) :
    countKind .equation declarations = (declaredEquations declarations).length := by
  rw [countKind, declaredEquations, List.length_filterMap_eq_countP]
  congr 1
  funext declaration
  cases declaration.symbol <;> rfl

/-- A longer history has at least as many symbols of every kind. -/
theorem countKind_firsts_le (kind : SymbolKind) (declarations : List Declaration)
    (declaration : Declaration) :
    countKind kind (firsts declarations) ≤
      countKind kind (firsts (declarations ++ [declaration])) := by
  by_cases repeated : ∃ earlier ∈ declarations, earlier.key = declaration.key
  · rw [firsts_concat_of_mem repeated]
  · rw [firsts_concat_of_not_mem repeated]
    simp [countKind, List.countP_append]

/-- Clearing forgets the history, and every other operation adds what it asks for. -/
theorem requested_concat (operations : List Operation) (operation : Operation) :
    requested (operations ++ [operation]) =
      if operation.isClear then []
      else requested operations ++ operation.declaration?.toList := by
  rw [requested, List.rtakeWhile_concat]
  cases cleared : operation.isClear with
  | true => simp
  | false => cases asks : operation.declaration? <;> simp [requested, asks]

end Declaration

namespace Table

open Declaration

/-- A table has the symbols that a history of declarations determines. -/
structure Records (table : Table) (declarations : List Declaration) : Prop where
  index_eq : ∀ key : Key, table.index[key]?.map (fun entry => (entry.kind, entry.number)) =
    binding? declarations key
  names_eq : table.labels.toList.map Label.name = labelNames (firsts declarations)
  equations_eq : table.equations.toList = declaredEquations (firsts declarations)

/-- The number of symbols that a history leaves room for. -/
def HasRoom (declarations : List Declaration) : Prop :=
  ∀ kind, countKind kind (firsts declarations) ≤ UInt32.size

namespace Records

variable {table : Table} {declarations : List Declaration}

theorem of_settings (settings : Settings) : Records { settings } [] where
  index_eq key := by simp [binding?]
  names_eq := rfl
  equations_eq := rfl

theorem of_sameSymbols (records : table.Records declarations) {after : Table}
    (same : table.SameSymbols after) : after.Records declarations := by
  rcases same with ⟨_, sameIndex, sameEquations, sameNames⟩
  exact ⟨sameIndex ▸ records.index_eq, sameNames.trans records.names_eq,
    sameEquations ▸ records.equations_eq⟩

theorem count_eq (records : table.Records declarations) (kind : SymbolKind) :
    table.count kind = countKind kind (firsts declarations) := by
  cases kind with
  | label =>
      rw [countKind_label, ← records.names_eq]
      simp [count]
  | equation =>
      rw [countKind_equation, ← records.equations_eq]
      simp [count]

theorem free_iff (records : table.Records declarations) {key : Key} :
    table.index[key]? = none ↔ ¬∃ earlier ∈ declarations, earlier.key = key := by
  rw [← binding?_eq_none_iff, ← records.index_eq, Option.map_eq_none_iff]

theorem concat_taken (records : table.Records declarations) {declaration : Declaration}
    {entry : Entry} (bound : table.index[declaration.key]? = some entry) :
    table.Records (declarations ++ [declaration]) := by
  have repeated : ∃ earlier ∈ declarations, earlier.key = declaration.key := by
    by_contra isNew
    rw [records.free_iff.mpr isNew] at bound
    cases bound
  refine ⟨?_, ?_, ?_⟩
  · intro key
    rw [binding?_concat, records.index_eq key]
    cases old : binding? declarations key with
    | some binding => rfl
    | none =>
        rw [if_neg]
        · rfl
        · rintro rfl
          exact binding?_eq_none_iff.mp old repeated
  · rw [firsts_concat_of_mem repeated]
    exact records.names_eq
  · rw [firsts_concat_of_mem repeated]
    exact records.equations_eq

/-- A history leaves a handle for the symbol that a declaration with a free key adds to it. -/
theorem count_lt_size (records : table.Records declarations) {declaration : Declaration}
    (free : table.index[declaration.key]? = none)
    (room : HasRoom (declarations ++ [declaration])) :
    table.count declaration.symbol.kind < UInt32.size := by
  have enough := room declaration.symbol.kind
  rw [firsts_concat_of_not_mem (records.free_iff.mp free)] at enough
  rw [records.count_eq]
  simp [countKind, List.countP_append] at enough ⊢
  omega

/-- Inserting a symbol under a free key binds it to the next number of its kind. -/
theorem index_insert (records : table.Records declarations) {key : Key} {symbol : Symbol}
    {entry : Entry} (free : table.index[key]? = none) (sameKind : entry.kind = symbol.kind)
    (number : entry.number = table.count entry.kind) (other : Key) :
    (table.index.insert key entry)[other]?.map (fun entry => (entry.kind, entry.number)) =
      binding? (declarations ++ [⟨key, symbol⟩]) other := by
  rw [binding?_concat, getElem?_insert_index, ← records.index_eq, ← records.count_eq]
  by_cases isKey : other = key
  · subst isKey
    simp [free, sameKind, number]
  · simp [isKey, Ne.symm isKey]

/-- Every step but clearing extends the history by what its operation asks for. -/
theorem concat (records : table.Records declarations) {operation : Operation} {after : Table}
    (step : table.Step operation after) (noClear : operation.isClear = false)
    (room : HasRoom (declarations ++ operation.declaration?.toList)) :
    after.Records (declarations ++ operation.declaration?.toList) := by
  cases step with
  | cleared => cases noClear
  | kept asksNothing _ same =>
      rw [asksNothing]
      simpa using records.of_sameSymbols same
  | taken asks bound =>
      rw [asks]
      exact records.concat_taken bound
  | @exhausted _ declaration asks free full =>
      rw [asks, Option.toList_some] at room
      have enough := records.count_lt_size free room
      omega
  | @label _ _ _ _ id asks free pushes =>
      rw [asks, Option.toList_some]
      have isNew := records.free_iff.mp free
      rcases Arena.push_eq_ok_iff.mp pushes with ⟨_, items, position⟩
      have number : (Entry.label id).number = table.count .label := position
      refine ⟨records.index_insert free rfl number, ?_, ?_⟩
      · rw [firsts_concat_of_not_mem isNew]
        simp [items, records.names_eq, labelNames, Symbol.labelName?]
      · rw [firsts_concat_of_not_mem isNew]
        simp [records.equations_eq, declaredEquations, Symbol.equation?]
  | @equation _ _ _ _ id asks free pushes =>
      rw [asks, Option.toList_some]
      have isNew := records.free_iff.mp free
      rcases Arena.push_eq_ok_iff.mp pushes with ⟨_, items, position⟩
      have number : (Entry.equation id).number = table.count .equation := position
      refine ⟨records.index_insert free rfl number, ?_, ?_⟩
      · rw [firsts_concat_of_not_mem isNew]
        simp [records.names_eq, labelNames, Symbol.labelName?]
      · rw [firsts_concat_of_not_mem isNew]
        simp [items, records.equations_eq, declaredEquations, Symbol.equation?]

end Records

theorem after_concat (table : Table) (operations : List Operation) (operation : Operation) :
    table.after (operations ++ [operation]) =
      ((table.after operations).perform operation).table := by
  simp [after]

/-- After every run the table has the symbols that the calls since the last clearing determine. -/
theorem records_after (settings : Settings) (operations : List Operation)
    (room : HasRoom (requested operations)) :
    (({ settings } : Table).after operations).Records (requested operations) := by
  induction operations using List.reverseRecOn with
  | nil => exact .of_settings settings
  | append_singleton operations operation ih =>
      have step := step_perform (({ settings } : Table).after operations) operation
      rw [after_concat]
      rw [requested_concat] at room ⊢
      cases cleared : operation.isClear with
      | true =>
          rw [if_pos rfl]
          cases operation with
          | clear => exact .of_settings _
          | _ => cases cleared
      | false =>
          rw [cleared, if_neg Bool.false_ne_true] at room
          rw [if_neg Bool.false_ne_true]
          refine (ih fun kind => ?_).concat step cleared room
          refine Nat.le_trans ?_ (room kind)
          cases operation.declaration? with
          | none => simp
          | some declaration => exact countKind_firsts_le kind _ declaration

/-- The symbols of a table after a run are those of the first calls with their keys since the last
clearing: a name is declared exactly when a call with a valid name has had its key, the first such
call decides of which kind the symbol is and which number it has, and both listings show the first
calls in order. -/
theorem first_declaration_wins (settings : Settings) (operations : List Operation)
    (room : HasRoom (requested operations)) :
    let table := ({ settings } : Table).after operations
    let calls := requested operations
    (∀ (name : String) (context : Context), table.declares name context = true ↔
      ∃ call ∈ calls, Key.resolve name context = .ok call.key) ∧
    (∀ key : Key, table.index[key]?.map (fun entry => (entry.kind, entry.number)) =
      binding? calls key) ∧
    table.labels.enumerate.map (fun (id, label) => (label.name, Position.toNat id)) =
      (labelNames (firsts calls)).zipIdx ∧
    table.equations.enumerate.map (fun (id, equation) => (equation, Position.toNat id)) =
      (declaredEquations (firsts calls)).zipIdx := by
  intro table calls
  have records : table.Records calls := records_after settings operations room
  refine ⟨?_, records.index_eq, ?_, ?_⟩
  · intro name context
    simp only [declares_eq_true_iff, ne_eq, records.free_iff, not_not]
    constructor
    · rintro ⟨key, resolves, call, callMem, rfl⟩
      exact ⟨call, callMem, resolves⟩
    · rintro ⟨call, callMem, resolves⟩
      exact ⟨call.key, resolves, call, callMem, rfl⟩
  · rw [← records.names_eq, List.zipIdx_map, ← Arena.enumerate_eq_zipIdx, List.map_map]
    rfl
  · rw [← records.equations_eq, ← Arena.enumerate_eq_zipIdx]

/-- After a clearing `@x` of file 1 is the second equation, whatever asked for it later. -/
theorem first_declaration_wins_after_clear :
    let operations : List Operation :=
      [.labelFor "@x" ⟨1, 0⟩, .clear, .declareEquation "SIZE" ⟨3, 1⟩ "16", .labelFor "y" ⟨0, 0⟩,
        .labelFor "9" ⟨0, 0⟩, .declareEquation "@x" ⟨1, 2⟩ "first", .labelFor "@x" ⟨1, 7⟩,
        .declareEquation "@x" ⟨1, 2⟩ "second", .labelFor "@x" ⟨2, 2⟩]
    HasRoom (requested operations) ∧
      (({} : Table).after operations).index[(⟨1, -1, "@x"⟩ : Key)]?.map
        (fun entry => (entry.kind, entry.number)) = some (.equation, 1) := by
  intro operations
  have room : HasRoom (requested operations) := by
    intro kind
    cases kind <;> decide +kernel
  refine ⟨room, ?_⟩
  rw [(first_declaration_wins {} operations room).2.1]
  decide +kernel

end Table

end Symtab
