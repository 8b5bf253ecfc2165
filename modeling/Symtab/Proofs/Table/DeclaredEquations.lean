import Symtab.Proofs.Table.SubstitutionByParts

/-!
# Equations that are used

A name without a sigil consists of the characters that make up the words of a line, so an equation
that was declared under such a name replaces it wherever the line sees the equation. The equation
stays among the equations of the table until the table is cleared, and no other one takes its name,
so this holds however the table grows.

A sigil is not among these characters. The search for a word of a line therefore only ever finds
equations without a sigil, and an equation with one could as well be left out.
-/

namespace Symtab

theorem Equation.isVisibleFrom_eq_true_iff {equation : Equation} {context : Context} :
    equation.isVisibleFrom context = true ↔
      (equation.declared.fileId = anyScope ∨ equation.declared.fileId = context.fileId) ∧
      (equation.declared.sectionId = anyScope ∨
        equation.declared.sectionId = context.sectionId) := by
  simp [isVisibleFrom, ScopeToken.covers]

namespace Table

variable {table : Table} {context : Context} {equation : Equation}

theorem Reachable.declareEquation (reachable : table.Reachable) (name : String)
    (context : Context) (replacement : String) :
    (table.declareEquation name context replacement).table.Reachable :=
  reachable.perform (.declareEquation name context replacement)

/-- A declaration that succeeds adds its equation behind the others. -/
theorem equations_declareEquation {name replacement : String} {declared : Context}
    {id : EquationId}
    (declares : (table.declareEquation name declared replacement).answer = .ok id) :
    (table.declareEquation name declared replacement).table.equations.toList =
      table.equations.toList ++ [⟨name, replacement, declared⟩] := by
  have call := table.equationCall name declared replacement
  generalize table.declareEquation name declared replacement = outcome at call declares ⊢
  cases call with
  | made _ _ pushes => exact (Arena.push_eq_ok_iff.mp pushes).2.1
  | _ => cases declares

/-- Every operation but clearing keeps all equations and adds new ones behind them. -/
theorem equations_prefix_perform {operation : Operation} (noClear : operation.isClear = false) :
    table.equations.toList <+: (table.perform operation).table.equations.toList := by
  have step := step_perform table operation
  generalize (table.perform operation).table = after at step ⊢
  cases step with
  | cleared => cases noClear
  | kept _ _ same => simp only [same.equations_eq, List.prefix_rfl]
  | equation _ _ pushes =>
      rw [(Arena.push_eq_ok_iff.mp pushes).2.1]
      exact List.prefix_append _ _
  | _ => exact List.prefix_rfl

theorem equations_prefix_after {operations : List Operation}
    (noClear : ∀ operation ∈ operations, operation.isClear = false) :
    table.equations.toList <+: (table.after operations).equations.toList := by
  induction operations generalizing table with
  | nil => exact List.prefix_rfl
  | cons operation operations ih =>
      rcases List.forall_mem_cons.mp noClear with ⟨noClearNow, noClearLater⟩
      exact (equations_prefix_perform noClearNow).trans (ih noClearLater)

/-- A line that consists of the name of an equation stays as it is where it does not see the
equation, for no other equation has the name. -/
theorem WellFormed.substitute_name_of_hidden (wellFormed : table.WellFormed)
    (equationMem : equation ∈ table.equations.toList)
    (proper : (Piece.word equation.name.toList).Proper)
    (hidden : equation.isVisibleFrom context ≠ true) :
    table.substitute equation.name context = equation.name := by
  rcases Arena.mem_toList_iff.mp equationMem with ⟨id, found⟩
  have unique := (wellFormed.equation_of_word proper found (String.ofList_toList).symm).2.2
  have noOther : table.visibleEquation? (String.ofList equation.name.toList) context = none := by
    cases search : table.visibleEquation? (String.ofList equation.name.toList) context with
    | none => rfl
    | some other =>
        rcases suits_of_visibleEquation? search with ⟨otherMem, visible, named⟩
        rcases Arena.mem_toList_iff.mp otherMem with ⟨otherId, otherFound⟩
        rw [unique otherId other otherFound named, found, Option.some.injEq] at otherFound
        exact absurd (otherFound ▸ visible) hidden
  apply substitute_eq_iff.mpr
  calc table.substituted context equation.name.toList
      = table.substitutePiece context (.word equation.name.toList) := substituted_characters proper
    _ = equation.name.toList := by rw [substitutePiece_word, noOther, Option.map_none]

theorem WellFormed.substitute_name_eq_ite (wellFormed : table.WellFormed)
    (equationMem : equation ∈ table.equations.toList)
    (plain : Name.sigilLength equation.name = 0) (context : Context) :
    table.substitute equation.name context =
      if equation.isVisibleFrom context = true then equation.replacement else equation.name := by
  split
  next visible => exact wellFormed.substitute_name equationMem ⟨plain, visible⟩
  next hidden =>
    rcases Arena.mem_toList_iff.mp equationMem with ⟨id, found⟩
    rcases wellFormed.exists_key_of_equation found with ⟨key, resolves, _⟩
    have proper := Piece.proper_of_isValid (Key.resolve_eq_ok_iff.mp resolves).1 plain
    exact wellFormed.substitute_name_of_hidden equationMem proper hidden

/-- Between texts that do not go on with word characters, a word is substituted on its own. -/
theorem substitute_around {before word behind : String}
    (outsideBefore : ∀ last ∈ before.toList.getLast?, Name.isWordChar false last = false)
    (outsideBehind : ∀ first ∈ behind.toList.head?, Name.isWordChar false first = false) :
    table.substitute (before ++ word ++ behind) context =
      table.substitute before context ++ table.substitute word context ++
        table.substitute behind context := by
  have boundaryBefore : Piece.WordBoundary before.toList (word.toList ++ behind.toList) :=
    fun last lastMem _ _ => Or.inl (outsideBefore last lastMem)
  have boundaryBehind : Piece.WordBoundary word.toList behind.toList :=
    fun _ _ first firstMem => Or.inr (outsideBehind first firstMem)
  apply substitute_eq_iff.mpr
  simp only [String.toList_append, List.append_assoc, toList_substitute]
  rw [substituted_append boundaryBefore, substituted_append boundaryBehind]

/-- The table without an equation. -/
def without (table : Table) (equation : Equation) : Table :=
  { table with
    equations := ⟨table.equations.items.filter (· ≠ equation),
      Nat.le_trans Array.size_filter_le table.equations.size_le⟩ }

theorem equations_without (table : Table) (equation : Equation) :
    (table.without equation).equations.toList = table.equations.toList.filter (· ≠ equation) :=
  Array.toList_filter

/-- The search for a word only ever ends at an equation without a sigil. -/
theorem visibleEquation?_eq_find?_plain (table : Table) {word : List Char}
    (proper : (Piece.word word).Proper) (context : Context) :
    table.visibleEquation? (String.ofList word) context =
      (table.equations.toList.filter (Name.sigilLength ·.name = 0)).find?
        fun equation => equation.isVisibleFrom context && equation.name == String.ofList word := by
  rw [visibleEquation?, List.find?_filter]
  congr 1
  funext equation
  by_cases named : equation.name = String.ofList word
  · simp [named, sigilLength_of_proper proper]
  · simp [named]

/-- Substitution never looks at equations with a sigil. -/
theorem substitute_eq_of_filter_eq {first second : Table}
    (samePlain : first.equations.toList.filter (Name.sigilLength ·.name = 0) =
      second.equations.toList.filter (Name.sigilLength ·.name = 0)) (line : String)
    (context : Context) : first.substitute line context = second.substitute line context := by
  refine substitute_congr ?_ line
  intro word proper
  rw [visibleEquation?_eq_find?_plain first proper, visibleEquation?_eq_find?_plain second proper,
    samePlain]

theorem substitute_without (sigil : Name.sigilLength equation.name ≠ 0) (line : String)
    (context : Context) :
    (table.without equation).substitute line context = table.substitute line context := by
  apply substitute_eq_of_filter_eq
  rw [equations_without, List.filter_filter]
  apply List.filter_congr
  intro other _
  by_cases same : other = equation
  · simp [same, sigil]
  · simp [same]

theorem substitute_declareEquation {name replacement : String} {declared : Context}
    {id : EquationId} (declares : (table.declareEquation name declared replacement).answer = .ok id)
    (sigil : Name.sigilLength name ≠ 0) (line : String) (context : Context) :
    (table.declareEquation name declared replacement).table.substitute line context =
      table.substitute line context := by
  apply substitute_eq_of_filter_eq
  rw [equations_declareEquation declares, List.filter_append]
  simp [sigil]

/-- In every later state of the table, until it is cleared, a declared equation without a sigil
replaces its name between other than word characters, in exactly the lines that its context covers.
One with a sigil is never used: declaring it changes no line, and later it could be left out. -/
theorem declared_equation_is_used_iff_plain {table : Table} (reachable : table.Reachable)
    {name replacement : String} {declared : Context} {id : EquationId}
    (declares : (table.declareEquation name declared replacement).answer = .ok id)
    (later : List Operation) (noClear : ∀ operation ∈ later, operation.isClear = false) :
    let table' := (table.declareEquation name declared replacement).table
    let final := table'.after later
    (Name.sigilLength name = 0 → ∀ (context : Context) (before behind : String),
      (∀ last ∈ before.toList.getLast?, Name.isWordChar false last = false) →
      (∀ first ∈ behind.toList.head?, Name.isWordChar false first = false) →
        final.substitute (before ++ name ++ behind) context =
          final.substitute before context ++
          (if (declared.fileId = anyScope ∨ declared.fileId = context.fileId) ∧
              (declared.sectionId = anyScope ∨ declared.sectionId = context.sectionId)
            then replacement else name) ++
          final.substitute behind context) ∧
    (Name.sigilLength name ≠ 0 → ∀ (line : String) (context : Context),
      table'.substitute line context = table.substitute line context ∧
      final.substitute line context =
        (final.without ⟨name, replacement, declared⟩).substitute line context) := by
  intro table' final
  refine ⟨?_, ?_⟩
  · intro plain context before behind outsideBefore outsideBehind
    have wellFormed : final.WellFormed :=
      ((reachable.declareEquation name declared replacement).after later).wellFormed
    have equationMem : ⟨name, replacement, declared⟩ ∈ final.equations.toList := by
      apply (equations_prefix_after noClear).subset
      rw [equations_declareEquation declares]
      exact List.mem_append_right _ (List.mem_singleton_self _)
    have nameReplaced := wellFormed.substitute_name_eq_ite equationMem plain context
    simp only [Equation.isVisibleFrom_eq_true_iff] at nameReplaced
    rw [substitute_around outsideBefore outsideBehind, nameReplaced]
  · intro sigil line context
    exact ⟨substitute_declareEquation declares sigil line context,
      (substitute_without sigil line context).symm⟩

/-- `SIZE` is seen from all sections of one file, also after it was declared again in vain. Then
`@SIZE` is declared for all lines and replaces nothing. -/
theorem declared_equation_is_used_iff_plain_size :
    let table := ({} : Table).after [.labelFor "loop" ⟨1, 1⟩]
    let withSize := (table.declareEquation "SIZE" ⟨1, -1⟩ "16").table.after
      [.declareEquation "SIZE" ⟨2, -1⟩ "32", .declareEquation "N" ⟨-1, -1⟩ "4", .freshName]
    let withLocal := (withSize.declareEquation "@SIZE" ⟨-1, -1⟩ "0").table
    let final := withLocal.after [.declareEquation "@@N" ⟨-1, -1⟩ "5"]
    table.Reachable ∧
      (table.declareEquation "SIZE" ⟨1, -1⟩ "16").answer = .ok ⟨0⟩ ∧
      (withSize.declareEquation "@SIZE" ⟨-1, -1⟩ "0").answer = .ok ⟨2⟩ ∧
      withLocal.substitute "N*SIZE+@SIZE" ⟨1, 7⟩ = "4*16+@16" ∧
      withLocal.substitute "N*SIZE+@SIZE" ⟨2, 7⟩ = "4*SIZE+@SIZE" ∧
      final.substitute "N*SIZE+@SIZE" ⟨1, 7⟩ =
        (final.without ⟨"@SIZE", "0", ⟨-1, -1⟩⟩).substitute "N*SIZE+@SIZE" ⟨1, 7⟩ := by
  intro table withSize withLocal final
  have reachable : table.Reachable := Reachable.new.after _
  have declaresSize : (table.declareEquation "SIZE" ⟨1, -1⟩ "16").answer = .ok ⟨0⟩ := by
    decide +kernel
  have declaresLocal : (withSize.declareEquation "@SIZE" ⟨-1, -1⟩ "0").answer = .ok ⟨2⟩ := by
    decide +kernel
  have sizeUsed := (declared_equation_is_used_iff_plain reachable declaresSize
    [.declareEquation "SIZE" ⟨2, -1⟩ "32", .declareEquation "N" ⟨-1, -1⟩ "4", .freshName]
    (by decide)).1 (by decide +kernel)
  have reachableWithSize : withSize.Reachable := (reachable.declareEquation _ _ _).after _
  have localUnused := (declared_equation_is_used_iff_plain reachableWithSize declaresLocal
    [.declareEquation "@@N" ⟨-1, -1⟩ "5"] (by decide)).2 (by decide +kernel)
  have outsideBefore : ∀ last ∈ "N*".toList.getLast?, Name.isWordChar false last = false := by
    have isLast : "N*".toList.getLast? = some '*' := by decide +kernel
    simp only [isLast, Option.mem_some_iff, forall_eq']
    decide
  have outsideBehind : ∀ first ∈ "+@SIZE".toList.head?, Name.isWordChar false first = false := by
    have isFirst : "+@SIZE".toList.head? = some '+' := by decide +kernel
    simp only [isFirst, Option.mem_some_iff, forall_eq']
    decide
  refine ⟨reachable, declaresSize, declaresLocal, ?_, ?_, (localUnused _ ⟨1, 7⟩).2⟩
  · rw [(localUnused _ ⟨1, 7⟩).1]
    exact (sizeUsed ⟨1, 7⟩ "N*" "+@SIZE" outsideBefore outsideBehind).trans (by decide +kernel)
  · rw [(localUnused _ ⟨2, 7⟩).1]
    exact (sizeUsed ⟨2, 7⟩ "N*" "+@SIZE" outsideBefore outsideBehind).trans (by decide +kernel)

end Table

end Symtab
