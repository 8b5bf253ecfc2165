import Symtab.Proofs.Piece
import Symtab.Proofs.Table.Representation

/-!
# Substitution by the index

Substitution searches the equations of a table in order for the first one with the name of a word
that a line sees. The index makes this search unnecessary: a word without sigil has one global key,
so at most one equation has its name, and it is the one to which that key belongs.
-/

namespace Symtab.Table

/-- The equation to which the global key of a word belongs, if a line in a context sees it. -/
def indexedEquation? (table : Table) (word : String) (context : Context) : Option Equation :=
  match table.index[Key.global word]? with
  | some (.equation id) => (table.equation? id).filter (·.isVisibleFrom context)
  | some (.label _) | none => none

/-- A part of a line after substitution, where the index tells which equation replaces a word. -/
def substituteIndexed (table : Table) (context : Context) : Piece → List Char
  | .word characters =>
    match table.indexedEquation? (String.ofList characters) context with
    | some equation => equation.replacement.toList
    | none => characters
  | .other c => [c]

theorem suits_of_visibleEquation? {table : Table} {word : String} {context : Context}
    {equation : Equation} (search : table.visibleEquation? word context = some equation) :
    equation ∈ table.equations.toList ∧ equation.isVisibleFrom context = true ∧
      equation.name = word := by
  have suits := List.find?_some search
  rw [Bool.and_eq_true, beq_iff_eq] at suits
  exact ⟨List.mem_of_find?_eq_some search, suits⟩

namespace WellFormed

variable {table : Table} {id : EquationId} {equation : Equation}

theorem exists_key_of_equation (wellFormed : table.WellFormed)
    (found : table.equation? id = some equation) :
    ∃ key, Key.resolve equation.name equation.declared = .ok key ∧
      table.index[key]? = some (.equation id) := by
  have inUse := (table.equations.exists_get?_eq_some_iff id).mp ⟨equation, found⟩
  rcases wellFormed.existsUnique_key (.equation id) inUse with ⟨key, bound, _⟩
  rcases wellFormed.suits key (.equation id) bound with ⟨same, foundSame, resolves⟩
  rw [found, Option.some.injEq] at foundSame
  exact ⟨key, foundSame ▸ resolves, bound⟩

/-- The global key of an equation that is not local to a file belongs to that equation. -/
theorem index_global_of_equation (wellFormed : table.WellFormed)
    (found : table.equation? id = some equation)
    (notLocal : Name.sigilLength equation.name ≠ 1) :
    table.index[Key.global equation.name]? = some (.equation id) := by
  rcases wellFormed.exists_key_of_equation found with ⟨key, resolves, bound⟩
  rw [← Key.eq_global_of_resolve resolves notLocal, bound]

/-- For names that are not local to a file the search finds what the index tells. -/
theorem visibleEquation?_eq_indexedEquation? (wellFormed : table.WellFormed) {word : String}
    (notLocal : Name.sigilLength word ≠ 1) (context : Context) :
    table.visibleEquation? word context = table.indexedEquation? word context := by
  cases search : table.visibleEquation? word context with
  | some equation =>
      rcases suits_of_visibleEquation? search with ⟨equationMem, visible, rfl⟩
      rcases Arena.mem_toList_iff.mp equationMem with ⟨id, found⟩
      have lookup : table.equation? id = some equation := found
      rw [indexedEquation?, wellFormed.index_global_of_equation lookup notLocal]
      simp [lookup, Option.filter_some, visible]
  | none =>
      have unsuited := List.find?_eq_none.mp search
      rw [indexedEquation?]
      split
      next id bound =>
        rcases wellFormed.suits _ (.equation id) bound with ⟨equation, lookup, resolves⟩
        have sameName : word = equation.name := Key.name_of_resolve resolves
        have hidden := unsuited equation (Arena.mem_toList_iff.mpr ⟨id, lookup⟩)
        rw [sameName] at hidden
        simp only [beq_self_eq_true, Bool.and_true] at hidden
        simp [lookup, Option.filter_some, hidden]
      next => rfl
      next => rfl

end WellFormed

/-- Without equations the search finds nothing, so copying the line at once gives the same. -/
theorem substitute_eq_flatMap (table : Table) (line : String) (context : Context) :
    table.substitute line context =
      String.ofList ((Piece.cut line.toList).flatMap (table.substitutePiece context)) := by
  rw [substitute]
  split
  next noEquations =>
    have copies : ∀ piece, table.substitutePiece context piece = piece.characters := by
      have nothingThere : table.equations.toList = [] := by
        simpa [Arena.isEmpty, Arena.toList] using noEquations
      intro piece
      cases piece <;> simp [substitutePiece, replacing?, visibleEquation?, nothingThere]
    rw [funext copies, Piece.flatMap_characters_cut, String.ofList_toList]
  next => rfl

theorem sigilLength_of_proper {word : List Char} (proper : (Piece.word word).Proper) :
    Name.sigilLength (String.ofList word) = 0 := by
  apply Name.sigilLength_eq_zero_of_symbolChars
  intro c charMem
  rw [← Name.isWordChar_false]
  exact proper.2 c (by simpa using charMem)

theorem WellFormed.substitutePiece_eq {table : Table} (wellFormed : table.WellFormed)
    {piece : Piece} (proper : piece.Proper) (context : Context) :
    table.substitutePiece context piece = table.substituteIndexed context piece := by
  cases piece with
  | other c => rfl
  | word characters =>
      have notLocal : Name.sigilLength (String.ofList characters) ≠ 1 := by
        simp [sigilLength_of_proper proper]
      rw [substitutePiece, substituteIndexed, replacing?,
        wellFormed.visibleEquation?_eq_indexedEquation? notLocal]
      rfl

/-- An equation whose name is a word has no sigil and no digit in front, and no other equation has
its name. -/
theorem WellFormed.equation_of_word {table : Table} (wellFormed : table.WellFormed)
    {word : List Char} (proper : (Piece.word word).Proper) {id : EquationId} {equation : Equation}
    (found : table.equation? id = some equation) (named : equation.name = String.ofList word) :
    Name.sigilLength equation.name = 0 ∧ (∀ first ∈ word.head?, first.isDigit = false) ∧
      ∀ (otherId : EquationId) (other : Equation), table.equation? otherId = some other →
        other.name = String.ofList word → otherId = id := by
  have plain : Name.sigilLength equation.name = 0 := by rw [named, sigilLength_of_proper proper]
  refine ⟨plain, ?_, ?_⟩
  · intro first firstMem
    rcases List.head?_eq_some_iff.mp firstMem with ⟨rest, rfl⟩
    rcases wellFormed.exists_key_of_equation found with ⟨key, resolves, _⟩
    have valid := (Key.resolve_eq_ok_iff.mp resolves).1
    exact Name.not_isDigit_of_isValid valid plain (by rw [named, String.toList_ofList])
  · intro otherId other otherFound otherNamed
    have bound := wellFormed.index_global_of_equation found (by simp [plain])
    have otherBound := wellFormed.index_global_of_equation otherFound
      (by simp [otherNamed, ← named, plain])
    rw [otherNamed, ← named, bound, Option.some.injEq, Entry.equation.injEq] at otherBound
    exact otherBound.symm

/-- Substitution replaces the words of the one cut of a line as the index tells, in every table that
a run of operations leads to. The search for an equation is never ambiguous, it never finds an
equation with a sigil or for a word that starts with a digit, and without equations it copies. -/
theorem substitute_eq_substituteIndexed {table : Table} (reachable : table.Reachable)
    (line : String) (context : Context) :
    (∃! pieces, Piece.IsCut line.toList pieces) ∧
    (∀ pieces, Piece.IsCut line.toList pieces →
      table.substitute line context =
        String.ofList (pieces.flatMap (table.substituteIndexed context))) ∧
    table.substitute line context =
      String.ofList ((Piece.cut line.toList).flatMap (table.substitutePiece context)) ∧
    ∀ word : List Char, (Piece.word word).Proper →
      ∀ (id : EquationId) (equation : Equation), table.equation? id = some equation →
        equation.name = String.ofList word →
          Name.sigilLength equation.name = 0 ∧ (∀ first ∈ word.head?, first.isDigit = false) ∧
          ∀ (otherId : EquationId) (other : Equation), table.equation? otherId = some other →
            other.name = String.ofList word → otherId = id := by
  have wellFormed := reachable.wellFormed
  refine ⟨Piece.existsUnique_isCut line.toList, ?_, table.substitute_eq_flatMap line context, ?_⟩
  · intro pieces isCut
    rw [substitute_eq_flatMap, ← isCut.eq_cut]
    congr 1
    apply List.flatMap_congr
    intro piece pieceMem
    exact wellFormed.substitutePiece_eq (isCut.proper piece pieceMem) context
  · intro word proper id equation found named
    exact wellFormed.equation_of_word proper found named

/-- In `SIZE+SIZES*4x` only the first word is replaced. -/
theorem substitute_eq_substituteIndexed_size :
    let table := ({} : Table).after
      [.declareEquation "@SIZE" ⟨1, 1⟩ "hidden", .declareEquation "SIZE" ⟨1, -1⟩ "16",
        .declareEquation "SIZE" ⟨-1, -1⟩ "late", .labelFor "SIZES" ⟨1, 1⟩]
    let pieces : List Piece :=
      [.word "SIZE".toList, .other '+', .word "SIZES".toList, .other '*', .word "4x".toList]
    table.Reachable ∧ Piece.IsCut "SIZE+SIZES*4x".toList pieces ∧
      table.substitute "SIZE+SIZES*4x" ⟨1, 7⟩ = "16+SIZES*4x" := by
  intro table pieces
  have reachable : table.Reachable := Reachable.new.after _
  have isCut : Piece.IsCut "SIZE+SIZES*4x".toList pieces := by
    have samePieces : pieces = Piece.cut "SIZE+SIZES*4x".toList := by decide +kernel
    exact samePieces ▸ Piece.isCut_cut _
  refine ⟨reachable, isCut, ?_⟩
  rw [(substitute_eq_substituteIndexed reachable _ _).2.1 pieces isCut]
  decide +kernel

end Symtab.Table
