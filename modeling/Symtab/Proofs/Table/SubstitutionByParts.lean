import Symtab.Proofs.Table.VisibleEquations
import Symtab.Proofs.WordBoundary

/-!
# Substitution by parts

Substitution works on each word of a line on its own. Parts of a line that meet at a word boundary
are therefore substituted apart from each other, and a line stays as it is exactly when each of its
words does.

Replacing texts never make a word together with what stands around them. Whether a second
substitution changes anything is for this reason a question about the replacing texts alone, and
every one of them counts, since an equation that applies replaces a line that consists of its name.
-/

namespace Symtab.Table

variable {table : Table} {context : Context}

/-- The characters of a text after substitution. -/
def substituted (table : Table) (context : Context) (text : List Char) : List Char :=
  (Piece.cut text).flatMap (table.substitutePiece context)

theorem toList_substitute (table : Table) (line : String) (context : Context) :
    (table.substitute line context).toList = table.substituted context line.toList := by
  rw [substitute_eq_flatMap, String.toList_ofList, substituted]

theorem substitute_eq_iff {line result : String} :
    table.substitute line context = result ↔
      table.substituted context line.toList = result.toList := by
  rw [← toList_substitute, String.toList_inj]

theorem substituted_append {first second : List Char}
    (boundary : Piece.WordBoundary first second) :
    table.substituted context (first ++ second) =
      table.substituted context first ++ table.substituted context second := by
  rw [substituted, Piece.cut_append boundary, List.flatMap_append]
  rfl

theorem substituted_characters {piece : Piece} (proper : piece.Proper) :
    table.substituted context piece.characters = table.substitutePiece context piece := by
  rw [substituted, Piece.cut_characters proper, List.flatMap_singleton]

/-- At a word boundary a line is substituted like its two parts. -/
theorem substitute_append (table : Table) (context : Context) {first second : String}
    (boundary : Piece.WordBoundary first.toList second.toList) :
    table.substitute (first ++ second) context =
      table.substitute first context ++ table.substitute second context := by
  apply substitute_eq_iff.mpr
  rw [String.toList_append, String.toList_append, toList_substitute, toList_substitute]
  exact substituted_append boundary

/-- The parts meet at a character outside ASCII, in front of a word. -/
theorem substitute_append_outside_ascii :
    let table := ({} : Table).after [.declareEquation "PI" ⟨-1, -1⟩ "3"]
    Piece.WordBoundary "π = PI ; ñ".toList "PIñ".toList ∧
      table.substitute ("π = PI ; ñ" ++ "PIñ") ⟨0, 0⟩ = "π = 3 ; ñ" ++ "3ñ" := by
  intro table
  have boundary : Piece.WordBoundary "π = PI ; ñ".toList "PIñ".toList := by
    have isLast : "π = PI ; ñ".toList.getLast? = some 'ñ' := by decide +kernel
    intro last lastMem _ _
    obtain rfl := Option.mem_unique lastMem isLast
    left
    decide +kernel
  refine ⟨boundary, ?_⟩
  rw [substitute_append table ⟨0, 0⟩ boundary]
  decide +kernel

theorem substitutePiece_word_eq_self_iff {word : List Char} :
    table.substitutePiece context (.word word) = word ↔
      ∀ equation, table.visibleEquation? (String.ofList word) context = some equation →
        equation.replacement = String.ofList word := by
  rw [substitutePiece, replacing?]
  cases table.visibleEquation? (String.ofList word) context with
  | none => simp [Piece.characters]
  | some equation => simp [← String.toList_inj]

theorem substituted_eq_self_iff {text : List Char} :
    table.substituted context text = text ↔
      ∀ word, Piece.IsWholeWord text word → table.substitutePiece context (.word word) = word := by
  have isCut := Piece.isCut_cut text
  constructor
  · intro same word whole
    exact isCut.rewrite_eq_characters (fun _ => rfl) same _ (Piece.isWholeWord_iff_mem_cut.mp whole)
  · intro keepsWords
    have keepsPieces : ∀ piece ∈ Piece.cut text,
        table.substitutePiece context piece = piece.characters := by
      intro piece pieceMem
      cases piece with
      | word characters => exact keepsWords characters (Piece.isWholeWord_iff_mem_cut.mpr pieceMem)
      | other c => rfl
    rw [substituted, List.flatMap_congr keepsPieces, Piece.flatMap_characters_cut]

/-- A line stays as it is exactly when every whole word for which the search finds an equation is
its replacement. One word with another replacement is enough to change the line, and a line stays as
it is when no visible equation has the name of a whole word. -/
theorem substitute_eq_self_iff (table : Table) (line : String) (context : Context) :
    (table.substitute line context = line ↔
      ∀ word, Piece.IsWholeWord line.toList word → ∀ equation,
        table.visibleEquation? (String.ofList word) context = some equation →
          equation.replacement = String.ofList word) ∧
    (∀ word, Piece.IsWholeWord line.toList word → ∀ equation,
      table.visibleEquation? (String.ofList word) context = some equation →
        equation.replacement ≠ String.ofList word → table.substitute line context ≠ line) ∧
    ((∀ word, Piece.IsWholeWord line.toList word → ∀ equation ∈ table.equations.toList,
      equation.isVisibleFrom context = true → equation.name ≠ String.ofList word) →
        table.substitute line context = line) := by
  have staysIff : table.substitute line context = line ↔
      ∀ word, Piece.IsWholeWord line.toList word → ∀ equation,
        table.visibleEquation? (String.ofList word) context = some equation →
          equation.replacement = String.ofList word := by
    simp only [substitute_eq_iff, substituted_eq_self_iff, substitutePiece_word_eq_self_iff]
  refine ⟨staysIff, ?_, ?_⟩
  · intro word whole equation search differs stays
    exact differs (staysIff.mp stays word whole equation search)
  · intro unnamed
    apply staysIff.mpr
    intro word whole equation search
    rcases suits_of_visibleEquation? search with ⟨equationMem, visible, named⟩
    exact absurd named (unnamed word whole equation equationMem visible)

/-- Swapping two words of the same length changes a line, and a word that is its own replacement
does not. -/
theorem substitute_eq_self_iff_swapped :
    let table := ({} : Table).after
      [.declareEquation "A" ⟨-1, -1⟩ "B", .declareEquation "B" ⟨-1, -1⟩ "A",
        .declareEquation "LOOP" ⟨1, -1⟩ "LOOP"]
    Piece.IsWholeWord "A B".toList "A".toList ∧ table.substitute "A B" ⟨1, 1⟩ ≠ "A B" ∧
      table.substitute "LOOP (x)" ⟨1, 1⟩ = "LOOP (x)" := by
  intro table
  have whole : Piece.IsWholeWord "A B".toList "A".toList :=
    Piece.isWholeWord_iff_mem_cut.mpr (by decide +kernel)
  have search : table.visibleEquation? (String.ofList "A".toList) ⟨1, 1⟩ =
      some ⟨"A", "B", ⟨-1, -1⟩⟩ := by decide +kernel
  refine ⟨whole, ?_, ?_⟩
  · exact (substitute_eq_self_iff table "A B" ⟨1, 1⟩).2.1 _ whole _ search (by decide +kernel)
  · apply (substitute_eq_self_iff table "LOOP (x)" ⟨1, 1⟩).1.mpr
    have keepsWords : ∀ piece ∈ Piece.cut "LOOP (x)".toList, ∀ equation ∈
        table.replacing? ⟨1, 1⟩ piece, equation.replacement.toList = piece.characters := by
      decide +kernel
    intro word wordMem equation search
    rw [Piece.isWholeWord_iff_mem_cut] at wordMem
    have same := keepsWords _ wordMem equation search
    exact String.toList_inj.mp (by rw [same, String.toList_ofList, Piece.characters])

/-- If every part of a line is substituted by a text that stays as it is, then so is the line: such
a text meets the rest of the line at a word boundary, as the part itself did. -/
theorem substituted_flatMap_of_fixed {text : List Char} {pieces : List Piece}
    (isCut : Piece.IsCut text pieces)
    (fixed : ∀ piece ∈ pieces, table.substituted context (table.substitutePiece context piece) =
      table.substitutePiece context piece) :
    table.substituted context (pieces.flatMap (table.substitutePiece context)) =
      pieces.flatMap (table.substitutePiece context) := by
  induction pieces generalizing text with
  | nil => rfl
  | cons piece pieces ih =>
      have restCut := isCut.of_infix (List.suffix_cons piece pieces).isInfix
      have boundary : Piece.WordBoundary (table.substitutePiece context piece)
          (pieces.flatMap (table.substitutePiece context)) :=
        isCut.wordBoundary_rewrite fun _ => rfl
      rcases List.forall_mem_cons.mp fixed with ⟨fixedPiece, fixedRest⟩
      rw [List.flatMap_cons, substituted_append boundary, fixedPiece, ih restCut fixedRest]

/-- A part is substituted by a text that stays as it is, if the replacements of all equations that
apply do. -/
theorem substituted_substitutePiece
    (fixed : ∀ equation ∈ table.equations.toList, equation.AppliesIn context →
      table.substitute equation.replacement context = equation.replacement)
    {piece : Piece} (proper : piece.Proper) :
    table.substituted context (table.substitutePiece context piece) =
      table.substitutePiece context piece := by
  cases piece with
  | other c => exact substituted_characters proper
  | word word =>
      cases search : table.visibleEquation? (String.ofList word) context with
      | none =>
          have copies : table.substitutePiece context (.word word) = word := by
            simp [substitutePiece_word, search]
          calc table.substituted context (table.substitutePiece context (.word word))
              = table.substituted context word := by rw [copies]
            _ = table.substitutePiece context (.word word) := substituted_characters proper
      | some equation =>
          have replaces : table.substitutePiece context (.word word) =
              equation.replacement.toList := by
            simp [substitutePiece_word, search]
          rcases suits_of_visibleEquation? search with ⟨equationMem, visible, named⟩
          have plain : Name.sigilLength equation.name = 0 := by
            rw [named, sigilLength_of_proper proper]
          rw [replaces]
          exact substitute_eq_iff.mp (fixed equation equationMem ⟨plain, visible⟩)

/-- An equation that applies replaces a line that consists of its name. -/
theorem WellFormed.substitute_name (wellFormed : table.WellFormed) {equation : Equation}
    (equationMem : equation ∈ table.equations.toList) (applies : equation.AppliesIn context) :
    table.substitute equation.name context = equation.replacement := by
  rcases Arena.mem_toList_iff.mp equationMem with ⟨id, found⟩
  rcases wellFormed.exists_key_of_equation found with ⟨key, resolves, _⟩
  have proper := Piece.proper_of_isValid (Key.resolve_eq_ok_iff.mp resolves).1 applies.1
  have replacementEq :
      (table.visibleEquation? (String.ofList equation.name.toList) context).map
        Equation.replacement = some equation.replacement :=
    (wellFormed.replacement_eq_some_iff proper).mpr
      ⟨equation, equationMem, applies, by rw [String.ofList_toList]⟩
  apply substitute_eq_iff.mpr
  calc table.substituted context equation.name.toList
      = table.substitutePiece context (.word equation.name.toList) := substituted_characters proper
    _ = equation.replacement.toList := by rw [substitutePiece_word, replacementEq]

/-- In every table that a run of operations leads to, substituting twice gives the same as
substituting once, for all lines, exactly when the replacements of all equations that apply stay as
they are. -/
theorem substitute_idempotent_iff {table : Table} (reachable : table.Reachable)
    (context : Context) :
    (∀ line, table.substitute (table.substitute line context) context =
      table.substitute line context) ↔
    ∀ (id : EquationId) (equation : Equation), table.equation? id = some equation →
      Name.sigilLength equation.name = 0 → equation.isVisibleFrom context = true →
        table.substitute equation.replacement context = equation.replacement := by
  constructor
  · intro idempotent id equation found plain visible
    have equationMem := Arena.mem_toList_iff.mpr ⟨id, found⟩
    have replaced := reachable.wellFormed.substitute_name equationMem ⟨plain, visible⟩
    rw [← replaced]
    exact idempotent equation.name
  · intro fixed line
    have fixedReplacements : ∀ equation ∈ table.equations.toList, equation.AppliesIn context →
        table.substitute equation.replacement context = equation.replacement := by
      intro equation equationMem applies
      rcases Arena.mem_toList_iff.mp equationMem with ⟨id, found⟩
      exact fixed id equation found applies.1 applies.2
    have isCut := Piece.isCut_cut line.toList
    apply substitute_eq_iff.mpr
    rw [toList_substitute]
    apply substituted_flatMap_of_fixed isCut
    intro piece pieceMem
    exact substituted_substitutePiece fixedReplacements (isCut.proper piece pieceMem)

/-- Where `HALF` is visible, a replacement that names it makes a second substitution matter. -/
theorem substitute_idempotent_iff_half :
    let table := ({} : Table).after
      [.declareEquation "SIZE" ⟨-1, -1⟩ "2*HALF", .declareEquation "HALF" ⟨2, -1⟩ "8",
        .declareEquation "@HALF" ⟨1, 1⟩ "hidden"]
    table.Reachable ∧
      (∀ line, table.substitute (table.substitute line ⟨1, 1⟩) ⟨1, 1⟩ =
        table.substitute line ⟨1, 1⟩) ∧
      ¬∀ line, table.substitute (table.substitute line ⟨2, 1⟩) ⟨2, 1⟩ =
        table.substitute line ⟨2, 1⟩ := by
  intro table
  have reachable : table.Reachable := Reachable.new.after _
  refine ⟨reachable, ?_, ?_⟩
  · apply (substitute_idempotent_iff reachable ⟨1, 1⟩).mpr
    have fixed : ∀ equation ∈ table.equations.toList, equation.AppliesIn ⟨1, 1⟩ →
        table.substitute equation.replacement ⟨1, 1⟩ = equation.replacement := by
      decide +kernel
    intro id equation found plain visible
    exact fixed equation (Arena.mem_toList_iff.mpr ⟨id, found⟩) ⟨plain, visible⟩
  · intro idempotent
    have fixed := (substitute_idempotent_iff reachable ⟨2, 1⟩).mp idempotent
      ⟨0⟩ ⟨"SIZE", "2*HALF", ⟨-1, -1⟩⟩ (by decide +kernel) (by decide +kernel) (by decide +kernel)
    revert fixed
    decide +kernel

end Symtab.Table
