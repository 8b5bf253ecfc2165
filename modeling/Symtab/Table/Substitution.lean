import Symtab.Table.Basic

/-!
# Substitution

A line of source text is cut into words, which are as long as possible, and single other characters.
A word that names an equation visible from the line is replaced by the text of the equation. The
replacing text is not looked at again.
-/

namespace Symtab

/-- A part of a line: a word or a single other character. -/
inductive Piece where
  | word (characters : List Char)
  | other (character : Char)
  deriving DecidableEq, Repr

namespace Piece

/-- The characters of a part. -/
def characters : Piece → List Char
  | word characters => characters
  | other character => [character]

/-- Cuts a text into words, as long as possible, and other characters. -/
def cut : List Char → List Piece
  | [] => []
  | c :: rest =>
    if Name.isWordChar false c then
      match cut rest with
      | word characters :: pieces => word (c :: characters) :: pieces
      | pieces => word [c] :: pieces
    else
      other c :: cut rest

/-- Cutting loses no character. -/
@[simp]
theorem flatMap_characters_cut (text : List Char) : (cut text).flatMap characters = text := by
  induction text with
  | nil => rfl
  | cons c rest inRest =>
    rw [cut]
    split
    · split
      next wordChars pieces cutRest =>
        rw [cutRest] at inRest
        simpa [characters] using inRest
      next => simpa [characters] using inRest
    · simpa [characters] using inRest

end Piece

namespace Table

/-- The first declared equation with a name that a line in a context sees. -/
def visibleEquation? (table : Table) (name : String) (context : Context) : Option Equation :=
  table.equations.toList.find? fun equation =>
    equation.isVisibleFrom context && equation.name == name

/-- The equation that replaces a part of a line. -/
def replacing? (table : Table) (context : Context) : Piece → Option Equation
  | .word characters => table.visibleEquation? (String.ofList characters) context
  | .other _ => none

/-- A part of a line after substitution. -/
def substitutePiece (table : Table) (context : Context) (piece : Piece) : List Char :=
  match table.replacing? context piece with
  | some equation => equation.replacement.toList
  | none => piece.characters

/-- A line with the words replaced that name visible equations. -/
def substitute (table : Table) (line : String) (context : Context) : String :=
  if table.equations.isEmpty then line
  else String.ofList ((Piece.cut line.toList).flatMap (table.substitutePiece context))

/-- What is reported during substitution: every replaced word. -/
def substitutionEvents (table : Table) (line : String) (context : Context) : List Event :=
  (Piece.cut line.toList).filterMap fun piece =>
    (table.replacing? context piece).map fun equation =>
      .substituted equation.name equation.replacement

end Table

end Symtab
