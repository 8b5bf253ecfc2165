import Symtab.Toml.Reader

/-!
# Blanks, line ends and comments

What separates the parts of a document: spaces and tabs within a line, line feeds with or without a
carriage return before them, and comments that reach to the end of their line.
-/

namespace Symtab.Toml

/-- The characters that separate parts within a line. -/
def isBlank (c : Char) : Bool := c == ' ' || c == '\t'

/-- The characters of comments and strings: no control character other than the tab. -/
def isTextChar (c : Char) : Bool := c == '\t' || (' ' ≤ c && c != '\x7f')

/-- Passes over the blanks at the front of a text. -/
def skipBlanks (text : List Char) : List Char := text.dropWhile isBlank

/-- Reads a line feed or a carriage return with a line feed. -/
def lineBreak : Reader Unit
  | '\n' :: rest => some ((), rest)
  | '\r' :: '\n' :: rest => some ((), rest)
  | _ => none

/-- Reads a comment up to the end of its line. -/
def comment : Reader Unit
  | '#' :: rest => some ((), rest.dropWhile isTextChar)
  | _ => none

/-- Reads what may follow a statement: blanks, a comment, and a line break or the end. -/
def lineEnd : Reader Unit := fun text =>
  let blanksSkipped := skipBlanks text
  let rest := match comment blanksSkipped with
    | some (_, commentSkipped) => commentSkipped
    | none => blanksSkipped
  match rest with
  | [] => some ((), [])
  | _ => lineBreak rest

/-- Reads a blank or a line break. -/
def blankOrBreak : Reader Unit :=
  Reader.orElse (Reader.map (fun _ => ()) (Reader.satisfying isBlank)) lineBreak

/-- Reads one separator inside an array: a blank, a line break, or a comment with its line break. -/
def arraySeparator : Reader Unit :=
  Reader.orElse blankOrBreak fun text => do
    let (_, rest) ← comment text
    lineBreak rest

/-- The text after its blanks and line breaks. -/
def skipBlankLines (text : List Char) : List Char := (Reader.all blankOrBreak text).2

/-- The text after the separators that an array allows between its elements. -/
def skipArraySeparators (text : List Char) : List Char := (Reader.all arraySeparator text).2

end Symtab.Toml
