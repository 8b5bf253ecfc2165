import Symtab.Numeral
import Symtab.Toml.Blank

/-!
# Strings

The four written forms of a string: basic and literal ones, which stay on a line, and their
multi-line variants. Basic forms have escapes, literal forms stand for themselves. A multi-line form
drops a line break right after its opening delimiter and may end with two quotes of its own before
the closing three.
-/

namespace Symtab.Toml.Text

/-- Reads a scalar value of `width` base-sixteen digits; surrogates have none. -/
def scalar (width : Nat) : Reader Char := fun text =>
  let digits := text.take width
  let number := Numeral.ofDigits 16 digits
  if digits.length = width ∧ digits.all (Numeral.isDigitOf 16) ∧ number.isValidChar then
    some (Char.ofNat number, text.drop width)
  else
    none

/-- Reads an escape of a basic form. -/
def escape : Reader Char
  | '\\' :: 'b' :: rest => some ('\x08', rest)
  | '\\' :: 't' :: rest => some ('\t', rest)
  | '\\' :: 'n' :: rest => some ('\n', rest)
  | '\\' :: 'f' :: rest => some ('\x0c', rest)
  | '\\' :: 'r' :: rest => some ('\r', rest)
  | '\\' :: '"' :: rest => some ('"', rest)
  | '\\' :: '\\' :: rest => some ('\\', rest)
  | '\\' :: 'u' :: rest => scalar 4 rest
  | '\\' :: 'U' :: rest => scalar 8 rest
  | _ => none

/-- Characters that stand for themselves in both basic forms. -/
def isPlainBasic (c : Char) : Bool := isTextChar c && c != '"' && c != '\\'

/-- Reads a character of the basic forms, escaped or not. -/
def basicChar : Reader Char := Reader.orElse (Reader.satisfying isPlainBasic) escape

/-- Characters that stand for themselves in both literal forms. -/
def isPlainLiteral (c : Char) : Bool := isTextChar c && c != '\''

/-- Reads a character of the literal forms. -/
def literalChar : Reader Char := Reader.satisfying isPlainLiteral

/-- Reads a single-line string of the given quote. -/
def singleLine (quote : Char) (item : Reader Char) : Reader String := fun text => do
  let (_, opened) ← Reader.exactly [quote] text
  let (content, closing) := Reader.all item opened
  let (_, rest) ← Reader.exactly [quote] closing
  some (String.ofList content, rest)

/-- Reads a basic string on one line. -/
def basic : Reader String := singleLine '"' basicChar

/-- Reads a literal string on one line. -/
def literal : Reader String := singleLine '\'' literalChar

/-- The number of quotes at the front of a text. -/
def quoteRun (quote : Char) (text : List Char) : Nat :=
  (text.takeWhile (· == quote)).length

/-- Reads a quote that belongs to the content of a multi-line form: fewer than three in a row. -/
def innerQuote (quote : Char) : Reader Char := fun text =>
  if quoteRun quote text < 3 then Reader.satisfying (· == quote) text else none

/-- Reads the end of a multi-line form, and the one or two quotes that stand before it. -/
def closingQuotes (quote : Char) : Reader (List Char) := fun text =>
  let run := quoteRun quote text
  if 3 ≤ run then
    let inner := min (run - 3) 2
    some (List.replicate inner quote, text.drop (inner + 3))
  else
    none

/-- Reads a backslash at the end of a line, with all the blanks and line breaks after it. -/
def foldedBreak : Reader (List Char)
  | '\\' :: rest => do
    let (_, nextLine) ← lineBreak (skipBlanks rest)
    some ([], skipBlankLines nextLine)
  | _ => none

/-- Reads one part of the content of a multi-line form: the characters that it stands for. -/
def multilineItem (quote : Char) (plain : Reader Char) : Reader (List Char) :=
  Reader.orElse (Reader.map List.singleton plain)
    (Reader.orElse (Reader.map (fun _ => ['\n']) lineBreak)
      (Reader.map List.singleton (innerQuote quote)))

/-- Reads a multi-line string of the given quote. -/
def multiline (quote : Char) (item : Reader (List Char)) : Reader String := fun text => do
  let (_, opened) ← Reader.exactly [quote, quote, quote] text
  let start := match lineBreak opened with
    | some (_, nextLine) => nextLine
    | none => opened
  let (items, closing) := Reader.all item start
  let (quotes, rest) ← closingQuotes quote closing
  some (String.ofList (items.flatten ++ quotes), rest)

/-- Reads one part of the content of the multi-line basic form. -/
def basicItem : Reader (List Char) := Reader.orElse (multilineItem '"' basicChar) foldedBreak

/-- Reads one part of the content of the multi-line literal form. -/
def literalItem : Reader (List Char) := multilineItem '\'' literalChar

/-- Reads a multi-line basic string. -/
def multilineBasic : Reader String := multiline '"' basicItem

/-- Reads a multi-line literal string. -/
def multilineLiteral : Reader String := multiline '\'' literalItem

/-- Reads a string of any form. -/
def any : Reader String := fun text =>
  if 3 ≤ quoteRun '"' text then multilineBasic text
  else if 3 ≤ quoteRun '\'' text then multilineLiteral text
  else Reader.orElse basic literal text

end Symtab.Toml.Text
