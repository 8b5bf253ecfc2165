/-!
# Readers

A reader takes a value from the front of a text and returns the rest of the text, or refuses the
text. Every reader of an item takes at least one character, so that as many items as a text has
characters are all the items there can be.
-/

namespace Symtab.Toml

/-- Takes a value from the front of a text and returns the rest, or refuses the text. -/
abbrev Reader (α : Type) := List Char → Option (α × List Char)

namespace Reader

variable {α : Type}

/-- Reads one character that has a property. -/
def satisfying (accepts : Char → Bool) : Reader Char
  | c :: rest => if accepts c then some (c, rest) else none
  | [] => none

/-- Reads the characters of `expected`, one after the other. -/
def exactly : List Char → Reader Unit
  | [], text => some ((), text)
  | _ :: _, [] => none
  | c :: expected, first :: rest => if c = first then exactly expected rest else none

/-- Reads as many items as there are, at most one for each character of `bound`, and returns what
follows the last one. -/
def many (item : Reader α) (bound text : List Char) : List α × List Char :=
  match bound with
  | [] => ([], text)
  | _ :: bound =>
    match item text with
    | none => ([], text)
    | some (first, rest) =>
      let (others, last) := many item bound rest
      (first :: others, last)

/-- Reads all items at the front of a text. -/
def all (item : Reader α) (text : List Char) : List α × List Char :=
  many item text text

/-- Reads with the first of two readers that does not refuse. -/
def orElse (first second : Reader α) : Reader α := fun text =>
  match first text with
  | some result => some result
  | none => second text

/-- Changes the values that a reader returns. -/
def map {β : Type} (change : α → β) (reader : Reader α) : Reader β := fun text =>
  (reader text).map fun (value, rest) => (change value, rest)

end Reader

end Symtab.Toml
