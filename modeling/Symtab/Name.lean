/-!
# Symbol names

A symbol name is an optional scope sigil, `@` or `@@`, followed by a body of ASCII letters, digits,
underscores and points that is not empty and does not start with a digit. The sigil selects a scope
and is part of the name.
-/

namespace Symtab.Name

/-- The alphabet of names: ASCII letters and digits, the underscore and the point. -/
def isSymbolChar (c : Char) : Bool :=
  c.isAlphanum || c == '_' || c == '.'

/-- Whether `c` may stand in a bare word, where a digit may not come `first`. -/
def isWordChar (first : Bool) (c : Char) : Bool :=
  c.isAlpha || (!first && c.isDigit) || c == '_' || c == '.'

/-- The length of the scope sigil that starts a text: two for `@@`, one for `@`, else zero. -/
def sigilLength (name : String) : Nat :=
  match name.toList with
  | '@' :: '@' :: _ => 2
  | '@' :: _ => 1
  | _ => 0

/-- The characters of a name behind its sigil. -/
def body (name : String) : List Char :=
  name.toList.drop (sigilLength name)

/-- Whether a text is a symbol name. -/
def isValid (name : String) : Bool :=
  match body name with
  | [] => false
  | first :: rest => !first.isDigit && (first :: rest).all isSymbolChar

end Symtab.Name
