import Symtab.Error
import Symtab.Name

/-!
# Settings

The settings of a symbol table: the texts around the number in a generated name, and whether symbol
listings end with a marker. Settings are allowed when every generated name is a symbol name without
a sigil.
-/

namespace Symtab

/-- The settings of a table, with their defaults. -/
structure Settings where
  /-- The text before the number in a generated name. -/
  labelPrefix : String := "__asmc_label_"
  /-- The text after the number in a generated name. -/
  labelSuffix : String := "__"
  /-- Whether a listing ends with the end marker. -/
  endMarker : Bool := true
  deriving DecidableEq, Repr, Inhabited

namespace Settings

/-- The key under which the text before the number is written. -/
def prefixKey : String := "unique_label_prefix"

/-- The key under which the text after the number is written. -/
def suffixKey : String := "unique_label_suffix"

/-- The key of the table of listing settings. -/
def listingKey : String := "sym_file"

/-- The key, in that table, under which the end marker is switched on or off. -/
def endMarkerKey : String := "eof_marker"

/-- Why settings are not allowed. -/
inductive Fault where
  | emptyPrefix
  /-- The text before the number starts with a digit. -/
  | digitFirst (labelPrefix : String)
  /-- The text of a key has a character outside the alphabet of names. -/
  | foreignChar (key text : String) (character : Char)
  deriving DecidableEq, Repr

/-- The wording of a fault. -/
def Fault.message : Fault → String
  | emptyPrefix => s!"{prefixKey} must not be empty"
  | digitFirst labelPrefix => s!"{prefixKey} '{labelPrefix}' must not start with a digit"
  | foreignChar key text character =>
    s!"{key} '{text}' contains invalid character '{character}'"

/-- Refuses a text that has a character outside the alphabet of names. -/
def checkAlphabet (key text : String) : Except Fault Unit :=
  match text.toList.find? (!Name.isSymbolChar ·) with
  | some character => .error (.foreignChar key text character)
  | none => .ok ()

/-- Refuses a text that cannot start a name. -/
def checkStart (text : String) : Except Fault Unit :=
  match text.toList with
  | [] => .error .emptyPrefix
  | first :: _ => if first.isDigit then .error (.digitFirst text) else .ok ()

/-- Checks that every generated name is a symbol name. -/
def validate (settings : Settings) : Except Fault Unit := do
  checkStart settings.labelPrefix
  checkAlphabet prefixKey settings.labelPrefix
  checkAlphabet suffixKey settings.labelSuffix

/-- The settings, refused when they are not allowed. -/
def checked (settings : Settings) : Except SymbolError Settings :=
  match settings.validate with
  | .ok () => .ok settings
  | .error fault => .error (.settings fault.message)

end Settings

end Symtab
