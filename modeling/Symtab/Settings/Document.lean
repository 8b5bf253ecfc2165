import Symtab.Settings.Basic
import Symtab.Toml.Document
import Symtab.Toml.Text.Written

/-!
# Settings as documents

Settings are read from TOML and written to it. A key that is left out keeps its default, and keys
that mean nothing here are passed over. Written settings read back as the same settings.
-/

namespace Symtab.Settings

/-- A string of a table, or a default when the key is left out; other values are refused. -/
def stringOr (default : String) (entries : Toml.Entries) (key : String) : Option String :=
  match entries.get? key with
  | none => some default
  | some (.string content) => some content
  | some _ => none

/-- The end marker that a table of listing settings switches on or off. -/
def endMarkerOf (default : Bool) (entries : Toml.Entries) : Option Bool :=
  match entries.get? endMarkerKey with
  | none => some default
  | some (.boolean truth) => some truth
  | some _ => none

/-- The end marker that listing settings switch on or off. They are a table, or an array whose first
element is the end marker. A moment counts as a table without keys. -/
def endMarkerOr (default : Bool) (entries : Toml.Entries) : Option Bool :=
  match entries.get? listingKey with
  | none => some default
  | some (.table _ inner) => endMarkerOf default inner
  | some (.array []) => some default
  | some (.array (.boolean truth :: _)) => some truth
  | some (.moment _) => some default
  | some _ => none

/-- The settings that a document gives, if its values have the right types. -/
def ofEntries? (entries : Toml.Entries) : Option Settings := do
  let defaults : Settings := {}
  let labelPrefix ← stringOr defaults.labelPrefix entries prefixKey
  let labelSuffix ← stringOr defaults.labelSuffix entries suffixKey
  let endMarker ← endMarkerOr defaults.endMarker entries
  some { labelPrefix, labelSuffix, endMarker }

/-- Reads and checks settings. -/
def parse (text : String) : Except SymbolError Settings :=
  match (Toml.Document.parse? text).bind ofEntries? with
  | some settings => settings.checked
  | none => .error .malformedToml

/-- Reads and checks the settings of a stored file. -/
def load (path : String) (source : Storage.Source) : Except SymbolError Settings :=
  match source.readText with
  | .ok text => parse text
  | .error fault => .error (.settings s!"Failed to read {path}: {fault.message}")

/-- A key and its written value on a line. -/
def assignmentLine (key value : String) : String := key ++ " = " ++ value ++ "\n"

/-- The settings as a document, with every key written out. -/
def render (settings : Settings) : String :=
  assignmentLine prefixKey (Toml.Text.written settings.labelPrefix) ++
  assignmentLine suffixKey (Toml.Text.written settings.labelSuffix) ++
  "\n[" ++ listingKey ++ "]\n" ++
  assignmentLine endMarkerKey (if settings.endMarker then "true" else "false")

end Symtab.Settings
