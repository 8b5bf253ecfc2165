import Symtab.Numeral
import Symtab.Table.Basic

/-!
# Symbol listings

A listing has a header line, a line for each label in the order of declaration, and an end marker
that the settings can leave out. A line has the low 32 bits of the value as eight base-sixteen
digits, a space and the name; a label without a value counts as zero.
-/

namespace Symtab

/-- What a listing shows: values with names, and whether the end is marked. -/
structure Listing where
  rows : List (UInt32 × String)
  endMarker : Bool
  deriving DecidableEq

namespace Listing

/-- The line above the rows. -/
def headerLine : String := "00000000 0\n"

/-- The character that marks the end. -/
def endMark : String := "\x1a"

/-- The line of a value and a name. -/
def rowLine (value : UInt32) (name : String) : String :=
  String.ofList (Numeral.paddedHex 8 value.toNat) ++ " " ++ name ++ "\n"

/-- The parts of a listing as they are written one after the other. -/
def pieces (listing : Listing) : List String :=
  headerLine :: listing.rows.map (fun (value, name) => rowLine value name) ++
    if listing.endMarker then [endMark] else []

/-- The text of a listing. -/
def render (listing : Listing) : String := String.join listing.pieces

/-- Writes a listing into a buffer that holds `capacity` bytes. -/
def writeWithin (listing : Listing) (capacity : Nat) :
    Storage.Buffer × Except Storage.Fault Unit :=
  Storage.Buffer.writeAll { capacity } (listing.pieces.map (·.toUTF8.toList))

end Listing

namespace Table

/-- The value under which a label is listed: the low 32 bits, or zero when it has none. -/
def listedValue (label : Label) : UInt32 := (label.value.getD 0).toInt32.toUInt32

/-- The listing of the labels of a table. -/
def listing (table : Table) : Listing where
  rows := table.labels.toList.map fun label => (listedValue label, label.name)
  endMarker := table.settings.endMarker

/-- Writes the listing to a file. A failure is reported and not passed on. -/
def exportListing (table : Table) (path : String) (destination : Storage.Destination) :
    Outcome Storage.Destination :=
  match destination.canOpen with
  | .error fault => { answer := destination, table, events := [.cannotCreateFile path fault] }
  | .ok () =>
    match destination.store table.listing.render with
    | .error fault => { answer := destination, table, events := [.cannotWriteFile path fault] }
    | .ok stored =>
      { answer := stored, table, events := [.wroteFile path table.labels.size] }

end Table

end Symtab
