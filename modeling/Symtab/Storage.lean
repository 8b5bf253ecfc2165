/-!
# Stored files

What may be found where a file is read or written, and the buffers of bounded size that listings are
written into. Text is stored in UTF-8.
-/

namespace Symtab.Storage

/-- Why something cannot be read or stored. -/
inductive Fault where
  /-- There is no file, or no directory to put one in. -/
  | missing
  /-- A directory stands in the place of a file. -/
  | isDirectory
  | notText
  | deviceFull
  /-- A buffer has no room for all the bytes. -/
  | bufferFull
  deriving DecidableEq, Repr

/-- The wording of a fault. -/
def Fault.message : Fault → String
  | missing => "No such file or directory (os error 2)"
  | isDirectory => "Is a directory (os error 21)"
  | notText => "stream did not contain valid UTF-8"
  | deviceFull => "No space left on device (os error 28)"
  | bufferFull => "failed to write whole buffer"

/-- What stands where a file is read. -/
inductive Source where
  | file (bytes : ByteArray)
  | missing
  | directory

/-- The text of a file, refused where there is none. -/
def Source.readText : Source → Except Fault String
  | file bytes =>
    match String.fromUTF8? bytes with
    | some text => .ok text
    | none => .error .notText
  | missing => .error .missing
  | directory => .error .isDirectory

/-- What stands where a file is written. -/
inductive Destination where
  /-- A place for a file, with the text of the file that is there already. -/
  | file (content : Option String)
  /-- A place in a directory that does not exist. -/
  | missingDirectory
  | fullDevice
  deriving DecidableEq, Repr

namespace Destination

/-- The text of the file at a place, if there is one. -/
def content? : Destination → Option String
  | file content => content
  | missingDirectory | fullDevice => none

/-- Whether a file can be opened for writing. -/
def canOpen : Destination → Except Fault Unit
  | file _ | fullDevice => .ok ()
  | missingDirectory => .error .missing

/-- Replaces the file at a place that can be opened. -/
def store (text : String) : Destination → Except Fault Destination
  | file _ => .ok (file (some text))
  | missingDirectory => .error .missing
  | fullDevice => .error .deviceFull

end Destination

/-- A buffer that holds a bounded number of bytes. -/
structure Buffer where
  capacity : Nat
  bytes : List UInt8 := []
  length_le : bytes.length ≤ capacity := by exact Nat.zero_le _

namespace Buffer

/-- The number of bytes that can still be written. -/
def room (buffer : Buffer) : Nat := buffer.capacity - buffer.bytes.length

/-- Appends as many of some bytes as there is room for; refused when that is not all of them. -/
def write (buffer : Buffer) (bytes : List UInt8) : Buffer × Except Fault Unit :=
  let filled : Buffer :=
    { capacity := buffer.capacity
      bytes := buffer.bytes ++ bytes.take buffer.room
      length_le := by
        have := buffer.length_le
        simp only [room, List.length_append, List.length_take]
        omega }
  (filled, if bytes.length ≤ buffer.room then .ok () else .error .bufferFull)

/-- Appends several pieces in order, and stops at the first that does not fit. -/
def writeAll (buffer : Buffer) : List (List UInt8) → Buffer × Except Fault Unit
  | [] => (buffer, .ok ())
  | piece :: pieces =>
    match buffer.write piece with
    | (filled, .ok ()) => filled.writeAll pieces
    | (filled, .error fault) => (filled, .error fault)

end Buffer

end Symtab.Storage
