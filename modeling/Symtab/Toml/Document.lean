import Symtab.Toml.Value.Reader

/-!
# Documents

A document is a run of lines. An assignment belongs to the table of the last header before it, or to
the document itself when there is none. A header with single brackets opens a table, one with double
brackets adds a table to an array of tables.
-/

namespace Symtab.Toml

/-- What stands in the brackets of a header. -/
structure Header where
  path : KeyPath
  /-- Whether the table is one of an array of tables. -/
  repeated : Bool
  deriving DecidableEq, Repr

/-- What a line says. -/
inductive Line where
  /-- Nothing: the line is blank or a comment. -/
  | blank
  | assignment (path : KeyPath) (value : Value)
  | header (header : Header)
  deriving Repr

namespace Line

/-- Reads a header between its brackets. -/
def readHeader (repeated : Bool) (opening closing : List Char) : Reader Header := fun text => do
  let (_, rest) ← Reader.exactly opening text
  let (path, rest) ← KeyPath.read rest
  let (_, rest) ← Reader.exactly closing rest
  some (⟨path, repeated⟩, rest)

/-- Reads what a line says, without the end of the line. -/
def readContent : Reader Line := fun text =>
  match text with
  | '\n' :: _ | '\r' :: _ | '#' :: _ => some (blank, text)
  | '[' :: '[' :: _ => Reader.map header (readHeader true ['[', '['] [']', ']']) text
  | '[' :: _ => Reader.map header (readHeader false ['['] [']']) text
  | _ => Reader.map (fun (path, value) => assignment path value)
      (Value.readAssignment Value.read) text

/-- Reads a line with its end, and passes over the blanks at the front of the next line. -/
def read : Reader Line := fun text => do
  let (line, rest) ← readContent text
  let (_, rest) ← lineEnd rest
  some (line, skipBlanks rest)

end Line

namespace Document

/-- A header with the assignments that follow it. -/
structure Block where
  header : Header
  assignments : List (KeyPath × Value)
  deriving Repr

/-- Divides lines into the assignments before the first header and the blocks after it. -/
def divide : List Line → List (KeyPath × Value) × List Block
  | [] => ([], [])
  | .blank :: lines => divide lines
  | .assignment path value :: lines =>
    let (assignments, blocks) := divide lines
    ((path, value) :: assignments, blocks)
  | .header header :: lines =>
    let (assignments, blocks) := divide lines
    ([], ⟨header, assignments⟩ :: blocks)

/-- Adds the table of a block to a document. -/
def addBlock (entries : Entries) (block : Block) : Option Entries :=
  if block.header.repeated then entries.appendTable block.header.path block.assignments
  else entries.openTable block.header.path block.assignments

/-- The table that lines describe, if they do not contradict each other. -/
def ofLines? (lines : List Line) : Option Entries := do
  let (assignments, blocks) := divide lines
  let entries ← Entries.assignAll [] assignments
  blocks.foldlM addBlock entries

/-- The lines of a text, if all of it consists of lines. A byte-order mark in front is dropped. -/
def linesOf? (text : List Char) : Option (List Line) :=
  let unmarked := match text with
    | '\ufeff' :: rest => rest
    | _ => text
  match Reader.all Line.read (skipBlanks unmarked) with
  | (lines, []) => some lines
  | _ => none

/-- The table that a text describes, if the text is a document. -/
def parse? (text : String) : Option Entries := do
  let lines ← linesOf? text.toList
  ofLines? lines

end Document

end Symtab.Toml
