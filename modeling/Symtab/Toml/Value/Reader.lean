import Symtab.Toml.Text
import Symtab.Toml.Value

/-!
# Reading keys and values

Keys are bare words or single-line strings, joined by points. Arrays may span lines and hold
comments, inline tables may not. Neither keys nor nested values go deeper than a fixed limit.
-/

namespace Symtab.Toml

/-- One more than the greatest number of keys in a path, and than the greatest nesting of values. -/
def depthLimit : Nat := 80

namespace KeyPath

/-- The characters of keys without quotes. -/
def isBareKeyChar (c : Char) : Bool := c.isAlphanum || c == '_' || c == '-'

/-- Reads a key without quotes. -/
def bareKey : Reader String := fun text =>
  match text.takeWhile isBareKeyChar with
  | [] => none
  | key => some (String.ofList key, text.dropWhile isBareKeyChar)

/-- Reads one key, with blanks around it. -/
def key : Reader String := fun text => do
  let (name, rest) ← Reader.orElse Text.basic (Reader.orElse Text.literal bareKey) (skipBlanks text)
  some (name, skipBlanks rest)

/-- Reads a further key, after a point. -/
def dottedKey : Reader String := fun text => do
  let (_, rest) ← Reader.exactly ['.'] text
  key rest

/-- Reads the path of a value: keys joined by points. -/
def read : Reader KeyPath := fun text => do
  let (first, rest) ← key text
  let (others, rest) := Reader.all dottedKey rest
  let path ← ofKeys? (first :: others)
  if others.length + 1 < depthLimit then some (path, rest) else none

end KeyPath

namespace Value

/-- Reads a truth value. -/
def readBoolean : Reader Bool
  | 't' :: 'r' :: 'u' :: 'e' :: rest => some (true, rest)
  | 'f' :: 'a' :: 'l' :: 's' :: 'e' :: rest => some (false, rest)
  | _ => none

/-- Reads a value that holds no other values. -/
def readScalar : Reader Value :=
  Reader.orElse (Reader.map string Text.any) <|
  Reader.orElse (Reader.map boolean readBoolean) <|
  Reader.orElse (Reader.map moment Moment.read) <|
  Reader.orElse (Reader.map float Number.float) (Reader.map integer Number.integer)

/-- Reads the elements of an array after its opening bracket, and the closing one. -/
def readElements (element : Reader Value) : Reader (List Value) := fun text =>
  match spaced text with
  | none => (Reader.exactly [']'] (skipArraySeparators text)).map fun (_, rest) => ([], rest)
  | some (first, rest) => do
    let (others, rest) := Reader.all further rest
    let rest := match Reader.exactly [','] rest with
      | some (_, commaSkipped) => skipArraySeparators commaSkipped
      | none => rest
    let (_, rest) ← Reader.exactly [']'] rest
    some (first :: others, rest)
where
  /-- Reads an element with the separators around it. -/
  spaced : Reader Value := fun text => do
    let (value, rest) ← element (skipArraySeparators text)
    some (value, skipArraySeparators rest)
  /-- Reads a further element, after a comma. -/
  further : Reader Value := fun text => do
    let (_, rest) ← Reader.exactly [','] text
    spaced rest

/-- Reads a key, an equals sign and a value, and passes over blanks around the value. -/
def readAssignment (value : Reader Value) : Reader (KeyPath × Value) := fun text => do
  let (path, rest) ← KeyPath.read text
  let (_, rest) ← Reader.exactly ['='] rest
  let (value, rest) ← value (skipBlanks rest)
  some ((path, value), skipBlanks rest)

/-- Reads the assignments of an inline table after its opening brace, and the closing one. -/
def readInlineTable (value : Reader Value) : Reader Entries := fun text =>
  match readAssignment value text with
  | none => (Reader.exactly ['}'] (skipBlanks text)).map fun (_, rest) => ([], rest)
  | some (first, rest) => do
    let (others, rest) := Reader.all further rest
    let (_, rest) ← Reader.exactly ['}'] rest
    let entries ← Entries.assignAll [] (first :: others)
    some (entries, rest)
where
  /-- Reads a further assignment, after a comma. -/
  further : Reader (KeyPath × Value) := fun text => do
    let (_, rest) ← Reader.exactly [','] text
    readAssignment value rest

/-- Reads a value with at most `depth` arrays and inline tables around another one. -/
def readNested (depth : Nat) : Reader Value :=
  match depth with
  | 0 => readScalar
  | depth + 1 => fun text =>
    match text with
    | '[' :: rest => Reader.map array (readElements (readNested depth)) rest
    | '{' :: rest => Reader.map (table .inlineBraces) (readInlineTable (readNested depth)) rest
    | _ => readScalar text

/-- Reads a value of any form. -/
def read : Reader Value := readNested (depthLimit - 1)

end Value

end Symtab.Toml
