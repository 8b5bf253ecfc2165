import Symtab.Numeral

/-!
# Writing strings

Every string has a written form that reads back as the string. The form is the plainest one that
needs no escapes: a basic one without quotes inside, then a literal one, then the multi-line ones,
and a basic form with escapes when nothing else will do.
-/

namespace Symtab.Toml.Text

/-- The written forms of a string. -/
inductive Form where
  /-- Between double quotes on one line, with escapes. -/
  | basic
  | literal
  | multilineBasic
  | multilineLiteral
  deriving DecidableEq, Repr

/-- Control characters that no form but an escape can hold; tabs and line feeds are not. -/
def isRawControl (c : Char) : Bool :=
  (c < ' ' && c != '\t' && c != '\n') || c == '\x7f'

/-- The length of the longest run of `c` in a text, when a run of `current` reaches its start. -/
def longestRunFrom (c : Char) (current : Nat) : List Char → Nat
  | [] => current
  | first :: rest =>
    if first = c then longestRunFrom c (current + 1) rest
    else max current (longestRunFrom c 0 rest)

/-- The length of the longest run of `c` in a text. -/
def longestRun (c : Char) (text : List Char) : Nat := longestRunFrom c 0 text

namespace Form

/-- The form in which a string is written. -/
def choose (content : List Char) : Form :=
  let hasControl := content.any isRawControl
  let hasBackslash := content.contains '\\'
  let hasBreak := content.contains '\n'
  let doubleRun := longestRun '"' content
  let singleRun := longestRun '\'' content
  if !hasControl && !hasBackslash && doubleRun == 0 && !hasBreak then basic
  else if !hasControl && singleRun == 0 && !hasBreak then literal
  else if !hasControl && !hasBackslash && doubleRun ≤ 2 then multilineBasic
  else if !hasControl && singleRun ≤ 2 then multilineLiteral
  else if hasBreak then multilineBasic
  else basic

/-- A character of a basic form other than a quote or a line feed. -/
def writeChar (c : Char) : List Char :=
  match c with
  | '\x08' => ['\\', 'b']
  | '\t' => ['\\', 't']
  | '\x0c' => ['\\', 'f']
  | '\r' => ['\\', 'r']
  | '\\' => ['\\', '\\']
  | _ => if isRawControl c then '\\' :: 'u' :: Numeral.paddedHex 4 c.toNat else [c]

/-- A character of the single-line basic form. -/
def writeBasicChar (c : Char) : List Char :=
  match c with
  | '"' => ['\\', '"']
  | '\n' => ['\\', 'n']
  | _ => writeChar c

/-- The content of a single-line basic form. -/
def writeBasic (content : List Char) : List Char := content.flatMap writeBasicChar

/-- The content of a multi-line basic form, after `quotes` quotes in a row: the third quote of a
run is escaped. -/
def writeMultilineBasic (quotes : Nat) : List Char → List Char
  | [] => []
  | '"' :: rest =>
    if quotes < 2 then '"' :: writeMultilineBasic (quotes + 1) rest
    else '\\' :: '"' :: writeMultilineBasic 0 rest
  | '\n' :: rest => '\n' :: writeMultilineBasic 0 rest
  | c :: rest => writeChar c ++ writeMultilineBasic 0 rest

/-- The line break after the opening delimiter of a multi-line form. -/
def openingBreak (content : List Char) : List Char :=
  if content.contains '\n' then ['\n'] else []

/-- A string in a given form, with its delimiters. -/
def write (form : Form) (content : List Char) : List Char :=
  match form with
  | basic => ['"'] ++ writeBasic content ++ ['"']
  | literal => ['\''] ++ content ++ ['\'']
  | multilineBasic =>
    ['"', '"', '"'] ++ openingBreak content ++ writeMultilineBasic 0 content ++ ['"', '"', '"']
  | multilineLiteral =>
    ['\'', '\'', '\''] ++ openingBreak content ++ content ++ ['\'', '\'', '\'']

end Form

/-- The written form of a string. -/
def written (content : String) : String :=
  String.ofList ((Form.choose content.toList).write content.toList)

end Symtab.Toml.Text
