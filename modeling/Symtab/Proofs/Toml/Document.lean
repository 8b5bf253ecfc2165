import Mathlib.Data.List.Forall2
import Symtab.Proofs.Toml.Text
import Symtab.Toml.Document

/-!
# Reading back written lines

A document is read line by line. When every line of a document is read back from what is written for
it, the document is read as these lines. The lines here are blank ones, headers with a bare key, and
assignments of strings and booleans to a bare key.
-/

namespace Symtab.Toml

theorem skipBlanks_eq_self {text : List Char} (starts : ∀ c ∈ text.head?, isBlank c = false) :
    skipBlanks text = text := by
  cases text with
  | nil => rfl
  | cons c text => simp [skipBlanks, starts c rfl]

namespace KeyPath

/-- Whether a text is a key that needs no quotes. -/
def isBare (name : List Char) : Bool := !name.isEmpty && name.all isBareKeyChar

theorem ne_of_isBareKeyChar {c : Char} (bare : isBareKeyChar c = true) (other : Char)
    (notBare : isBareKeyChar other = false) : c ≠ other := by
  rintro rfl
  simp [bare] at notBare

theorem isBlank_of_isBareKeyChar {c : Char} (bare : isBareKeyChar c = true) :
    isBlank c = false := by
  have notSpace := ne_of_isBareKeyChar bare ' ' (by decide)
  have notTab := ne_of_isBareKeyChar bare '\t' (by decide)
  simp [isBlank, notSpace, notTab]

theorem all_of_isBare {name : List Char} (bare : isBare name = true) :
    ∀ c ∈ name, isBareKeyChar c = true :=
  List.all_eq_true.mp (Bool.and_eq_true_iff.mp bare).2

theorem exists_eq_cons_of_isBare {name : List Char} (bare : isBare name = true) :
    ∃ first others, name = first :: others ∧ isBareKeyChar first = true := by
  cases name with
  | nil => cases bare
  | cons first others => exact ⟨first, others, rfl, all_of_isBare bare first List.mem_cons_self⟩

theorem bareKey_of_isBare {name rest : List Char} (bare : isBare name = true)
    (ends : ∀ c ∈ rest.head?, isBareKeyChar c = false) :
    bareKey (name ++ rest) = some (String.ofList name, rest) := by
  have restTaken : rest.takeWhile isBareKeyChar = [] ∧ rest.dropWhile isBareKeyChar = rest := by
    cases rest with
    | nil => exact ⟨rfl, rfl⟩
    | cons c rest => simp [ends c rfl]
  rw [bareKey, List.takeWhile_append_of_pos (all_of_isBare bare),
    List.dropWhile_append_of_pos (all_of_isBare bare), restTaken.1, restTaken.2, List.append_nil]
  rcases exists_eq_cons_of_isBare bare with ⟨first, others, rfl, _⟩
  rfl

theorem key_of_isBare {name rest : List Char} (bare : isBare name = true)
    (ends : ∀ c ∈ rest.head?, isBareKeyChar c = false) :
    key (name ++ rest) = some (String.ofList name, skipBlanks rest) := by
  have reads := bareKey_of_isBare bare ends
  rcases exists_eq_cons_of_isBare bare with ⟨first, others, rfl, firstBare⟩
  have notDouble : '"' ≠ first := (ne_of_isBareKeyChar firstBare _ (by decide)).symm
  have notSingle : '\'' ≠ first := (ne_of_isBareKeyChar firstBare _ (by decide)).symm
  have noBasic : Text.basic (first :: (others ++ rest)) = none := by
    simp [Text.basic, Text.singleLine, Reader.exactly, notDouble]
  have noLiteral : Text.literal (first :: (others ++ rest)) = none := by
    simp [Text.literal, Text.singleLine, Reader.exactly, notSingle]
  have noBlanks : skipBlanks (first :: (others ++ rest)) = first :: (others ++ rest) := by
    simp [skipBlanks, isBlank_of_isBareKeyChar firstBare]
  rw [List.cons_append] at reads ⊢
  simp only [key, noBlanks, Reader.orElse, noBasic, noLiteral, reads, Option.bind_eq_bind,
    Option.bind_some]

theorem read_of_isBare {name rest : List Char} (bare : isBare name = true)
    (ends : ∀ c ∈ rest.head?, isBareKeyChar c = false)
    (noPoint : dottedKey (skipBlanks rest) = none) :
    read (name ++ rest) = some (⟨[], String.ofList name⟩, skipBlanks rest) := by
  have noOthers := (Reader.Run.stop noPoint).all_eq
  have shallow : ([] : List String).length + 1 < depthLimit := by decide
  simp only [read, key_of_isBare bare ends, noOthers, Option.bind_eq_bind, Option.bind_some,
    ofKeys?, List.getLast?_singleton, Option.map_some, List.dropLast_singleton, if_pos shallow]

end KeyPath

namespace Value

/-- A value that starts with neither a bracket nor a brace holds no other values. -/
theorem readNested_eq_readScalar {first : Char} (noBracket : first ≠ '[') (noBrace : first ≠ '{')
    (depth : Nat) (rest : List Char) :
    readNested depth (first :: rest) = readScalar (first :: rest) := by
  cases depth with
  | zero => rfl
  | succ depth =>
      simp only [readNested]
      split
      next same => exact absurd (List.cons.inj same).1 noBracket
      next same => exact absurd (List.cons.inj same).1 noBrace
      next => rfl

theorem read_written (content : String) {rest : List Char}
    (ends : ∀ c ∈ rest.head?, c ≠ '"' ∧ c ≠ '\'') :
    read ((Text.written content).toList ++ rest) = some (string content, rest) := by
  have reads := Text.any_written content ends
  rcases Text.exists_written_eq_cons content with ⟨quote, others, written, isQuote⟩
  rw [written, List.cons_append] at reads ⊢
  have scalar : readScalar (quote :: (others ++ rest)) = some (string content, rest) := by
    simp only [readScalar, Reader.orElse, Reader.map, reads, Option.map_some]
  rw [read, readNested_eq_readScalar ?_ ?_, scalar]
  · rcases isQuote with rfl | rfl <;> decide
  · rcases isQuote with rfl | rfl <;> decide

theorem read_boolean (truth : Bool) (rest : List Char) :
    read ((if truth then "true" else "false").toList ++ rest) = some (boolean truth, rest) := by
  cases truth with
  | false => rfl
  | true => rfl

end Value

namespace Line

/-- Whether a text is read back as a line, whatever follows it on the next one. -/
structure Writes (written : List Char) (line : Line) : Prop where
  starts : ∃ first others, written = first :: others ∧ isBlank first = false ∧ first ≠ '\ufeff'
  reads : ∀ rest, (∀ c ∈ rest.head?, isBlank c = false) →
    read (written ++ rest) = some (line, rest)

theorem read_of_readContent {text rest : List Char} {line : Line}
    (content : readContent text = some (line, '\n' :: rest))
    (starts : ∀ c ∈ rest.head?, isBlank c = false) : read text = some (line, rest) := by
  have ends : lineEnd ('\n' :: rest) = some ((), rest) := rfl
  simp only [read, content, ends, skipBlanks_eq_self starts, Option.bind_eq_bind, Option.bind_some]

theorem writes_blank : Writes ['\n'] blank where
  starts := ⟨_, _, rfl, by decide, by decide⟩
  reads := by
    intro rest starts
    exact read_of_readContent rfl starts

theorem readContent_of_bracket {first : Char} (noBracket : first ≠ '[') (rest : List Char) :
    readContent ('[' :: first :: rest) =
      Reader.map header (readHeader false ['['] [']']) ('[' :: first :: rest) := by
  rw [readContent.eq_def]
  split
  next same => exact absurd (List.cons.inj same).1 (by decide)
  next same => exact absurd (List.cons.inj same).1 (by decide)
  next same => exact absurd (List.cons.inj same).1 (by decide)
  next same => exact absurd (List.cons.inj (List.cons.inj same).2).1 noBracket
  next => rfl
  next notHeader => exact absurd rfl (notHeader _)

theorem readContent_of_isBareKeyChar {first : Char} (bare : KeyPath.isBareKeyChar first = true)
    (rest : List Char) : readContent (first :: rest) =
      Reader.map (fun (path, value) => assignment path value)
        (Value.readAssignment Value.read) (first :: rest) := by
  have noFeed := KeyPath.ne_of_isBareKeyChar bare '\n' (by decide)
  have noReturn := KeyPath.ne_of_isBareKeyChar bare '\r' (by decide)
  have noComment := KeyPath.ne_of_isBareKeyChar bare '#' (by decide)
  have noBracket := KeyPath.ne_of_isBareKeyChar bare '[' (by decide)
  rw [readContent.eq_def]
  split
  next same => exact absurd (List.cons.inj same).1 noFeed
  next same => exact absurd (List.cons.inj same).1 noReturn
  next same => exact absurd (List.cons.inj same).1 noComment
  next same => exact absurd (List.cons.inj same).1 noBracket
  next same => exact absurd (List.cons.inj same).1 noBracket
  next => rfl

theorem writes_header {name : List Char} (bare : KeyPath.isBare name = true) :
    Writes ('[' :: (name ++ [']', '\n'])) (header ⟨⟨[], String.ofList name⟩, false⟩) where
  starts := ⟨_, _, rfl, by decide, by decide⟩
  reads := by
    intro rest startsNext
    have path : KeyPath.read (name ++ ']' :: '\n' :: rest) =
        some (⟨[], String.ofList name⟩, ']' :: '\n' :: rest) :=
      KeyPath.read_of_isBare bare (by simp [KeyPath.isBareKeyChar]) rfl
    have text : '[' :: (name ++ [']', '\n']) ++ rest = '[' :: (name ++ ']' :: '\n' :: rest) := by
      simp
    have opens : Reader.exactly ['['] ('[' :: (name ++ ']' :: '\n' :: rest)) =
        some ((), name ++ ']' :: '\n' :: rest) := Reader.exactly_append ['['] _
    have closes : Reader.exactly [']'] (']' :: '\n' :: rest) = some ((), '\n' :: rest) :=
      Reader.exactly_append [']'] _
    have content : readHeader false ['['] [']'] ('[' :: (name ++ ']' :: '\n' :: rest)) =
        some (⟨⟨[], String.ofList name⟩, false⟩, '\n' :: rest) := by
      simp only [readHeader, opens, path, closes, Option.bind_eq_bind, Option.bind_some]
    apply read_of_readContent _ startsNext
    rcases KeyPath.exists_eq_cons_of_isBare bare with ⟨first, others, rfl, firstBare⟩
    have noBracket := KeyPath.ne_of_isBareKeyChar firstBare '[' (by decide)
    rw [text]
    rw [List.cons_append] at content ⊢
    rw [readContent_of_bracket noBracket, Reader.map, content, Option.map_some]

theorem writes_assignment {name written : List Char} {value : Value}
    (bare : KeyPath.isBare name = true)
    (starts : ∀ c ∈ written.head?, isBlank c = false)
    (reads : ∀ rest, Value.read (written ++ '\n' :: rest) = some (value, '\n' :: rest)) :
    Writes (name ++ ([' ', '=', ' '] ++ (written ++ ['\n'])))
      (assignment ⟨[], String.ofList name⟩ value) where
  starts := by
    rcases KeyPath.exists_eq_cons_of_isBare bare with ⟨first, others, rfl, firstBare⟩
    exact ⟨_, _, rfl, KeyPath.isBlank_of_isBareKeyChar firstBare,
      KeyPath.ne_of_isBareKeyChar firstBare _ (by decide)⟩
  reads := by
    intro rest startsNext
    have text : name ++ ([' ', '=', ' '] ++ (written ++ ['\n'])) ++ rest =
        name ++ ' ' :: '=' :: ' ' :: (written ++ '\n' :: rest) := by
      simp
    have path : KeyPath.read (name ++ ' ' :: '=' :: ' ' :: (written ++ '\n' :: rest)) =
        some (⟨[], String.ofList name⟩, '=' :: ' ' :: (written ++ '\n' :: rest)) :=
      KeyPath.read_of_isBare bare (by simp [KeyPath.isBareKeyChar]) rfl
    have equals : Reader.exactly ['='] ('=' :: ' ' :: (written ++ '\n' :: rest)) =
        some ((), ' ' :: (written ++ '\n' :: rest)) := Reader.exactly_append ['='] _
    have valueStarts : ∀ c ∈ (written ++ '\n' :: rest).head?, isBlank c = false := by
      cases written with
      | nil => simp [isBlank]
      | cons c written => simpa using starts
    have oneBlank : skipBlanks (' ' :: (written ++ '\n' :: rest)) = written ++ '\n' :: rest :=
      skipBlanks_eq_self valueStarts
    have valueEnds : skipBlanks ('\n' :: rest) = '\n' :: rest := rfl
    have content : Value.readAssignment Value.read
        (name ++ ' ' :: '=' :: ' ' :: (written ++ '\n' :: rest)) =
        some ((⟨[], String.ofList name⟩, value), '\n' :: rest) := by
      simp only [Value.readAssignment, path, equals, oneBlank, reads, valueEnds,
        Option.bind_eq_bind, Option.bind_some]
    apply read_of_readContent _ startsNext
    rcases KeyPath.exists_eq_cons_of_isBare bare with ⟨first, others, rfl, firstBare⟩
    rw [text]
    rw [List.cons_append] at content ⊢
    rw [readContent_of_isBareKeyChar firstBare, Reader.map, content, Option.map_some]

end Line

namespace Document

theorem starts_of_writes {texts : List (List Char)} {lines : List Line}
    (written : List.Forall₂ Line.Writes texts lines) :
    ∀ c ∈ texts.flatten.head?, isBlank c = false ∧ c ≠ '\ufeff' := by
  cases written with
  | nil => simp
  | cons writes others =>
      rcases writes.starts with ⟨first, later, rfl, notBlank, noMark⟩
      simpa using ⟨notBlank, noMark⟩

theorem run_read_of_writes {texts : List (List Char)} {lines : List Line}
    (written : List.Forall₂ Line.Writes texts lines) :
    Reader.Run Line.read texts.flatten lines [] := by
  induction written with
  | nil => exact .stop rfl
  | cons writes others ih =>
      have starts := starts_of_writes others
      rw [List.flatten_cons]
      refine .next (writes.reads _ (fun c isFirst => (starts c isFirst).1)) ?_ ih
      rcases writes.starts with ⟨first, later, rfl, _, _⟩
      simp only [List.cons_append, List.length_cons, List.length_append]
      omega

/-- A text is read as the lines for which it is written. -/
theorem linesOf?_of_writes {texts : List (List Char)} {lines : List Line}
    (written : List.Forall₂ Line.Writes texts lines) :
    linesOf? texts.flatten = some lines := by
  have starts := starts_of_writes written
  have noBlanks := skipBlanks_eq_self (fun c isFirst => (starts c isFirst).1)
  have run := (run_read_of_writes written).all_eq
  cases text : texts.flatten with
  | nil =>
      rw [text] at run
      simp [linesOf?, skipBlanks, run]
  | cons c rest =>
      rw [text] at run noBlanks starts
      have noMark := (starts c rfl).2
      simp [linesOf?, noBlanks, run, noMark]

end Document

end Symtab.Toml
