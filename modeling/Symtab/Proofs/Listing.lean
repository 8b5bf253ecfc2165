import Symtab.Proofs.Numeral
import Symtab.Proofs.Toml.Reader
import Symtab.Table.Listing

/-!
# Reading listings back

A strict reader for listings: after the header line it takes rows of exactly eight upper-case
digits, one space, a name and a line feed, then at most one end mark, and nothing else may follow.
It reads back exactly the listings whose names have none of the characters that separate the parts,
so that such listings with the same text are the same.
-/

namespace Symtab.Listing

open Toml

/-- The characters of listed names: neither a space nor a line feed nor the end mark. -/
def isNameChar (c : Char) : Bool := c != ' ' && c != '\n' && c != '\x1a'

/-- Reads a value of exactly eight upper-case digits. -/
def readValue : Reader UInt32 := fun text =>
  let digits := text.take 8
  if digits.length = 8 ∧ digits.all Numeral.hexAlphabet.contains then
    some (UInt32.ofNat (Numeral.ofDigits 16 digits), text.drop 8)
  else
    none

/-- Reads a name, which is not empty and as long as possible. -/
def readName : Reader String := fun text =>
  match text.takeWhile isNameChar with
  | [] => none
  | first :: others => some (String.ofList (first :: others), text.dropWhile isNameChar)

/-- Reads a row: a value, a space, a name and the end of the line. -/
def readRow : Reader (UInt32 × String) := fun text => do
  let (value, rest) ← readValue text
  let (_, rest) ← Reader.exactly [' '] rest
  let (name, rest) ← readName rest
  let (_, rest) ← Reader.exactly ['\n'] rest
  some ((value, name), rest)

/-- Whether a text is the end mark or nothing at all. -/
def readEnd : List Char → Option Bool
  | [] => some false
  | ['\x1a'] => some true
  | _ => none

/-- The listing that a text shows, if all of the text is one. -/
def read? (text : List Char) : Option Listing := do
  let (_, body) ← Reader.exactly headerLine.toList text
  let (rows, last) := Reader.all readRow body
  let endMarker ← readEnd last
  some { rows, endMarker }

/-- The listing that stored bytes show, if they are text and all of it is a listing. -/
def ofBytes? (bytes : ByteArray) : Option Listing :=
  (String.fromUTF8? bytes).bind fun text => read? text.toList

/-- Whether a listing can show a name: it is not empty and has none of the separating characters. -/
def CanShow (name : String) : Prop :=
  name.toList ≠ [] ∧ ∀ c ∈ name.toList, isNameChar c = true

theorem readValue_eq_some_iff {text rest : List Char} {value : UInt32} :
    readValue text = some (value, rest) ↔ text = Numeral.paddedHex 8 value.toNat ++ rest := by
  have wide : (Numeral.paddedHex 8 value.toNat).length = 8 :=
    Numeral.length_paddedHex_of_lt (by omega) value.toNat_lt
  simp only [readValue, List.all_eq_true, List.contains_iff_mem]
  constructor
  · intro taken
    split at taken
    next isValue =>
      rcases isValue with ⟨length, written⟩
      simp only [Option.some.injEq, Prod.mk.injEq] at taken
      rcases taken with ⟨rfl, rfl⟩
      have small := Numeral.ofDigits_lt written
      rw [length] at small
      have notEmpty : text.take 8 ≠ [] := by
        intro isEmpty
        simp [isEmpty] at length
      have digits := Numeral.paddedHex_ofDigits notEmpty written
      rw [length] at digits
      rw [UInt32.toNat_ofNat_of_lt' small, digits, List.take_append_drop]
    next => cases taken
  · rintro rfl
    rw [List.take_left' wide, List.drop_left' wide, if_pos, Numeral.ofDigits_paddedHex,
      UInt32.ofNat_toNat]
    exact ⟨wide, fun c digitMem => Numeral.mem_hexAlphabet_of_mem_paddedHex digitMem⟩

theorem readName_append {name : String} (shown : CanShow name) {rest : List Char}
    (ends : ∀ c ∈ rest.head?, isNameChar c = false) :
    readName (name.toList ++ rest) = some (name, rest) := by
  have noneTaken : rest.takeWhile isNameChar = [] := by
    cases rest with
    | nil => rfl
    | cons c rest => exact List.takeWhile_cons_of_neg (by simp [ends c rfl])
  have allLeft : rest.dropWhile isNameChar = rest := by
    cases rest with
    | nil => rfl
    | cons c rest => exact List.dropWhile_cons_of_neg (by simp [ends c rfl])
  rw [readName, List.takeWhile_append_of_pos shown.2, List.dropWhile_append_of_pos shown.2,
    noneTaken, allLeft, List.append_nil]
  split
  next isEmpty => exact absurd isEmpty shown.1
  next characters => rw [← characters, String.ofList_toList]

theorem eq_append_of_readName {text rest : List Char} {name : String}
    (taken : readName text = some (name, rest)) :
    CanShow name ∧ text = name.toList ++ rest := by
  rw [readName] at taken
  split at taken
  next => cases taken
  next first others characters =>
    simp only [Option.some.injEq, Prod.mk.injEq] at taken
    rcases taken with ⟨rfl, rfl⟩
    rw [CanShow, String.toList_ofList, ← characters]
    refine ⟨⟨by simp [characters], ?_⟩, List.takeWhile_append_dropWhile.symm⟩
    intro c charMem
    exact List.all_eq_true.mp List.all_takeWhile c charMem

theorem toList_rowLine (value : UInt32) (name : String) :
    (rowLine value name).toList =
      Numeral.paddedHex 8 value.toNat ++ ' ' :: (name.toList ++ ['\n']) := by
  simp [rowLine]

/-- A row is read exactly from the line that shows it. -/
theorem readRow_eq_some_iff {text rest : List Char} {value : UInt32} {name : String} :
    readRow text = some ((value, name), rest) ↔
      CanShow name ∧ text = (rowLine value name).toList ++ rest := by
  rw [toList_rowLine]
  constructor
  · intro taken
    simp only [readRow, Option.bind_eq_bind, Option.bind_eq_some_iff, Prod.exists,
      Option.some.injEq, Prod.mk.injEq] at taken
    rcases taken with ⟨_, afterValue, isValue, _, afterSpace, isSpace, _, afterName, isName, _, _,
      isBreak, ⟨rfl, rfl⟩, rfl⟩
    rcases eq_append_of_readName isName with ⟨shown, nameText⟩
    refine ⟨shown, ?_⟩
    rw [readValue_eq_some_iff.mp isValue, Reader.exactly_eq_some_iff.mp isSpace, nameText,
      Reader.exactly_eq_some_iff.mp isBreak]
    simp
  · rintro ⟨shown, rfl⟩
    have isValue : readValue (Numeral.paddedHex 8 value.toNat ++ ' ' :: (name.toList ++ ['\n']) ++
        rest) = some (value, [' '] ++ (name.toList ++ (['\n'] ++ rest))) :=
      readValue_eq_some_iff.mpr (by simp)
    have isName : readName (name.toList ++ (['\n'] ++ rest)) = some (name, ['\n'] ++ rest) :=
      readName_append shown (by simp [isNameChar])
    simp only [readRow, isValue, Reader.exactly_append, isName, Option.bind_eq_bind,
      Option.bind_some]

theorem progresses_readRow : Reader.Progresses readRow := by
  rintro text ⟨value, name⟩ rest taken
  rw [(readRow_eq_some_iff.mp taken).2, toList_rowLine]
  simp only [List.length_append, List.length_cons]
  omega

/-- Rows as they are written one after the other. -/
def rowsText (rows : List (UInt32 × String)) : List Char :=
  rows.flatMap fun (value, name) => (rowLine value name).toList

theorem run_readRow_iff {text last : List Char} {rows : List (UInt32 × String)} :
    Reader.Run readRow text rows last ↔
      (∀ row ∈ rows, CanShow row.2) ∧ text = rowsText rows ++ last ∧ readRow last = none := by
  constructor
  · intro run
    induction run with
    | stop refuses => simp [rowsText, refuses]
    | @next text rest last row rows takes shorter later ih =>
        rcases ih with ⟨shown, restEq, stops⟩
        rcases readRow_eq_some_iff.mp takes with ⟨shownFirst, textEq⟩
        refine ⟨List.forall_mem_cons.mpr ⟨shownFirst, shown⟩, ?_, stops⟩
        rw [textEq, restEq]
        simp [rowsText]
  · rintro ⟨shown, rfl, stops⟩
    induction rows with
    | nil => exact .stop stops
    | cons row rows ih =>
        rcases List.forall_mem_cons.mp shown with ⟨shownFirst, shownRest⟩
        have takes : readRow (rowsText (row :: rows) ++ last) = some (row, rowsText rows ++ last) :=
          readRow_eq_some_iff.mpr ⟨shownFirst, by simp [rowsText]⟩
        exact .next takes (progresses_readRow _ _ _ takes) (ih shownRest)

/-- What is written behind the rows. -/
def endText (endMarker : Bool) : List Char := if endMarker then ['\x1a'] else []

theorem readEnd_eq_some_iff {text : List Char} {endMarker : Bool} :
    readEnd text = some endMarker ↔ text = endText endMarker := by
  rw [readEnd.eq_def]
  split
  · cases endMarker <;> simp [endText]
  · cases endMarker <;> simp [endText]
  next notEmpty notMark => cases endMarker <;> simp_all [endText]

theorem toList_render (listing : Listing) :
    listing.render.toList =
      headerLine.toList ++ (rowsText listing.rows ++ endText listing.endMarker) := by
  cases marked : listing.endMarker <;>
    simp [render, pieces, rowsText, endText, endMark, marked, List.flatMap_map]

/-- A listing is read exactly from the text that shows it, and only with names that it can show. -/
theorem read?_eq_some_iff {text : List Char} {listing : Listing} :
    read? text = some listing ↔
      (∀ row ∈ listing.rows, CanShow row.2) ∧ text = listing.render.toList := by
  rw [toList_render]
  constructor
  · intro isListing
    simp only [read?, Option.bind_eq_bind, Option.bind_eq_some_iff, Prod.exists,
      Option.some.injEq] at isListing
    rcases isListing with ⟨_, body, isHeader, endMarker, isEnd, rfl⟩
    rcases run_readRow_iff.mp (progresses_readRow.run_all body) with ⟨shown, bodyEq, _⟩
    refine ⟨shown, ?_⟩
    rw [Reader.exactly_eq_some_iff.mp isHeader, ← readEnd_eq_some_iff.mp isEnd, ← bodyEq]
  · rintro ⟨shown, rfl⟩
    have stops : readRow (endText listing.endMarker) = none := by
      cases listing.endMarker <;> rfl
    have run := run_readRow_iff.mpr ⟨shown, rfl, stops⟩
    simp only [read?, Reader.exactly_append, run.all_eq, readEnd_eq_some_iff.mpr rfl,
      Option.bind_eq_bind, Option.bind_some]

theorem fromUTF8?_eq_some_iff {bytes : ByteArray} {text : String} :
    String.fromUTF8? bytes = some text ↔ bytes = text.toUTF8 := by
  rw [String.fromUTF8?]
  constructor
  · intro isText
    split at isText
    next => cases isText; rfl
    next => cases isText
  · rintro rfl
    exact dif_pos text.isValidUTF8

theorem ofBytes?_eq_some_iff {bytes : ByteArray} {listing : Listing} :
    ofBytes? bytes = some listing ↔
      (∀ row ∈ listing.rows, CanShow row.2) ∧ bytes = listing.render.toUTF8 := by
  simp only [ofBytes?, Option.bind_eq_some_iff, fromUTF8?_eq_some_iff, read?_eq_some_iff]
  constructor
  · rintro ⟨text, rfl, shown, sameText⟩
    exact ⟨shown, by rw [String.toList_injective sameText]⟩
  · rintro ⟨shown, rfl⟩
    exact ⟨_, rfl, shown, rfl⟩

end Symtab.Listing
