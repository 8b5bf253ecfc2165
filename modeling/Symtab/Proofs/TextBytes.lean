import Mathlib.Order.Basic
import Symtab.Storage

/-!
# Bytes of texts

The bytes of joined texts are those of the texts one after the other, and comparing texts byte by
byte comes to the same as comparing them character by character. The first byte of a character tells
how many follow, and more of them stand for a larger character. Of characters with the same number
of bytes the larger has the larger bytes, as these hold the digits of its number in base 64.
-/

namespace Symtab.Storage

theorem toList_loop (bytes : ByteArray) (i : Nat) (found : List UInt8) :
    ByteArray.toList.loop bytes i found = found.reverse ++ bytes.data.toList.drop i := by
  fun_induction ByteArray.toList.loop bytes i found with
  | case1 i found inRange ih =>
      have inList : i < bytes.data.toList.length := inRange
      have next : bytes.get! i = bytes.data.toList[i] := getElem!_pos bytes.data i inRange
      rw [ih, List.drop_eq_getElem_cons inList, next, List.reverse_cons, List.append_assoc]
      rfl
  | case2 i found outside =>
      rw [List.drop_of_length_le (Nat.le_of_not_lt outside), List.append_nil]

theorem toList_eq_data_toList (bytes : ByteArray) : bytes.toList = bytes.data.toList :=
  toList_loop bytes 0 []

theorem bytes_join (texts : List String) :
    (String.join texts).toUTF8.toList = (texts.map (·.toUTF8.toList)).flatten := by
  simp only [toList_eq_data_toList, String.toUTF8_eq_toByteArray]
  induction texts with
  | nil => rfl
  | cons text texts ih =>
      rw [String.join_cons, List.map_cons, List.flatten_cons, ← ih, String.toByteArray_append,
        ByteArray.data_append, Array.toList_append]

theorem bytes_eq_flatMap (text : String) :
    text.toUTF8.toList = text.toList.flatMap String.utf8EncodeChar := by
  rw [toList_eq_data_toList, String.toUTF8_eq_toByteArray, ← String.utf8Encode_toList,
    List.utf8Encode, List.data_toByteArray, List.toList_toArray]

/-- A larger character has larger bytes, whatever follows, for each pair of byte counts. -/
theorem utf8EncodeChar_append_lt {c d : Char} (smaller : c < d) (rest others : List UInt8) :
    String.utf8EncodeChar c ++ rest < String.utf8EncodeChar d ++ others := by
  have smallerCode : c.val.toNat < d.val.toNat :=
    UInt32.lt_iff_toNat_lt.mp (Char.lt_def.mp smaller)
  have inRange : d.val.toNat < 0x110000 := by
    rcases d.valid with low | high
    · exact Nat.lt_trans low (by decide)
    · exact high.2
  have byte : ∀ n < 256, (UInt8.ofNat n).toNat = n := fun n small => UInt8.toNat_ofNat_of_lt' small
  have third : ∀ n, n / 4096 = n / 64 / 64 := fun n => by omega
  have fourth : ∀ n, n / 262144 = n / 64 / 64 / 64 := fun n => by omega
  simp only [String.utf8EncodeChar, third, fourth]
  generalize c.val.toNat = code at *
  generalize d.val.toNat = larger at *
  split_ifs <;>
    simp (disch := omega) only [List.cons_append, List.nil_append, List.cons_lt_cons_iff,
      UInt8.lt_iff_toNat_lt, ← UInt8.toNat_inj, byte] <;>
    omega

theorem flatMap_utf8EncodeChar_lt {first second : List Char} (smaller : first < second) :
    first.flatMap String.utf8EncodeChar < second.flatMap String.utf8EncodeChar := by
  induction first generalizing second with
  | nil =>
      cases second with
      | nil => exact absurd smaller (List.lt_irrefl [])
      | cons d ds =>
          rw [List.flatMap_nil, List.flatMap_cons]
          cases encoded : String.utf8EncodeChar d with
          | nil => exact absurd encoded String.utf8EncodeChar_ne_nil
          | cons byte bytes => exact List.nil_lt_cons byte _
  | cons c cs ih =>
      cases second with
      | nil => exact absurd smaller (List.not_lt_nil _)
      | cons d ds =>
          rw [List.flatMap_cons, List.flatMap_cons]
          rcases List.cons_lt_cons_iff.mp smaller with smallerFirst | ⟨rfl, smallerRest⟩
          · exact utf8EncodeChar_append_lt smallerFirst _ _
          · exact List.append_left_lt (ih smallerRest)

/-- Texts are ordered by their bytes as they are by their characters. -/
theorem bytes_lt_iff {first second : String} :
    first.toUTF8.toList < second.toUTF8.toList ↔ first < second := by
  have sameOrder : ∀ {first second : String}, first < second →
      first.toUTF8.toList < second.toUTF8.toList := by
    intro first second smaller
    rw [bytes_eq_flatMap, bytes_eq_flatMap]
    exact flatMap_utf8EncodeChar_lt (String.lt_iff.mp smaller)
  refine ⟨fun smallerBytes => ?_, sameOrder⟩
  by_contra notSmaller
  have notLarger : ¬ second < first := fun larger =>
    List.lt_asymm smallerBytes (sameOrder larger)
  have same : first = second :=
    String.le_antisymm (String.not_lt.mp notLarger) (String.not_lt.mp notSmaller)
  rw [same] at smallerBytes
  exact List.lt_irrefl _ smallerBytes

end Symtab.Storage
