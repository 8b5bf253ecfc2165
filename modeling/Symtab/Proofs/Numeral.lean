import Mathlib.Data.List.Induction
import Mathlib.Logic.Function.Basic
import Mathlib.Tactic.IntervalCases
import Symtab.Numeral

/-!
# Reading back written numbers

Written base-sixteen numbers consist of sixteen digits, and reading them gives the number back,
whatever the width to which they are filled up. Digits of a given length are determined by the
number that they denote, so a number of fixed width has exactly one written form.
-/

namespace Symtab.Numeral

/-- The digits of written base-sixteen numbers. -/
def hexAlphabet : List Char := "0123456789ABCDEF".toList

/-- The written digit of a value below sixteen. -/
def hexDigit (value : Nat) : Char := (Nat.digitChar value).toUpper

theorem digitValue?_hexDigit {value : Nat} (small : value < 16) :
    digitValue? (hexDigit value) = some value := by
  interval_cases value <;> decide

theorem mem_hexAlphabet_iff {c : Char} : c ∈ hexAlphabet ↔ ∃ value < 16, c = hexDigit value := by
  have listed : hexAlphabet = (List.range 16).map hexDigit := by decide
  simp only [listed, List.mem_map, List.mem_range, eq_comm]

theorem ofDigits_concat (base : Nat) (digits : List Char) (c : Char) :
    ofDigits base (digits ++ [c]) = base * ofDigits base digits + (digitValue? c).getD 0 := by
  simp [ofDigits]

theorem hexDigits_eq_if (number : Nat) :
    hexDigits number =
      if number < 16 then [hexDigit number]
      else hexDigits (number / 16) ++ [hexDigit (number % 16)] := by
  rw [hexDigits, Nat.toDigits_eq_if (by omega)]
  split <;> simp [hexDigits, hexDigit]

theorem ofDigits_hexDigits (number : Nat) : ofDigits 16 (hexDigits number) = number := by
  induction number using Nat.strong_induction_on with
  | _ number ih =>
      rw [hexDigits_eq_if]
      split
      next small => simp [ofDigits, digitValue?_hexDigit small]
      next =>
        rw [ofDigits_concat, ih (number / 16) (by omega),
          digitValue?_hexDigit (Nat.mod_lt number (by omega))]
        simp only [Option.getD_some]
        omega

theorem mem_hexAlphabet_of_mem_hexDigits {number : Nat} {c : Char}
    (digitMem : c ∈ hexDigits number) : c ∈ hexAlphabet := by
  induction number using Nat.strong_induction_on with
  | _ number ih =>
      rw [hexDigits_eq_if] at digitMem
      split at digitMem
      next small =>
        simp only [List.mem_singleton] at digitMem
        exact mem_hexAlphabet_iff.mpr ⟨number, small, digitMem⟩
      next =>
        simp only [List.mem_append, List.mem_singleton] at digitMem
        rcases digitMem with inFront | last
        · exact ih (number / 16) (by omega) inFront
        · exact mem_hexAlphabet_iff.mpr ⟨number % 16, Nat.mod_lt number (by omega), last⟩

/-- Zeros in front do not change a number. -/
theorem ofDigits_paddedHex (width number : Nat) :
    ofDigits 16 (paddedHex width number) = number := by
  have zeros : ∀ count, ofDigits 16 (List.replicate count '0') = 0 := by
    intro count
    induction count with
    | zero => rfl
    | succ count ih =>
        rw [List.replicate_succ', ofDigits_concat, ih]
        rfl
  calc ofDigits 16 (paddedHex width number)
      = ofDigits 16 (hexDigits number) := by
        simp only [paddedHex, List.leftpad, ofDigits, List.foldl_append] at zeros ⊢
        rw [zeros]
    _ = number := ofDigits_hexDigits number

theorem paddedHex_injective (width : Nat) : Function.Injective (paddedHex width) := by
  intro first second sameDigits
  rw [← ofDigits_paddedHex width first, sameDigits, ofDigits_paddedHex]

theorem mem_hexAlphabet_of_mem_paddedHex {width number : Nat} {c : Char}
    (digitMem : c ∈ paddedHex width number) : c ∈ hexAlphabet := by
  simp only [paddedHex, List.leftpad, List.mem_append, List.mem_replicate] at digitMem
  rcases digitMem with ⟨_, rfl⟩ | digitMem
  · decide
  · exact mem_hexAlphabet_of_mem_hexDigits digitMem

theorem length_paddedHex (width number : Nat) :
    (paddedHex width number).length = max width (hexDigits number).length := by
  rw [paddedHex, List.length_leftpad]

/-- A number below the power of its width is written with that many digits. -/
theorem length_paddedHex_of_lt {width number : Nat} (positive : 0 < width)
    (small : number < Nat.pow 16 width) : (paddedHex width number).length = width := by
  have short : (hexDigits number).length ≤ width := by
    rw [hexDigits, List.length_map]
    exact (Nat.length_toDigits_le_iff (by omega) positive).mpr small
  rw [length_paddedHex]
  omega

theorem ofDigits_lt {digits : List Char} (written : ∀ c ∈ digits, c ∈ hexAlphabet) :
    ofDigits 16 digits < Nat.pow 16 digits.length := by
  induction digits using List.reverseRecOn with
  | nil => decide
  | append_singleton digits c ih =>
      have inFront := ih fun other otherMem => written other (List.mem_append_left _ otherMem)
      rcases mem_hexAlphabet_iff.mp (written c (by simp)) with ⟨value, small, rfl⟩
      rw [ofDigits_concat, digitValue?_hexDigit small, List.length_append, List.length_singleton]
      have power : Nat.pow 16 (digits.length + 1) = Nat.pow 16 digits.length * 16 := rfl
      simp only [power, Option.getD_some]
      omega

/-- Digits of the same length that denote the same number are the same. -/
theorem eq_of_ofDigits_eq {first second : List Char} (firstWritten : ∀ c ∈ first, c ∈ hexAlphabet)
    (secondWritten : ∀ c ∈ second, c ∈ hexAlphabet) (sameLength : first.length = second.length)
    (sameNumber : ofDigits 16 first = ofDigits 16 second) : first = second := by
  induction first using List.reverseRecOn generalizing second with
  | nil => exact (List.eq_nil_of_length_eq_zero sameLength.symm).symm
  | append_singleton first c ih =>
      rcases List.eq_nil_or_concat second with rfl | ⟨others, last, rfl⟩
      · simp at sameLength
      · rw [List.concat_eq_append] at *
        simp only [List.length_append, List.length_singleton, Nat.add_right_cancel_iff]
          at sameLength
        rcases mem_hexAlphabet_iff.mp (firstWritten c (by simp)) with ⟨value, small, rfl⟩
        rcases mem_hexAlphabet_iff.mp (secondWritten last (by simp)) with ⟨other, otherSmall, rfl⟩
        simp only [ofDigits_concat, digitValue?_hexDigit small, digitValue?_hexDigit otherSmall,
          Option.getD_some] at sameNumber
        have sameFront : first = others := by
          apply ih _ _ sameLength (by omega)
          · intro digit digitMem
            exact firstWritten digit (List.mem_append_left _ digitMem)
          · intro digit digitMem
            exact secondWritten digit (List.mem_append_left _ digitMem)
        have sameLast : value = other := by omega
        rw [sameFront, sameLast]

/-- Digits are the written form of their number, at the width that they have. -/
theorem paddedHex_ofDigits {digits : List Char} (notEmpty : digits ≠ [])
    (written : ∀ c ∈ digits, c ∈ hexAlphabet) :
    paddedHex digits.length (ofDigits 16 digits) = digits := by
  apply eq_of_ofDigits_eq
  · intro c digitMem
    exact mem_hexAlphabet_of_mem_paddedHex digitMem
  · exact written
  · exact length_paddedHex_of_lt (List.length_pos_iff.mpr notEmpty) (ofDigits_lt written)
  · exact ofDigits_paddedHex digits.length (ofDigits 16 digits)

end Symtab.Numeral
