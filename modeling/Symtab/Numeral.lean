/-!
# Numerals

Digits and the numbers they denote, in the bases that names, listings and settings use. Written
numbers have upper-case base-sixteen digits, filled up with zeros on the left; digits are read in
either case.
-/

namespace Symtab.Numeral

/-- The value of one digit of either case, in any base up to sixteen. -/
def digitValue? (c : Char) : Option Nat :=
  if c.isDigit then some (c.toNat - '0'.toNat)
  else if 'a' ≤ c ∧ c ≤ 'f' then some (c.toNat - 'a'.toNat + 10)
  else if 'A' ≤ c ∧ c ≤ 'F' then some (c.toNat - 'A'.toNat + 10)
  else none

/-- Whether `c` is a digit of the given base. -/
def isDigitOf (base : Nat) (c : Char) : Bool :=
  (digitValue? c).any (· < base)

/-- The number that `digits` denote in the given base, most significant digit first. -/
def ofDigits (base : Nat) (digits : List Char) : Nat :=
  digits.foldl (fun number c => base * number + (digitValue? c).getD 0) 0

/-- The upper-case base-sixteen digits of `number`, most significant digit first. -/
def hexDigits (number : Nat) : List Char :=
  (Nat.toDigits 16 number).map Char.toUpper

/-- The base-sixteen digits of `number`, filled up with zeros to at least `width` characters. -/
def paddedHex (width number : Nat) : List Char :=
  (hexDigits number).leftpad width '0'

end Symtab.Numeral
