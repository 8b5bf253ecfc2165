import Symtab.Numeral
import Symtab.Toml.Reader

/-!
# Numbers

Integers of 64 bits in four bases and floating-point numbers. A floating-point number is kept as the
exact decimal that is written; one that rounds to positive infinity is refused.
-/

namespace Symtab.Toml

/-- A floating-point number as it is written. -/
inductive Decimal where
  /-- The number `significand * 10 ^ exponent`, or its negative. -/
  | finite (negative : Bool) (significand : Nat) (exponent : Int)
  | infinity (negative : Bool)
  | nan (negative : Bool)
  deriving DecidableEq, Repr

/-- Whether a nonnegative decimal is at least the half-way point between the largest binary number
of 64 bits and the next power of two, from where on rounding gives infinity. -/
def Decimal.exceedsBinary64 (significand : Nat) (exponent : Int) : Bool :=
  let magnitude := (Nat.toDigits 10 significand).length + exponent
  if significand = 0 ∨ magnitude < 300 then false
  else if 320 < magnitude then true
  else
    let halfway := (1 <<< 54 - 1) <<< 970
    halfway * Nat.pow 10 (-exponent).toNat ≤ significand * Nat.pow 10 exponent.toNat

/-- Whether a decimal rounds to positive infinity without being written as it. -/
def Decimal.overflows : Decimal → Bool
  | finite negative significand exponent => !negative && exceedsBinary64 significand exponent
  | infinity _ | nan _ => false

namespace Number

/-- Reads digits of a base, between which single underscores may stand. -/
def digits (base : Nat) : Reader (List Char) := fun text => do
  let (first, rest) ← Reader.satisfying (Numeral.isDigitOf base) text
  let (others, last) := Reader.all nextDigit rest
  some (first :: others, last)
where
  /-- Reads a digit, or an underscore and a digit. -/
  nextDigit : Reader Char
    | '_' :: rest => Reader.satisfying (Numeral.isDigitOf base) rest
    | text => Reader.satisfying (Numeral.isDigitOf base) text

/-- Reads an optional sign: whether it is a minus. -/
def sign (text : List Char) : Bool × List Char :=
  match text with
  | '+' :: rest => (false, rest)
  | '-' :: rest => (true, rest)
  | _ => (false, text)

/-- Reads decimal digits without needless zeros in front. -/
def wholeDigits : Reader (List Char)
  | '0' :: rest => some (['0'], rest)
  | text => digits 10 text

/-- The integer of a sign and digits, refused when 64 bits cannot hold it. -/
def bounded (negative : Bool) (magnitude : Nat) : Option Int :=
  let number : Int := if negative then -magnitude else magnitude
  if Int64.minValue.toInt ≤ number ∧ number ≤ Int64.maxValue.toInt then some number else none

/-- Reads digits of a base as an integer. -/
def basedInteger (base : Nat) : Reader Int := fun text => do
  let (found, rest) ← digits base text
  let number ← bounded false (Numeral.ofDigits base found)
  some (number, rest)

/-- Reads an integer; only decimal ones have a sign. -/
def integer : Reader Int
  | '0' :: 'x' :: rest => basedInteger 16 rest
  | '0' :: 'o' :: rest => basedInteger 8 rest
  | '0' :: 'b' :: rest => basedInteger 2 rest
  | text => do
    let (negative, unsigned) := sign text
    let (found, rest) ← wholeDigits unsigned
    let number ← bounded negative (Numeral.ofDigits 10 found)
    some (number, rest)

/-- Reads the exponent of a floating-point number. -/
def exponent : Reader Int
  | 'e' :: rest | 'E' :: rest => do
    let (negative, unsigned) := sign rest
    let (found, rest) ← digits 10 unsigned
    let magnitude : Nat := Numeral.ofDigits 10 found
    some (if negative then -magnitude else magnitude, rest)
  | _ => none

/-- Reads the digits behind the point of a floating-point number. -/
def fraction : Reader (List Char)
  | '.' :: rest => digits 10 rest
  | _ => none

/-- Reads a fraction, an exponent, or both. -/
def scale : Reader (List Char × Int) := fun text =>
  match fraction text with
  | some (places, rest) =>
    match exponent rest with
    | some (power, last) => some ((places, power), last)
    | none => some ((places, 0), rest)
  | none => Reader.map (fun power => ([], power)) exponent text

/-- Reads the name of an infinity or of the value that is not a number. -/
def special (negative : Bool) : Reader Decimal
  | 'i' :: 'n' :: 'f' :: rest => some (.infinity negative, rest)
  | 'n' :: 'a' :: 'n' :: rest => some (.nan negative, rest)
  | _ => none

/-- Reads digits with a fraction or an exponent. -/
def finite (negative : Bool) : Reader Decimal := fun text => do
  let (whole, rest) ← wholeDigits text
  let ((places, power), last) ← scale rest
  let number := Decimal.finite negative (Numeral.ofDigits 10 (whole ++ places))
    (power - places.length)
  if number.overflows then none else some (number, last)

/-- Reads a number with a fraction or an exponent, or a special one. -/
def float : Reader Decimal := fun text =>
  let (negative, unsigned) := sign text
  Reader.orElse (finite negative) (special negative) unsigned

end Number

end Symtab.Toml
