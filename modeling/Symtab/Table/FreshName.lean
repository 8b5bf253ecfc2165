import Symtab.Numeral
import Symtab.Table.Basic

/-!
# Generated names

A generated name is a number of at least eight base-sixteen digits between the two texts of the
settings. Numbers are tried in order, and those whose name is declared are passed over. A generated
name has no sigil, so that it is looked up in the context that stands for every other.
-/

namespace Symtab

/-- The generated name with a given number. -/
def Settings.generatedName (settings : Settings) (number : UInt64) : String :=
  settings.labelPrefix ++ String.ofList (Numeral.paddedHex 8 number.toNat) ++ settings.labelSuffix

namespace Table

/-- The first number from `counter` on whose name is not declared, and the declared names passed
over on the way. Different numbers have different names, so that there are never more names to pass
over than keys in use; when `budget` is that many, the number after them is free. -/
def firstFree (table : Table) (budget : Nat) (counter : UInt64) : UInt64 × List String :=
  match budget with
  | 0 => (counter, [])
  | budget + 1 =>
    let name := table.settings.generatedName counter
    if table.declares name Context.everywhere then
      let (free, skipped) := table.firstFree budget (counter + 1)
      (free, name :: skipped)
    else
      (counter, [])

/-- Generates a name that is not declared. The name is not declared by this. -/
def freshName (table : Table) : Outcome String :=
  let (free, skipped) := table.firstFree table.size table.counter
  { answer := table.settings.generatedName free
    table := { table with counter := free + 1 }
    events := skipped.map .skippedName }

end Table

end Symtab
