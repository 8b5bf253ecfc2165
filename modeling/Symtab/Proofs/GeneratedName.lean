import Symtab.Proofs.Name
import Symtab.Proofs.Numeral
import Symtab.Table.FreshName

/-!
# Generated names are names

Settings are allowed exactly when the text before the number starts like a name and both texts keep
to the alphabet of names. Every generated name is then a symbol name without a sigil. Different
numbers have different generated names, whatever the settings.
-/

namespace Symtab.Settings

/-- The texts around the number keep to the alphabet of names, and the first starts like a name. -/
structure Allowed (settings : Settings) : Prop where
  startsName : ∃ first rest, settings.labelPrefix.toList = first :: rest ∧ first.isDigit = false
  prefixChars : ∀ c ∈ settings.labelPrefix.toList, Name.isSymbolChar c = true
  suffixChars : ∀ c ∈ settings.labelSuffix.toList, Name.isSymbolChar c = true

theorem checkStart_eq_ok_iff {text : String} :
    checkStart text = .ok () ↔
      ∃ first rest, text.toList = first :: rest ∧ first.isDigit = false := by
  rw [checkStart]
  split
  next isEmpty => simp [isEmpty]
  next first rest characters => cases digit : first.isDigit <;> simp [characters, digit]

theorem checkAlphabet_eq_ok_iff {key text : String} :
    checkAlphabet key text = .ok () ↔ ∀ c ∈ text.toList, Name.isSymbolChar c = true := by
  rw [checkAlphabet]
  split
  next c foreign =>
    simp only [reduceCtorEq, false_iff, not_forall]
    refine ⟨c, List.mem_of_find?_eq_some foreign, ?_⟩
    simpa using List.find?_some foreign
  next noneForeign => simpa using noneForeign

theorem validate_eq_ok_iff {settings : Settings} :
    settings.validate = .ok () ↔ settings.Allowed := by
  have andThen : ∀ first second : Except Fault Unit,
      (first >>= fun _ => second) = .ok () ↔ first = .ok () ∧ second = .ok () := by
    intro first second
    cases first <;> simp [bind, Except.bind]
  simp only [validate, andThen, checkStart_eq_ok_iff, checkAlphabet_eq_ok_iff]
  constructor
  · rintro ⟨starts, prefixChars, suffixChars⟩
    exact ⟨starts, prefixChars, suffixChars⟩
  · intro allowed
    exact ⟨allowed.startsName, allowed.prefixChars, allowed.suffixChars⟩

theorem toList_generatedName (settings : Settings) (number : UInt64) :
    (settings.generatedName number).toList =
      settings.labelPrefix.toList ++ Numeral.paddedHex 8 number.toNat ++
        settings.labelSuffix.toList := by
  simp [generatedName]

theorem generatedName_injective (settings : Settings) :
    Function.Injective settings.generatedName := by
  intro first second sameName
  have sameText := congrArg String.toList sameName
  simp only [toList_generatedName, List.append_cancel_right_eq, List.append_cancel_left_eq]
    at sameText
  exact UInt64.toNat_inj.mp (Numeral.paddedHex_injective 8 sameText)

namespace Allowed

variable {settings : Settings}

theorem symbolChars_generatedName (allowed : settings.Allowed) (number : UInt64) :
    ∀ c ∈ (settings.generatedName number).toList, Name.isSymbolChar c = true := by
  have digitChars : Numeral.hexAlphabet.all Name.isSymbolChar = true := by decide
  intro c charMem
  simp only [toList_generatedName, List.mem_append] at charMem
  rcases charMem with (inPrefix | inNumber) | inSuffix
  · exact allowed.prefixChars c inPrefix
  · exact List.all_eq_true.mp digitChars c (Numeral.mem_hexAlphabet_of_mem_paddedHex inNumber)
  · exact allowed.suffixChars c inSuffix

theorem sigilLength_generatedName (allowed : settings.Allowed) (number : UInt64) :
    Name.sigilLength (settings.generatedName number) = 0 :=
  Name.sigilLength_eq_zero_of_symbolChars (allowed.symbolChars_generatedName number)

theorem isValid_generatedName (allowed : settings.Allowed) (number : UInt64) :
    Name.isValid (settings.generatedName number) = true := by
  rcases allowed.startsName with ⟨first, rest, characters, notDigit⟩
  apply Name.isValid_of_symbolChars
  · rw [toList_generatedName, characters, List.cons_append, List.cons_append]
  · exact notDigit
  · exact allowed.symbolChars_generatedName number

/-- Settings are allowed if the name of zero is a symbol name without a sigil: without a text in
front of the number it would start with a digit. -/
theorem of_first_name (valid : Name.isValid (settings.generatedName 0) = true)
    (plain : Name.sigilLength (settings.generatedName 0) = 0) : settings.Allowed := by
  have characters := settings.toList_generatedName 0
  have symbolChars : ∀ c ∈ (settings.generatedName 0).toList, Name.isSymbolChar c = true := by
    rw [← Name.body_eq_toList plain]
    exact Name.symbolChars_of_isValid valid
  simp only [characters, List.forall_mem_append] at symbolChars
  rcases symbolChars with ⟨⟨prefixChars, _⟩, suffixChars⟩
  refine ⟨?_, prefixChars, suffixChars⟩
  cases inPrefix : settings.labelPrefix.toList with
  | cons first rest =>
      rw [inPrefix, List.cons_append, List.cons_append] at characters
      exact ⟨first, rest, rfl, Name.not_isDigit_of_isValid valid plain characters⟩
  | nil =>
      have zeros : Numeral.paddedHex 8 (0 : UInt64).toNat = '0' :: List.replicate 7 '0' := by decide
      rw [inPrefix, zeros, List.nil_append, List.cons_append] at characters
      have notDigit := Name.not_isDigit_of_isValid valid plain characters
      cases notDigit

end Allowed

/-- Settings are allowed exactly when every generated name is a symbol name without a sigil, and the
name of zero alone decides. The generated name of a number has at least eight base-sixteen digits
that denote it between the two texts, and it is the name that a table without symbols generates
from this number on. -/
theorem validate_eq_ok_iff_forall_name (settings : Settings) :
    (settings.validate = .ok () ↔ ∀ number,
      Name.isValid (settings.generatedName number) = true ∧
        Name.sigilLength (settings.generatedName number) = 0) ∧
    (settings.validate = .ok () ↔
      Name.isValid (settings.generatedName 0) = true ∧
        Name.sigilLength (settings.generatedName 0) = 0) ∧
    ∀ number : UInt64, ∃ digits : List Char,
      settings.generatedName number =
        settings.labelPrefix ++ String.ofList digits ++ settings.labelSuffix ∧
      8 ≤ digits.length ∧ (∀ c ∈ digits, c ∈ Numeral.hexAlphabet) ∧
      Numeral.ofDigits 16 digits = number.toNat ∧
      ({ settings, counter := number } : Table).freshName.answer =
        settings.generatedName number := by
  have alwaysNames : settings.validate = .ok () → ∀ number,
      Name.isValid (settings.generatedName number) = true ∧
        Name.sigilLength (settings.generatedName number) = 0 := by
    intro validated number
    have allowed := validate_eq_ok_iff.mp validated
    exact ⟨allowed.isValid_generatedName number, allowed.sigilLength_generatedName number⟩
  have ofFirst : Name.isValid (settings.generatedName 0) = true ∧
      Name.sigilLength (settings.generatedName 0) = 0 → settings.validate = .ok () := by
    rintro ⟨valid, plain⟩
    exact validate_eq_ok_iff.mpr (.of_first_name valid plain)
  refine ⟨⟨alwaysNames, fun always => ofFirst (always 0)⟩,
    ⟨fun validated => alwaysNames validated 0, ofFirst⟩, ?_⟩
  intro number
  refine ⟨Numeral.paddedHex 8 number.toNat, rfl, ?_, ?_, ?_, rfl⟩
  · rw [Numeral.length_paddedHex]
    exact Nat.le_max_left 8 _
  · intro c charMem
    exact Numeral.mem_hexAlphabet_of_mem_paddedHex charMem
  · exact Numeral.ofDigits_paddedHex 8 number.toNat

/-- Without a prefix some generated names are still symbol names, but the first one is not. -/
example :
    let settings : Settings := { labelPrefix := "" }
    settings.validate = .error .emptyPrefix ∧
      Name.isValid (settings.generatedName 0xA0000000) = true ∧
      Name.isValid (settings.generatedName 0) = false := by
  decide +kernel

end Symtab.Settings
