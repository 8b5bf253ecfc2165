import Symtab.Proofs.Numeral
import Symtab.Proofs.Toml.Reader
import Symtab.Toml.Text
import Symtab.Toml.Text.Written

/-!
# Strings on one line

Every character of a basic form is read back from what is written for it, escaped or not, and never
starts with a quote. So the content of a form on one line is read item by item, up to the closing
quote.
-/

namespace Symtab.Toml.Text

open Form

theorem isTextChar_eq_true_iff {c : Char} :
    isTextChar c = true ↔ isRawControl c = false ∧ c ≠ '\n' := by
  simp only [isTextChar, isRawControl, Bool.or_eq_true, Bool.and_eq_true, Bool.or_eq_false_iff,
    Bool.and_eq_false_imp, beq_iff_eq, beq_eq_false_iff_ne, bne_iff_ne, decide_eq_true_eq,
    ← Char.not_lt]
  constructor
  · rintro (rfl | ⟨notBelow, notDelete⟩)
    · decide
    · refine ⟨⟨?_, notDelete⟩, ?_⟩
      · rintro ⟨below, _⟩
        exact absurd below notBelow
      · rintro rfl
        exact notBelow (by decide)
  · rintro ⟨⟨noControl, notDelete⟩, notBreak⟩
    by_cases isTab : c = '\t'
    · exact Or.inl isTab
    · right
      refine ⟨?_, notDelete⟩
      intro below
      have isBreak := noControl ⟨below, isTab⟩
      simp [notBreak] at isBreak

theorem isPlainLiteral_of_not_isRawControl {c : Char} (notControl : isRawControl c = false)
    (noBreak : c ≠ '\n') (noQuote : c ≠ '\'') : isPlainLiteral c = true := by
  simp only [isPlainLiteral, Bool.and_eq_true, isTextChar_eq_true_iff, bne_iff_ne]
  exact ⟨⟨notControl, noBreak⟩, noQuote⟩

theorem toNat_lt_of_isRawControl {c : Char} (control : isRawControl c = true) : c.toNat < 128 := by
  simp only [isRawControl, Bool.or_eq_true, Bool.and_eq_true, decide_eq_true_eq, beq_iff_eq]
    at control
  rcases control with ⟨⟨below, _⟩, _⟩ | rfl
  · have belowBlank : c.toNat < ' '.toNat := below
    exact Nat.lt_trans belowBlank (by decide)
  · decide

theorem basicChar_plain {c : Char} (plain : isPlainBasic c = true) (rest : List Char) :
    basicChar (c :: rest) = some (c, rest) := by
  simp [basicChar, Reader.orElse, Reader.satisfying, plain]

theorem literalChar_plain {c : Char} (plain : isPlainLiteral c = true) (rest : List Char) :
    literalChar (c :: rest) = some (c, rest) := by
  simp [literalChar, Reader.satisfying, plain]

theorem basicChar_backslash (rest : List Char) :
    basicChar ('\\' :: rest) = escape ('\\' :: rest) := rfl

theorem scalar_paddedHex {c : Char} {width : Nat} (positive : 0 < width)
    (small : c.toNat < Nat.pow 16 width) (rest : List Char) :
    scalar width (Numeral.paddedHex width c.toNat ++ rest) = some (c, rest) := by
  have wide := Numeral.length_paddedHex_of_lt positive small
  have hexDigits : Numeral.hexAlphabet.all (Numeral.isDigitOf 16) = true := by decide
  have written : (Numeral.paddedHex width c.toNat).all (Numeral.isDigitOf 16) = true := by
    rw [List.all_eq_true]
    intro digit digitMem
    exact List.all_eq_true.mp hexDigits digit (Numeral.mem_hexAlphabet_of_mem_paddedHex digitMem)
  have valid : c.toNat.isValidChar := c.valid
  simp only [scalar, List.take_left' wide, List.drop_left' wide, Numeral.ofDigits_paddedHex, wide,
    written, valid, and_self, if_true, Char.ofNat_toNat]

/-- A written character is read back in both basic forms. -/
theorem basicChar_writeChar {c : Char} (noQuote : c ≠ '"') (noBreak : c ≠ '\n')
    (rest : List Char) : basicChar (writeChar c ++ rest) = some (c, rest) := by
  rw [writeChar.eq_def]
  split
  · rfl
  · rfl
  · rfl
  · rfl
  · rfl
  next notBackslash =>
    split
    next control =>
      have small : c.toNat < Nat.pow 16 4 :=
        Nat.lt_trans (toNat_lt_of_isRawControl control) (by decide)
      rw [List.cons_append, List.cons_append, basicChar_backslash]
      exact scalar_paddedHex (by omega) small rest
    next notControl =>
      apply basicChar_plain
      simp only [isPlainBasic, Bool.and_eq_true, isTextChar_eq_true_iff, bne_iff_ne]
      exact ⟨⟨⟨by simpa using notControl, noBreak⟩, noQuote⟩, notBackslash⟩

theorem singleLine_eq {quote : Char} {item : Reader Char} {content written rest : List Char}
    (run : Reader.Run item (written ++ quote :: rest) content (quote :: rest)) :
    singleLine quote item (quote :: (written ++ quote :: rest)) =
      some (String.ofList content, rest) := by
  have opens : ∀ text, Reader.exactly [quote] (quote :: text) = some ((), text) :=
    fun text => Reader.exactly_append [quote] text
  simp only [singleLine, opens, run.all_eq, Option.bind_eq_bind, Option.bind_some]

theorem basicChar_writeBasicChar (c : Char) (rest : List Char) :
    basicChar (writeBasicChar c ++ rest) = some (c, rest) := by
  rw [writeBasicChar.eq_def]
  split
  · rfl
  · rfl
  next noQuote noBreak => exact basicChar_writeChar noQuote noBreak rest

/-- A written character of the basic forms starts with a backslash or with itself. -/
theorem exists_writeChar_eq_cons (c : Char) :
    ∃ first others, writeChar c = first :: others ∧ (first = '\\' ∨ first = c ∧ c ≠ '\r') := by
  rw [writeChar.eq_def]
  split
  · exact ⟨_, _, rfl, Or.inl rfl⟩
  · exact ⟨_, _, rfl, Or.inl rfl⟩
  · exact ⟨_, _, rfl, Or.inl rfl⟩
  · exact ⟨_, _, rfl, Or.inl rfl⟩
  · exact ⟨_, _, rfl, Or.inl rfl⟩
  next notReturn _ =>
    split
    · exact ⟨_, _, rfl, Or.inl rfl⟩
    · exact ⟨_, _, rfl, Or.inr ⟨rfl, notReturn⟩⟩

theorem exists_writeBasicChar_eq_cons (c : Char) :
    ∃ first others, writeBasicChar c = first :: others ∧ first ≠ '"' := by
  rw [writeBasicChar.eq_def]
  split
  · exact ⟨_, _, rfl, by decide⟩
  · exact ⟨_, _, rfl, by decide⟩
  next noQuote _ =>
    rcases exists_writeChar_eq_cons c with ⟨first, others, written, rfl | ⟨rfl, _⟩⟩
    · exact ⟨_, _, written, by decide⟩
    · exact ⟨_, _, written, noQuote⟩

theorem basic_writeBasic (content rest : List Char) :
    basic ('"' :: (writeBasic content ++ '"' :: rest)) = some (String.ofList content, rest) := by
  apply singleLine_eq
  rw [writeBasic]
  apply Reader.run_flatMap
  · intro c _ rest
    exact basicChar_writeBasicChar c rest
  · intro c _
    rcases exists_writeBasicChar_eq_cons c with ⟨first, others, written, _⟩
    rw [written]
    exact List.cons_ne_nil _ _
  · rfl

theorem literal_of_plain {content : List Char}
    (plain : ∀ c ∈ content, isPlainLiteral c = true) (rest : List Char) :
    literal ('\'' :: (content ++ '\'' :: rest)) = some (String.ofList content, rest) := by
  apply singleLine_eq
  have run : Reader.Run literalChar (content.flatMap (fun c => [c]) ++ '\'' :: rest) content
      ('\'' :: rest) := by
    apply Reader.run_flatMap
    · intro c charMem rest
      exact literalChar_plain (plain c charMem) rest
    · intro c _
      exact List.cons_ne_nil _ _
    · rfl
  rwa [List.flatMap_singleton'] at run

end Symtab.Toml.Text
