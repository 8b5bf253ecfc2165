import Symtab.Proofs.Toml.Text.Multiline

/-!
# Reading back written strings

Every string is read back from its written form, whatever follows it, as long as that does not start
with a quote. The number of quotes in front tells the forms apart, and the forms without escapes are
chosen only for content that can stand in them.
-/

namespace Symtab.Toml.Text

open Form

/-- A form on one line starts with at most two quotes. -/
theorem quoteRun_singleLine {quote : Char} {written rest : List Char}
    (noQuote : ∀ c ∈ written.head?, c ≠ quote) (ends : ∀ c ∈ rest.head?, c ≠ quote) :
    quoteRun quote (quote :: (written ++ quote :: rest)) < 3 := by
  rw [quoteRun_cons_self]
  cases written with
  | nil =>
      rw [List.nil_append, quoteRun_cons_self, quoteRun_eq_zero ends]
      omega
  | cons c written =>
      rw [List.cons_append, quoteRun_cons_of_ne (noQuote c rfl)]
      omega

theorem any_basic (content : List Char) {rest : List Char} (ends : ∀ c ∈ rest.head?, c ≠ '"') :
    any (write .basic content ++ rest) = some (String.ofList content, rest) := by
  have text : write .basic content ++ rest = '"' :: (writeBasic content ++ '"' :: rest) := by
    simp [write]
  have noQuote : ∀ c ∈ (writeBasic content).head?, c ≠ '"' := by
    cases content with
    | nil => simp [writeBasic]
    | cons c content =>
        rcases exists_writeBasicChar_eq_cons c with ⟨first, others, written, notQuote⟩
        rw [writeBasic, List.flatMap_cons, written]
        simpa using notQuote
  have notMultiline := quoteRun_singleLine noQuote ends
  have notLiteral : quoteRun '\'' ('"' :: (writeBasic content ++ '"' :: rest)) = 0 :=
    quoteRun_cons_of_ne (by decide) _
  rw [text, any, if_neg (by omega), if_neg (by omega), Reader.orElse, basic_writeBasic]

theorem any_literal {content : List Char} (plain : ∀ c ∈ content, isPlainLiteral c = true)
    {rest : List Char} (ends : ∀ c ∈ rest.head?, c ≠ '\'') :
    any (write .literal content ++ rest) = some (String.ofList content, rest) := by
  have text : write .literal content ++ rest = '\'' :: (content ++ '\'' :: rest) := by
    simp [write]
  have noQuote : ∀ c ∈ content.head?, c ≠ '\'' := by
    rintro c isFirst rfl
    have notPlain := plain '\'' (List.mem_of_mem_head? isFirst)
    simp [isPlainLiteral] at notPlain
  have notMultiline := quoteRun_singleLine noQuote ends
  have notBasic : quoteRun '"' ('\'' :: (content ++ '\'' :: rest)) = 0 :=
    quoteRun_cons_of_ne (by decide) _
  rw [text, any, if_neg (by omega), if_neg (by omega), Reader.orElse, literal_of_plain plain]
  rfl

theorem any_multilineBasic (content : List Char) {rest : List Char}
    (ends : ∀ c ∈ rest.head?, c ≠ '"') :
    any (write .multilineBasic content ++ rest) = some (String.ofList content, rest) := by
  have opens : 3 ≤ quoteRun '"' (write .multilineBasic content ++ rest) := by
    simp only [write, List.cons_append, quoteRun_cons_self]
    omega
  rw [any, if_pos opens, multilineBasic_write content ends]

theorem any_multilineLiteral {content : List Char}
    (noControl : ∀ c ∈ content, isRawControl c = false) (few : longestRun '\'' content ≤ 2)
    {rest : List Char} (ends : ∀ c ∈ rest.head?, c ≠ '\'') :
    any (write .multilineLiteral content ++ rest) = some (String.ofList content, rest) := by
  have opens : 3 ≤ quoteRun '\'' (write .multilineLiteral content ++ rest) := by
    simp only [write, List.cons_append, quoteRun_cons_self]
    omega
  have notBasic : quoteRun '"' (write .multilineLiteral content ++ rest) = 0 :=
    quoteRun_cons_of_ne (by decide) _
  rw [any, if_neg (by omega), if_pos opens, multilineLiteral_write noControl few ends]

/-- What the content is like when a literal form is chosen. -/
theorem choose_cases (content : List Char) :
    choose content = .basic ∨ choose content = .multilineBasic ∨
      (choose content = .literal ∧ ∀ c ∈ content, isPlainLiteral c = true) ∨
      choose content = .multilineLiteral ∧ (∀ c ∈ content, isRawControl c = false) ∧
        longestRun '\'' content ≤ 2 := by
  simp only [choose]
  split
  · exact Or.inl rfl
  split
  next conditions =>
    simp only [Bool.and_eq_true, Bool.not_eq_true', beq_iff_eq, List.any_eq_false]
      at conditions
    rcases conditions with ⟨⟨noControl, noRun⟩, noBreak⟩
    refine Or.inr (Or.inr (Or.inl ⟨rfl, ?_⟩))
    intro c charMem
    apply isPlainLiteral_of_not_isRawControl
    · simpa using noControl c charMem
    · rintro rfl
      simp [charMem] at noBreak
    · rintro rfl
      exact not_mem_of_longestRun_eq_zero noRun charMem
  split
  · exact Or.inr (Or.inl rfl)
  split
  next conditions =>
    simp only [Bool.and_eq_true, Bool.not_eq_true', decide_eq_true_eq, List.any_eq_false]
      at conditions
    rcases conditions with ⟨noControl, few⟩
    refine Or.inr (Or.inr (Or.inr ⟨rfl, ?_, few⟩))
    intro c charMem
    simpa using noControl c charMem
  split
  · exact Or.inr (Or.inl rfl)
  · exact Or.inl rfl

theorem exists_written_eq_cons (content : String) :
    ∃ quote others, (written content).toList = quote :: others ∧ (quote = '"' ∨ quote = '\'') := by
  rw [written, String.toList_ofList]
  cases choose content.toList with
  | basic => exact ⟨_, _, rfl, Or.inl rfl⟩
  | literal => exact ⟨_, _, rfl, Or.inr rfl⟩
  | multilineBasic => exact ⟨_, _, rfl, Or.inl rfl⟩
  | multilineLiteral => exact ⟨_, _, rfl, Or.inr rfl⟩

/-- Every string is read back from its written form, whatever follows it other than a quote. -/
theorem any_written (content : String) {rest : List Char}
    (ends : ∀ c ∈ rest.head?, c ≠ '"' ∧ c ≠ '\'') :
    any ((written content).toList ++ rest) = some (content, rest) := by
  have noDouble : ∀ c ∈ rest.head?, c ≠ '"' := fun c isFirst => (ends c isFirst).1
  have noSingle : ∀ c ∈ rest.head?, c ≠ '\'' := fun c isFirst => (ends c isFirst).2
  have sameContent : some (content, rest) = some (String.ofList content.toList, rest) := by
    rw [String.ofList_toList]
  rw [written, String.toList_ofList, sameContent]
  rcases choose_cases content.toList with
    chosen | chosen | ⟨chosen, plain⟩ | ⟨chosen, noControl, few⟩
  · rw [chosen]
    exact any_basic content.toList noDouble
  · rw [chosen]
    exact any_multilineBasic content.toList noDouble
  · rw [chosen]
    exact any_literal plain noSingle
  · rw [chosen]
    exact any_multilineLiteral noControl few noSingle

end Symtab.Toml.Text
