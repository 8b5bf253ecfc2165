import Symtab.Proofs.Key

/-!
# The grammar of names

A name is spelled as a sigil, an initial character and further characters. The sigil is empty, `@`
or `@@`. The initial character is an ASCII letter, an underscore or a point, and only behind it may
there be digits as well. The texts spelled in this way are exactly the names, and exactly the texts
that resolve to a key; none is spelled in two ways.

A sigil has as many bytes as characters. What follows it therefore starts at the boundary of a
character, whatever characters the text consists of.
-/

namespace Symtab

namespace Name

/-- The characters that may come first behind the sigil. -/
def IsInitial (c : Char) : Prop :=
  'A' ≤ c ∧ c ≤ 'Z' ∨ 'a' ≤ c ∧ c ≤ 'z' ∨ c = '_' ∨ c = '.'

/-- The characters that may come later. -/
def IsInner (c : Char) : Prop := IsInitial c ∨ '0' ≤ c ∧ c ≤ '9'

theorem isUpper_iff {c : Char} : c.isUpper = true ↔ 'A' ≤ c ∧ c ≤ 'Z' := by
  unfold Char.isUpper
  simp [Char.le_def]

theorem isLower_iff {c : Char} : c.isLower = true ↔ 'a' ≤ c ∧ c ≤ 'z' := by
  unfold Char.isLower
  simp [Char.le_def]

theorem isDigit_iff {c : Char} : c.isDigit = true ↔ '0' ≤ c ∧ c ≤ '9' := by
  unfold Char.isDigit
  simp [Char.le_def]

theorem isSymbolChar_iff {c : Char} : isSymbolChar c = true ↔ IsInner c := by
  have alphanumeric : c.isAlphanum = (c.isUpper || c.isLower || c.isDigit) := rfl
  simp only [isSymbolChar, alphanumeric, Bool.or_eq_true, isUpper_iff, isLower_iff, isDigit_iff,
    beq_iff_eq, IsInner, IsInitial]
  tauto

theorem IsInitial.not_isDigit {c : Char} (initial : IsInitial c) : c.isDigit = false := by
  apply Bool.eq_false_iff.mpr
  intro digit
  have digitRange : '0'.toNat ≤ c.toNat ∧ c.toNat ≤ '9'.toNat := isDigit_iff.mp digit
  simp only [Char.reduceToNat] at digitRange
  rcases initial with upper | lower | rfl | rfl
  · have upperRange : 'A'.toNat ≤ c.toNat ∧ c.toNat ≤ 'Z'.toNat := upper
    simp only [Char.reduceToNat] at upperRange
    omega
  · have lowerRange : 'a'.toNat ≤ c.toNat ∧ c.toNat ≤ 'z'.toNat := lower
    simp only [Char.reduceToNat] at lowerRange
    omega
  · cases digit
  · cases digit

theorem isInitial_iff {c : Char} : IsInitial c ↔ isSymbolChar c = true ∧ c.isDigit = false := by
  constructor
  · intro initial
    exact ⟨isSymbolChar_iff.mpr (Or.inl initial), initial.not_isDigit⟩
  · rintro ⟨symbolChar, notDigit⟩
    rcases isSymbolChar_iff.mp symbolChar with initial | digit
    · exact initial
    · rw [isDigit_iff.mpr digit] at notDigit
      cases notDigit

/-- A sigil, an initial character and further characters. -/
structure Spelling where
  sigil : String
  initial : Char
  inner : List Char
  isSigil : sigil ∈ sigils
  isInitial : IsInitial initial
  isInner : ∀ c ∈ inner, IsInner c

namespace Spelling

variable (spelling : Spelling)

/-- What follows the sigil. -/
def plain : String := String.ofList (spelling.initial :: spelling.inner)

/-- The name that is spelled. -/
def text : String := spelling.sigil ++ spelling.plain

theorem toList_plain : spelling.plain.toList = spelling.initial :: spelling.inner :=
  String.toList_ofList

theorem symbolChars_plain : ∀ c ∈ spelling.plain.toList, isSymbolChar c = true := by
  intro c charMem
  simp only [toList_plain, List.mem_cons] at charMem
  rcases charMem with rfl | innerMem
  · exact (isInitial_iff.mp spelling.isInitial).1
  · exact isSymbolChar_iff.mpr (spelling.isInner c innerMem)

theorem sigilLength_plain : sigilLength spelling.plain = 0 :=
  sigilLength_eq_zero_of_symbolChars spelling.symbolChars_plain

theorem isValid_text : isValid spelling.text = true := by
  rw [text, isValid_append spelling.isSigil spelling.sigilLength_plain]
  exact isValid_of_symbolChars spelling.toList_plain spelling.isInitial.not_isDigit
    spelling.symbolChars_plain

theorem length_sigil : spelling.sigil.length = sigilLength spelling.text :=
  (sigilLength_append spelling.isSigil spelling.sigilLength_plain).symm

/-- A text tells its spelling: the sigil by its length, and the characters behind it. -/
theorem text_injective : Function.Injective text := by
  intro first second sameText
  have sameLength : first.sigil.toList.length = second.sigil.toList.length := by
    simp only [String.length_toList, length_sigil, sameText]
  have sameChars : first.sigil.toList ++ first.plain.toList =
      second.sigil.toList ++ second.plain.toList := by
    simpa [text] using congrArg String.toList sameText
  rcases List.append_inj sameChars sameLength with ⟨sameSigil, samePlain⟩
  simp only [toList_plain, List.cons.injEq] at samePlain
  cases first
  cases second
  simp only [Spelling.mk.injEq]
  exact ⟨String.toList_inj.mp sameSigil, samePlain⟩

end Spelling

/-- The sigil that starts a text, whether or not the text is a name. -/
def sigil (name : String) : String := String.ofList (List.replicate (sigilLength name) '@')

theorem sigil_mem_sigils (name : String) : sigil name ∈ sigils := by
  simp only [sigil, sigilLength]
  split <;> decide

theorem eq_sigil_append_body (name : String) : name = sigil name ++ String.ofList (body name) := by
  apply String.toList_inj.mp
  simpa [sigil] using toList_eq_append_body name

theorem exists_spelling_of_isValid {name : String} (valid : isValid name = true) :
    ∃ spelling : Spelling, spelling.text = name := by
  have symbolChars := symbolChars_of_isValid valid
  cases characters : body name with
  | nil => exact absurd characters (body_ne_nil_of_isValid valid)
  | cons initial inner =>
      rw [characters] at symbolChars
      rcases List.forall_mem_cons.mp symbolChars with ⟨initialSymbol, innerSymbols⟩
      refine ⟨⟨sigil name, initial, inner, sigil_mem_sigils name, ?_, ?_⟩, ?_⟩
      · exact isInitial_iff.mpr ⟨initialSymbol, not_isDigit_of_body valid characters⟩
      · intro c innerMem
        exact isSymbolChar_iff.mp (innerSymbols c innerMem)
      · change sigil name ++ String.ofList (initial :: inner) = name
        rw [← characters]
        exact (eq_sigil_append_body name).symm

theorem utf8ByteSize_sigil (name : String) : (sigil name).utf8ByteSize = sigilLength name := by
  have oneByteEach : ∀ text ∈ sigils, text.utf8ByteSize = text.length := by decide
  calc (sigil name).utf8ByteSize
      = (sigil name).length := oneByteEach _ (sigil_mem_sigils name)
    _ = sigilLength name := by simp [sigil]

/-- As many bytes from the start as the sigil is long, a character of the text starts or the text
ends, and what follows is the body. -/
theorem exists_position_of_body (name : String) :
    ∃ start : name.Pos, start.offset.byteIdx = sigilLength name ∧
      (name.sliceFrom start).copy = String.ofList (body name) := by
  have parts := eq_sigil_append_body name
  have boundary : (sigil name).rawEndPos.IsValid name :=
    String.Pos.Raw.isValid_iff_exists_append.mpr ⟨_, _, parts, rfl⟩
  have splits : (⟨_, boundary⟩ : name.Pos).Splits (sigil name) (String.ofList (body name)) :=
    ⟨parts, rfl⟩
  exact ⟨⟨_, boundary⟩, utf8ByteSize_sigil name, splits.copy_sliceFrom_eq⟩

/-- Exactly the texts that are spelled as a sigil, an initial character and inner characters are
names, in one way only, and exactly these resolve to a key. The length of the sigil is that of the
spelling, and in every text it ends where a character starts or the text ends. -/
theorem isValid_iff_spelled_uniquely :
    (∀ name, isValid name = true ↔ ∃ spelling : Spelling, spelling.text = name) ∧
    Function.Injective Spelling.text ∧
    (∀ spelling : Spelling, spelling.sigil.length = sigilLength spelling.text) ∧
    (∀ name : String, ∃ start : name.Pos, start.offset.byteIdx = sigilLength name ∧
      (name.sliceFrom start).copy = String.ofList (body name)) ∧
    ∀ name context, (∃ key, Key.resolve name context = .ok key) ↔
      ∃ spelling : Spelling, spelling.text = name := by
  have spelled : ∀ name, isValid name = true ↔ ∃ spelling : Spelling, spelling.text = name := by
    intro name
    constructor
    · exact exists_spelling_of_isValid
    · rintro ⟨spelling, rfl⟩
      exact spelling.isValid_text
  refine ⟨spelled, Spelling.text_injective, Spelling.length_sigil, exists_position_of_body, ?_⟩
  intro name context
  exact Key.exists_resolve_eq_ok_iff.trans (spelled name)

end Name

end Symtab
