import Symtab.Name

/-!
# Names and words

The characters of names and the characters of bare words are the same. A word has no scope sigil,
and a name without a sigil is a word that does not start with a digit. It stays a name when a sigil
is put in front of it.
-/

namespace Symtab.Name

/-- Behind its first character a word has the alphabet of names. -/
theorem isWordChar_false (c : Char) : isWordChar false c = isSymbolChar c := by
  simp [isWordChar, isSymbolChar, Char.isAlphanum]

/-- A text over the alphabet of names has no sigil. -/
theorem sigilLength_eq_zero_of_symbolChars {name : String}
    (symbolChars : ∀ c ∈ name.toList, isSymbolChar c = true) : sigilLength name = 0 := by
  have noSigil : '@' ∉ name.toList := by
    intro sigilMem
    have impossible := symbolChars '@' sigilMem
    simp [isSymbolChar] at impossible
  rw [sigilLength]
  split
  next twoSigils => simp [twoSigils] at noSigil
  next oneSigil => simp [oneSigil] at noSigil
  next => rfl

theorem body_eq_toList {name : String} (plain : sigilLength name = 0) :
    body name = name.toList := by
  simp [body, plain]

theorem not_isDigit_of_body {name : String} {first : Char} {rest : List Char}
    (valid : isValid name = true) (characters : body name = first :: rest) :
    first.isDigit = false := by
  rw [isValid, characters] at valid
  simp only [Bool.and_eq_true, Bool.not_eq_true'] at valid
  exact valid.1

/-- A name without a sigil does not start with a digit. -/
theorem not_isDigit_of_isValid {name : String} {first : Char} {rest : List Char}
    (valid : isValid name = true) (plain : sigilLength name = 0)
    (characters : name.toList = first :: rest) : first.isDigit = false :=
  not_isDigit_of_body valid ((body_eq_toList plain).trans characters)

/-- Characters of the alphabet of which the first is no digit make up a name without a sigil. -/
theorem isValid_of_symbolChars {name : String} {first : Char} {rest : List Char}
    (characters : name.toList = first :: rest) (notDigit : first.isDigit = false)
    (symbolChars : ∀ c ∈ name.toList, isSymbolChar c = true) : isValid name = true := by
  rw [isValid, body_eq_toList (sigilLength_eq_zero_of_symbolChars symbolChars), characters]
  rw [characters] at symbolChars
  simpa [notDigit] using symbolChars

/-- A name is its sigil, which consists of at signs only, and its body. -/
theorem toList_eq_append_body (name : String) :
    name.toList = List.replicate (sigilLength name) '@' ++ body name := by
  rw [body, sigilLength]
  split
  next twoSigils => simp [twoSigils, List.replicate]
  next oneSigil => simp [oneSigil]
  next => simp

theorem body_ne_nil_of_isValid {name : String} (valid : isValid name = true) : body name ≠ [] := by
  intro isEmpty
  rw [isValid, isEmpty] at valid
  cases valid

theorem symbolChars_of_isValid {name : String} (valid : isValid name = true) :
    ∀ c ∈ body name, isSymbolChar c = true := by
  intro c charMem
  rw [isValid] at valid
  split at valid
  next => cases valid
  next first rest characters =>
    rw [characters] at charMem
    exact List.all_eq_true.mp (Bool.and_eq_true_iff.mp valid).2 c charMem

/-- Whether a name is local to its file: it starts with an at sign that no second one follows. -/
def IsLocal (name : String) : Prop :=
  ['@'] <+: name.toList ∧ ¬['@', '@'] <+: name.toList

theorem isLocal_iff {name : String} : IsLocal name ↔ sigilLength name = 1 := by
  rw [IsLocal, sigilLength]
  split
  next twoSigils => simp [twoSigils]
  next rest notTwo oneSigil =>
    have onlyOne : ¬['@'] <+: rest := by
      rintro ⟨others, rfl⟩
      exact notTwo others rfl
    simp [oneSigil, onlyOne]
  next noSigil =>
    have starts : ¬['@'] <+: name.toList := by
      rintro ⟨rest, oneSigil⟩
      exact noSigil rest oneSigil.symm
    simp [starts]

/-- The sigils that a name can have. -/
def sigils : List String := ["", "@", "@@"]

/-- A sigil in front of a name without one is the sigil of the whole. -/
theorem sigilLength_append {sigil name : String} (isSigil : sigil ∈ sigils)
    (plain : sigilLength name = 0) : sigilLength (sigil ++ name) = sigil.length := by
  have noSigil : ∀ rest, name.toList ≠ '@' :: rest := by
    intro rest starts
    rw [sigilLength, starts] at plain
    split at plain <;> simp_all
  simp only [sigils, List.mem_cons, List.not_mem_nil, or_false] at isSigil
  rcases isSigil with rfl | rfl | rfl
  · rw [String.empty_append, plain]
    rfl
  · have characters : ("@" ++ name).toList = '@' :: name.toList := by simp
    rw [sigilLength, characters]
    split
    next rest starts => exact absurd (List.cons.inj starts).2 (noSigil rest)
    next => rfl
    next missing => exact absurd rfl (missing name.toList)
  · have characters : ("@@" ++ name).toList = '@' :: '@' :: name.toList := by simp
    rw [sigilLength, characters]
    rfl

theorem isValid_append {sigil name : String} (isSigil : sigil ∈ sigils)
    (plain : sigilLength name = 0) : isValid (sigil ++ name) = isValid name := by
  have sameBody : body (sigil ++ name) = body name := by
    rw [body, body_eq_toList plain, sigilLength_append isSigil plain, String.toList_append,
      ← String.length_toList, List.drop_left]
  rw [isValid, isValid, sameBody]

end Symtab.Name
