import Mathlib.Data.List.Chain
import Symtab.Table.Substitution

/-!
# Cutting a line into words

Every text has exactly one cut: a sequence of parts that make up the text, where words are runs of
word characters that are not empty, other parts are single characters outside words, and no two
words touch. The last condition makes every word as long as possible.
-/

namespace Symtab.Piece

/-- Whether a part is a word. -/
def IsWord : Piece → Prop
  | word _ => True
  | other _ => False

/-- Whether a part has the characters that its form asks for. -/
def Proper : Piece → Prop
  | word characters => characters ≠ [] ∧ ∀ c ∈ characters, Name.isWordChar false c = true
  | other c => Name.isWordChar false c = false

/-- Parts make up a text, they are words and other characters, and no word touches another. -/
structure IsCut (text : List Char) (pieces : List Piece) : Prop where
  characters_eq : pieces.flatMap characters = text
  proper : ∀ piece ∈ pieces, piece.Proper
  maximal : pieces.IsChain fun first second => ¬(first.IsWord ∧ second.IsWord)

theorem cut_cons_other {c : Char} (outside : Name.isWordChar false c = false) (rest : List Char) :
    cut (c :: rest) = other c :: cut rest := by
  rw [cut, if_neg (by simp [outside])]

theorem cut_cons_of_word {c : Char} (inside : Name.isWordChar false c = true)
    {rest wordCharacters : List Char} {pieces : List Piece}
    (cutRest : cut rest = word wordCharacters :: pieces) :
    cut (c :: rest) = word (c :: wordCharacters) :: pieces := by
  rw [cut, if_pos inside, cutRest]

theorem cut_cons_of_not_word {c : Char} (inside : Name.isWordChar false c = true)
    {rest : List Char} (separated : ∀ first ∈ (cut rest).head?, ¬first.IsWord) :
    cut (c :: rest) = word [c] :: cut rest := by
  rw [cut, if_pos inside]
  split
  next wordCharacters pieces cutRest =>
    rw [cutRest] at separated
    exact absurd trivial (separated (word wordCharacters) rfl)
  next => rfl

theorem isCut_cons_other {c : Char} (outside : Name.isWordChar false c = false) {rest : List Char}
    {pieces : List Piece} (isCut : IsCut rest pieces) : IsCut (c :: rest) (other c :: pieces) where
  characters_eq := by simp [characters, isCut.characters_eq]
  proper := List.forall_mem_cons.mpr ⟨outside, isCut.proper⟩
  maximal := isCut.maximal.cons fun _ _ both => both.1

theorem isCut_cons_of_word {c : Char} (inside : Name.isWordChar false c = true)
    {rest wordCharacters : List Char} {pieces : List Piece}
    (isCut : IsCut rest (word wordCharacters :: pieces)) :
    IsCut (c :: rest) (word (c :: wordCharacters) :: pieces) where
  characters_eq := by simp [characters, ← isCut.characters_eq]
  proper := by
    rcases List.forall_mem_cons.mp isCut.proper with ⟨⟨_, insideWord⟩, properRest⟩
    refine List.forall_mem_cons.mpr ⟨⟨List.cons_ne_nil _ _, ?_⟩, properRest⟩
    exact List.forall_mem_cons.mpr ⟨inside, insideWord⟩
  maximal := by
    rw [List.isChain_cons]
    exact List.isChain_cons.mp isCut.maximal

theorem isCut_cons_of_not_word {c : Char} (inside : Name.isWordChar false c = true)
    {rest : List Char} {pieces : List Piece} (isCut : IsCut rest pieces)
    (separated : ∀ first ∈ pieces.head?, ¬first.IsWord) :
    IsCut (c :: rest) (word [c] :: pieces) where
  characters_eq := by simp [characters, isCut.characters_eq]
  proper := List.forall_mem_cons.mpr ⟨⟨List.cons_ne_nil _ _, by simpa using inside⟩, isCut.proper⟩
  maximal := isCut.maximal.cons fun first firstMem both => separated first firstMem both.2

theorem isCut_cut (text : List Char) : IsCut text (cut text) := by
  induction text with
  | nil => exact ⟨rfl, by simp [cut], List.isChain_nil⟩
  | cons c rest ih =>
      cases inside : Name.isWordChar false c with
      | false =>
          rw [cut_cons_other inside]
          exact isCut_cons_other inside ih
      | true =>
          cases cutRest : cut rest with
          | nil =>
              rw [cut_cons_of_not_word inside (by simp [cutRest])]
              exact isCut_cons_of_not_word inside ih (by simp [cutRest])
          | cons first pieces =>
              cases first with
              | word wordCharacters =>
                  rw [cut_cons_of_word inside cutRest]
                  exact isCut_cons_of_word inside (cutRest ▸ ih)
              | other separator =>
                  have separated : ∀ first ∈ (cut rest).head?, ¬first.IsWord := by
                    simp [cutRest, IsWord]
                  rw [cut_cons_of_not_word inside separated]
                  exact isCut_cons_of_not_word inside ih separated

/-- A run of word characters in front of no word is cut off as one word. -/
theorem cut_append_of_word {wordCharacters rest : List Char} (notEmpty : wordCharacters ≠ [])
    (inside : ∀ c ∈ wordCharacters, Name.isWordChar false c = true)
    (separated : ∀ first ∈ (cut rest).head?, ¬first.IsWord) :
    cut (wordCharacters ++ rest) = word wordCharacters :: cut rest := by
  induction wordCharacters with
  | nil => exact absurd rfl notEmpty
  | cons c wordCharacters ih =>
      rcases List.forall_mem_cons.mp inside with ⟨firstInside, restInside⟩
      cases wordCharacters with
      | nil => exact cut_cons_of_not_word firstInside separated
      | cons next wordCharacters =>
          exact cut_cons_of_word firstInside (ih (List.cons_ne_nil _ _) restInside)

/-- Every cut of a text is the one that the function gives. -/
theorem IsCut.eq_cut {text : List Char} {pieces : List Piece} (isCut : IsCut text pieces) :
    pieces = cut text := by
  induction pieces generalizing text with
  | nil =>
      rw [← isCut.characters_eq]
      rfl
  | cons first pieces ih =>
      rcases List.forall_mem_cons.mp isCut.proper with ⟨properFirst, properRest⟩
      rcases List.isChain_cons.mp isCut.maximal with ⟨separated, maximalRest⟩
      have cutRest := ih ⟨rfl, properRest, maximalRest⟩
      rw [← isCut.characters_eq, List.flatMap_cons]
      cases first with
      | word wordCharacters =>
          have notWord : ∀ next ∈ (cut (pieces.flatMap characters)).head?, ¬next.IsWord := by
            rw [← cutRest]
            exact fun next nextMem isWord => separated next nextMem ⟨trivial, isWord⟩
          rw [characters, cut_append_of_word properFirst.1 properFirst.2 notWord, ← cutRest]
      | other c =>
          rw [characters, List.singleton_append, cut_cons_other properFirst, ← cutRest]

/-- Every text has exactly one cut. -/
theorem existsUnique_isCut (text : List Char) : ∃! pieces, IsCut text pieces :=
  ⟨cut text, isCut_cut text, fun _ isCut => isCut.eq_cut⟩

end Symtab.Piece
