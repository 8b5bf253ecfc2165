import Symtab.Proofs.Name
import Symtab.Proofs.Piece

/-!
# Boundaries between words

Two texts meet at a word boundary when no word goes across the place where they meet. The cut of the
joined text is then the cut of the first text followed by the cut of the second. It follows that the
words of a cut are the runs of word characters that no word character precedes or follows.

Rewriting the words of a text, each on its own, keeps the boundary behind every part. It never loses
a character outside words, so that a word which is replaced by a text with such a character cannot
be made good elsewhere: the text as a whole stays the same only if every word does.
-/

namespace Symtab.Piece

/-- Whether one of two texts is empty, or one of the characters that meet is outside words. -/
def WordBoundary (before after : List Char) : Prop :=
  ∀ last ∈ before.getLast?, ∀ first ∈ after.head?,
    Name.isWordChar false last = false ∨ Name.isWordChar false first = false

theorem Proper.characters_ne_nil {piece : Piece} (proper : piece.Proper) :
    piece.characters ≠ [] := by
  cases piece with
  | word characters => exact proper.1
  | other c => exact List.cons_ne_nil c []

theorem Proper.isWordChar_eq_true_iff {piece : Piece} (proper : piece.Proper) {c : Char}
    (charMem : c ∈ piece.characters) : Name.isWordChar false c = true ↔ piece.IsWord := by
  cases piece with
  | word characters => exact iff_of_true (proper.2 c charMem) trivial
  | other separator =>
      obtain rfl := List.mem_singleton.mp charMem
      exact iff_of_false (Bool.eq_false_iff.mp proper) id

theorem Proper.exists_last {piece : Piece} (proper : piece.Proper) {pieces : List Piece}
    (isLast : piece ∈ pieces.getLast?) :
    ∃ last ∈ (pieces.flatMap characters).getLast?, last ∈ piece.characters := by
  obtain ⟨front, rfl⟩ := List.getLast?_eq_some_iff.mp isLast
  refine ⟨piece.characters.getLast proper.characters_ne_nil, ?_, List.getLast_mem _⟩
  simp [List.getLast?_append, List.getLast?_eq_some_getLast proper.characters_ne_nil]

theorem Proper.exists_first {piece : Piece} (proper : piece.Proper) {pieces : List Piece}
    (isFirst : piece ∈ pieces.head?) :
    ∃ first ∈ (pieces.flatMap characters).head?, first ∈ piece.characters := by
  obtain ⟨rest, rfl⟩ := List.head?_eq_some_iff.mp isFirst
  refine ⟨piece.characters.head proper.characters_ne_nil, ?_, List.head_mem _⟩
  simp [List.head?_append, List.head?_eq_some_head proper.characters_ne_nil]

theorem outside_last {pieces : List Piece} (proper : ∀ piece ∈ pieces, piece.Proper)
    (notWord : ∀ piece ∈ pieces.getLast?, ¬piece.IsWord) :
    ∀ last ∈ (pieces.flatMap characters).getLast?, Name.isWordChar false last = false := by
  intro last lastMem
  cases isLast : pieces.getLast? with
  | none => simp [List.getLast?_eq_none_iff.mp isLast] at lastMem
  | some piece =>
      have properPiece := proper piece (List.mem_of_getLast? isLast)
      rcases properPiece.exists_last isLast with ⟨other, otherMem, inPiece⟩
      obtain rfl := Option.mem_unique otherMem lastMem
      apply Bool.eq_false_iff.mpr
      rw [Ne, properPiece.isWordChar_eq_true_iff inPiece]
      exact notWord piece isLast

theorem outside_first {pieces : List Piece} (proper : ∀ piece ∈ pieces, piece.Proper)
    (notWord : ∀ piece ∈ pieces.head?, ¬piece.IsWord) :
    ∀ first ∈ (pieces.flatMap characters).head?, Name.isWordChar false first = false := by
  intro first firstMem
  cases isFirst : pieces.head? with
  | none => simp [List.head?_eq_none_iff.mp isFirst] at firstMem
  | some piece =>
      have properPiece := proper piece (List.mem_of_head? isFirst)
      rcases properPiece.exists_first isFirst with ⟨other, otherMem, inPiece⟩
      obtain rfl := Option.mem_unique otherMem firstMem
      apply Bool.eq_false_iff.mpr
      rw [Ne, properPiece.isWordChar_eq_true_iff inPiece]
      exact notWord piece isFirst

/-- Cuts of two texts join at a word boundary: two words that touch there would have word characters
on both sides of it. -/
theorem IsCut.append {first second : List Char} {firstPieces secondPieces : List Piece}
    (boundary : WordBoundary first second) (firstCut : IsCut first firstPieces)
    (secondCut : IsCut second secondPieces) :
    IsCut (first ++ second) (firstPieces ++ secondPieces) where
  characters_eq := by
    rw [List.flatMap_append, firstCut.characters_eq, secondCut.characters_eq]
  proper := List.forall_mem_append.mpr ⟨firstCut.proper, secondCut.proper⟩
  maximal := by
    refine List.isChain_append.mpr ⟨firstCut.maximal, secondCut.maximal, ?_⟩
    rintro piece isLast next isFirst ⟨pieceIsWord, nextIsWord⟩
    have properPiece := firstCut.proper piece (List.mem_of_getLast? isLast)
    have properNext := secondCut.proper next (List.mem_of_head? isFirst)
    rcases properPiece.exists_last isLast with ⟨lastChar, lastMem, inPiece⟩
    rcases properNext.exists_first isFirst with ⟨firstChar, firstMem, inNext⟩
    rw [firstCut.characters_eq] at lastMem
    rw [secondCut.characters_eq] at firstMem
    have lastInside := (properPiece.isWordChar_eq_true_iff inPiece).mpr pieceIsWord
    have firstInside := (properNext.isWordChar_eq_true_iff inNext).mpr nextIsWord
    rcases boundary lastChar lastMem firstChar firstMem with outside | outside
    · simp [lastInside] at outside
    · simp [firstInside] at outside

/-- At a word boundary a text is cut like its two parts. -/
theorem cut_append {first second : List Char} (boundary : WordBoundary first second) :
    cut (first ++ second) = cut first ++ cut second :=
  ((isCut_cut first).append boundary (isCut_cut second)).eq_cut.symm

theorem IsCut.of_infix {text : List Char} {pieces part : List Piece} (isCut : IsCut text pieces)
    (isPart : part <:+: pieces) : IsCut (part.flatMap characters) part where
  characters_eq := rfl
  proper piece pieceMem := isCut.proper piece (isPart.subset pieceMem)
  maximal := isCut.maximal.infix isPart

theorem isCut_of_proper {piece : Piece} (proper : piece.Proper) :
    IsCut piece.characters [piece] where
  characters_eq := by simp
  proper := by simpa using proper
  maximal := List.isChain_singleton piece

theorem cut_characters {piece : Piece} (proper : piece.Proper) : cut piece.characters = [piece] :=
  (isCut_of_proper proper).eq_cut.symm

/-- A name without a sigil is a word. -/
theorem proper_of_isValid {name : String} (valid : Name.isValid name = true)
    (plain : Name.sigilLength name = 0) : (word name.toList).Proper := by
  rw [← Name.body_eq_toList plain]
  refine ⟨Name.body_ne_nil_of_isValid valid, ?_⟩
  intro c charMem
  rw [Name.isWordChar_false]
  exact Name.symbolChars_of_isValid valid c charMem

/-- Whether a word stands in a text as a whole: it is a run of word characters that no word
character precedes or follows. -/
def IsWholeWord (text characters : List Char) : Prop :=
  (word characters).Proper ∧ ∃ before after, text = before ++ characters ++ after ∧
    (∀ last ∈ before.getLast?, Name.isWordChar false last = false) ∧
    ∀ first ∈ after.head?, Name.isWordChar false first = false

theorem mem_cut_of_isWholeWord {text characters : List Char}
    (whole : IsWholeWord text characters) : word characters ∈ cut text := by
  rcases whole with ⟨proper, before, after, rfl, outsideBefore, outsideAfter⟩
  have boundaryBefore : WordBoundary before (characters ++ after) :=
    fun last lastMem _ _ => Or.inl (outsideBefore last lastMem)
  have boundaryAfter : WordBoundary characters after :=
    fun _ _ first firstMem => Or.inr (outsideAfter first firstMem)
  have cutWord : cut characters = [word characters] := cut_characters proper
  rw [List.append_assoc, cut_append boundaryBefore, cut_append boundaryAfter, cutWord]
  simp

theorem isWholeWord_of_mem_cut {text characters : List Char}
    (wordMem : word characters ∈ cut text) : IsWholeWord text characters := by
  have isCut := isCut_cut text
  rcases List.append_of_mem wordMem with ⟨front, back, cutEq⟩
  rw [cutEq] at isCut
  rcases List.forall_mem_append.mp isCut.proper with ⟨properFront, properRest⟩
  rcases List.forall_mem_cons.mp properRest with ⟨properWord, properBack⟩
  rcases List.isChain_append.mp isCut.maximal with ⟨_, chainRest, separatedFront⟩
  refine ⟨properWord, front.flatMap Piece.characters, back.flatMap Piece.characters, ?_, ?_, ?_⟩
  · simp [← isCut.characters_eq, Piece.characters]
  · apply outside_last properFront
    intro piece isLast isWord
    exact separatedFront piece isLast (word characters) rfl ⟨isWord, trivial⟩
  · apply outside_first properBack
    intro piece isFirst isWord
    exact (List.isChain_cons.mp chainRest).1 piece isFirst ⟨trivial, isWord⟩

/-- The words of a cut are the words that stand in the text as a whole. -/
theorem isWholeWord_iff_mem_cut {text characters : List Char} :
    IsWholeWord text characters ↔ word characters ∈ cut text :=
  ⟨mem_cut_of_isWholeWord, isWholeWord_of_mem_cut⟩

section Rewriting

variable {rewrite : Piece → List Char} {text : List Char} {pieces : List Piece}

/-- Behind a word a rewritten text does not go on with a word character. -/
theorem IsCut.outside_behind_word (copies : ∀ c, rewrite (other c) = [c]) {characters : List Char}
    (isCut : IsCut text (word characters :: pieces)) :
    ∀ first ∈ (pieces.flatMap rewrite).head?, Name.isWordChar false first = false := by
  intro first firstMem
  cases pieces with
  | nil => cases firstMem
  | cons next pieces =>
      cases next with
      | word _ => exact absurd ⟨trivial, trivial⟩ (List.isChain_cons_cons.mp isCut.maximal).1
      | other c =>
          simp only [List.flatMap_cons, copies, List.singleton_append, List.head?_cons,
            Option.mem_some_iff] at firstMem
          subst firstMem
          exact isCut.proper (other c) (by simp)

theorem IsCut.wordBoundary_rewrite (copies : ∀ c, rewrite (other c) = [c]) {piece : Piece}
    (isCut : IsCut text (piece :: pieces)) :
    WordBoundary (rewrite piece) (pieces.flatMap rewrite) := by
  intro last lastMem first firstMem
  cases piece with
  | word characters =>
      right
      exact isCut.outside_behind_word copies first firstMem
  | other c =>
      left
      simp only [copies, List.getLast?_singleton, Option.mem_some_iff] at lastMem
      subst lastMem
      exact isCut.proper (other c) List.mem_cons_self

/-- The number of characters outside words. -/
def outsideCount (text : List Char) : Nat := text.countP (!Name.isWordChar false ·)

@[simp]
theorem outsideCount_append (first second : List Char) :
    outsideCount (first ++ second) = outsideCount first + outsideCount second :=
  List.countP_append

theorem outsideCount_eq_zero_iff :
    outsideCount text = 0 ↔ ∀ c ∈ text, Name.isWordChar false c = true := by
  simp [outsideCount]

theorem Proper.outsideCount_le (copies : ∀ c, rewrite (other c) = [c]) {piece : Piece}
    (proper : piece.Proper) : outsideCount piece.characters ≤ outsideCount (rewrite piece) := by
  cases piece with
  | word characters =>
      have noneOutside : outsideCount (word characters).characters = 0 :=
        outsideCount_eq_zero_iff.mpr proper.2
      omega
  | other c => rw [copies, characters]

/-- Rewriting words never loses a character outside words. -/
theorem outsideCount_rewrite (copies : ∀ c, rewrite (other c) = [c])
    (proper : ∀ piece ∈ pieces, piece.Proper) :
    outsideCount (pieces.flatMap characters) ≤ outsideCount (pieces.flatMap rewrite) := by
  induction pieces with
  | nil => exact Nat.le_refl _
  | cons piece pieces ih =>
      rcases List.forall_mem_cons.mp proper with ⟨properPiece, properRest⟩
      have atPiece := properPiece.outsideCount_le copies
      have atRest := ih properRest
      simp only [List.flatMap_cons, outsideCount_append]
      omega

theorem takeWhile_append_of_outside {wordCharacters rest : List Char}
    (inside : ∀ c ∈ wordCharacters, Name.isWordChar false c = true)
    (outside : ∀ first ∈ rest.head?, Name.isWordChar false first = false) :
    (wordCharacters ++ rest).takeWhile (Name.isWordChar false) = wordCharacters := by
  rw [List.takeWhile_append_of_pos inside]
  cases rest with
  | nil => simp
  | cons first rest => simp [outside first rfl]

/-- A text in which words are rewritten stays the same only if every word does. What is behind a
word loses no character outside words, so that none can stand in the rewritten word. -/
theorem IsCut.rewrite_eq_characters (copies : ∀ c, rewrite (other c) = [c])
    (isCut : IsCut text pieces) (same : pieces.flatMap rewrite = text) :
    ∀ piece ∈ pieces, rewrite piece = piece.characters := by
  induction pieces generalizing text with
  | nil => simp
  | cons piece pieces ih =>
      have restCut := isCut.of_infix (List.suffix_cons piece pieces).isInfix
      have sameParts : rewrite piece ++ pieces.flatMap rewrite =
          piece.characters ++ pieces.flatMap characters := by
        simpa only [List.flatMap_cons] using same.trans isCut.characters_eq.symm
      have samePiece : rewrite piece = piece.characters := by
        cases piece with
        | other c => exact copies c
        | word wordCharacters =>
            have inside := (isCut.proper _ List.mem_cons_self).2
            have insideRewritten : ∀ c ∈ rewrite (word wordCharacters),
                Name.isWordChar false c = true := by
              have sameCount := congrArg outsideCount sameParts
              have restCount := outsideCount_rewrite copies restCut.proper
              have noneInWord : outsideCount wordCharacters = 0 :=
                outsideCount_eq_zero_iff.mpr inside
              simp only [outsideCount_append, characters, noneInWord] at sameCount
              apply outsideCount_eq_zero_iff.mp
              omega
            have outsideBehind : ∀ first ∈ (pieces.flatMap characters).head?,
                Name.isWordChar false first = false :=
              isCut.outside_behind_word fun _ => rfl
            calc rewrite (word wordCharacters)
                = (rewrite (word wordCharacters) ++ pieces.flatMap rewrite).takeWhile
                    (Name.isWordChar false) :=
                  (takeWhile_append_of_outside insideRewritten
                    (isCut.outside_behind_word copies)).symm
              _ = (wordCharacters ++ pieces.flatMap characters).takeWhile
                    (Name.isWordChar false) := by rw [sameParts, characters]
              _ = wordCharacters := takeWhile_append_of_outside inside outsideBehind
      rw [samePiece, List.append_cancel_left_eq] at sameParts
      exact List.forall_mem_cons.mpr ⟨samePiece, ih restCut sameParts⟩

end Rewriting

end Symtab.Piece
