import Symtab.Proofs.Toml.Text.SingleLine

/-!
# Strings on several lines

In a multi-line form the last quotes of the content touch the closing delimiter, so that only the
whole run of quotes tells where the content ends. Reading stops at the first quote of that run,
since there are three quotes or more in a row, and nowhere before, since written content never has
three quotes in a row.
-/

namespace Symtab.Toml.Text

open Form

theorem quoteRun_cons_self (quote : Char) (text : List Char) :
    quoteRun quote (quote :: text) = quoteRun quote text + 1 := by
  simp [quoteRun]

theorem quoteRun_cons_of_ne {quote c : Char} (differs : c ≠ quote) (text : List Char) :
    quoteRun quote (c :: text) = 0 := by
  simp [quoteRun, differs]

theorem quoteRun_eq_zero {quote : Char} {text : List Char} (ends : ∀ c ∈ text.head?, c ≠ quote) :
    quoteRun quote text = 0 := by
  cases text with
  | nil => rfl
  | cons c text => exact quoteRun_cons_of_ne (ends c rfl) text

theorem quoteRun_replicate_append (quote : Char) (count : Nat) (text : List Char) :
    quoteRun quote (List.replicate count quote ++ text) = count + quoteRun quote text := by
  induction count with
  | zero => simp
  | succ count ih =>
      rw [List.replicate_succ, List.cons_append, quoteRun_cons_self, ih]
      omega

/-- Up to two quotes in front of a closing delimiter belong to the content. -/
theorem closingQuotes_eq {quote : Char} {inner : Nat} (few : inner ≤ 2) {rest : List Char}
    (ends : ∀ c ∈ rest.head?, c ≠ quote) :
    closingQuotes quote (List.replicate inner quote ++ ([quote, quote, quote] ++ rest)) =
      some (List.replicate inner quote, rest) := by
  have together : List.replicate inner quote ++ ([quote, quote, quote] ++ rest) =
      List.replicate (inner + 3) quote ++ rest := by
    rw [← List.replicate_append_replicate, List.append_assoc]
    rfl
  have wholeRun : quoteRun quote (List.replicate (inner + 3) quote ++ rest) = inner + 3 := by
    rw [quoteRun_replicate_append, quoteRun_eq_zero ends, Nat.add_zero]
  have allInner : min (inner + 3 - 3) 2 = inner := by omega
  have closes : 3 ≤ inner + 3 := by omega
  simp only [together, closingQuotes, wholeRun, allInner, if_pos closes,
    List.drop_left' List.length_replicate]

/-- How content is written in a multi-line form behind a number of quotes in a row: never more than
two quotes in a row stand for themselves, and every other character is read back from what is
written for it, which does not start with a quote. -/
inductive Body (quote : Char) (item : Reader (List Char)) : Nat → List Char → List Char → Prop where
  | empty {quotes : Nat} : Body quote item quotes [] []
  | quote {quotes : Nat} {content written : List Char} (few : quotes < 2)
      (later : Body quote item (quotes + 1) content written) :
      Body quote item quotes (quote :: content) (quote :: written)
  | other {quotes : Nat} {c first : Char} {others content written : List Char}
      (noQuote : first ≠ quote)
      (reads : ∀ rest, item (first :: others ++ rest) = some ([c], rest))
      (later : Body quote item 0 content written) :
      Body quote item quotes (c :: content) (first :: others ++ written)

/-- Whether an item of a multi-line form takes a quote exactly when it does not close the form. -/
def TakesInnerQuotes (quote : Char) (item : Reader (List Char)) : Prop :=
  ∀ rest, item (quote :: rest) =
    if quoteRun quote (quote :: rest) < 3 then some ([quote], rest) else none

/-- Items read the content back up to its last quotes, which stand before the closing delimiter. As
long as an item is read, a run of quotes goes on for at most two quotes. A quote with no item behind
it stands in the run that closes the form, and any other in a run that ends before the next item. -/
theorem Body.exists_run {quote : Char} {item : Reader (List Char)} {quotes : Nat}
    {content written closing : List Char} (body : Body quote item quotes content written)
    (takesQuotes : TakesInnerQuotes quote item) (quotesLe : quotes ≤ 2)
    (closes : 3 ≤ quoteRun quote closing) (startsQuote : closing.head? = some quote) :
    ∃ items inner, Reader.Run item (written ++ closing) items
        (List.replicate inner quote ++ closing) ∧
      items.flatten ++ List.replicate inner quote = content ∧ inner ≤ 2 ∧
      (items = [] → quotes + inner ≤ 2) ∧
      (items ≠ [] → quotes + quoteRun quote (written ++ closing) ≤ 2) := by
  induction body with
  | empty =>
      rcases List.head?_eq_some_iff.mp startsQuote with ⟨rest, rfl⟩
      refine ⟨[], 0, .stop ?_, rfl, by omega, fun _ => quotesLe, fun some => absurd rfl some⟩
      rw [List.nil_append, takesQuotes, if_neg (by omega)]
  | @quote quotes content written few later ih =>
      rcases ih (by omega) with ⟨items, inner, run, contentEq, innerLe, noItems, someItems⟩
      cases items with
      | nil =>
          have innerFits := noItems rfl
          have sameText := run.eq_of_nil
          refine ⟨[], inner + 1, ?_, ?_, by omega, fun _ => by omega, fun some => absurd rfl some⟩
          · rw [List.cons_append, sameText, List.replicate_succ, List.cons_append]
            apply Reader.Run.stop
            rw [takesQuotes, if_neg]
            rw [quoteRun_cons_self, quoteRun_replicate_append]
            omega
          · rw [List.replicate_succ, ← contentEq]
            simp
      | cons first items =>
          have runFits := someItems (List.cons_ne_nil _ _)
          refine ⟨[quote] :: first :: items, inner, ?_, ?_, innerLe, ?_, ?_⟩
          · refine .next ?_ ?_ run
            · rw [List.cons_append, takesQuotes, if_pos]
              rw [quoteRun_cons_self]
              omega
            · simp
          · rw [List.flatten_cons, List.append_assoc, contentEq, List.singleton_append]
          · simp
          · intro _
            rw [List.cons_append, quoteRun_cons_self]
            omega
  | @other quotes c first others content written noQuote reads later ih =>
      rcases ih (by omega) with ⟨items, inner, run, contentEq, innerLe, noItems, someItems⟩
      refine ⟨[c] :: items, inner, ?_, ?_, innerLe, ?_, ?_⟩
      · rw [List.append_assoc]
        refine .next (reads _) ?_ run
        simp only [List.cons_append, List.length_cons, List.length_append]
        omega
      · rw [List.flatten_cons, List.append_assoc, contentEq, List.singleton_append]
      · simp
      · intro _
        rw [List.append_assoc, List.cons_append, quoteRun_cons_of_ne noQuote]
        exact quotesLe

/-- A multi-line form gives its content back. The break behind the opening delimiter is dropped, and
the content starts with no other break unless that one was written. -/
theorem multiline_eq {quote : Char} {item : Reader (List Char)} {content written rest : List Char}
    (body : Body quote item 0 content written) (takesQuotes : TakesInnerQuotes quote item)
    (noBreak : '\n' ∉ content → lineBreak (written ++ ([quote, quote, quote] ++ rest)) = none)
    (ends : ∀ c ∈ rest.head?, c ≠ quote) :
    multiline quote item ([quote, quote, quote] ++ (openingBreak content ++
        (written ++ ([quote, quote, quote] ++ rest)))) = some (String.ofList content, rest) := by
  have closes : 3 ≤ quoteRun quote ([quote, quote, quote] ++ rest) := by
    have run := quoteRun_replicate_append quote 3 rest
    simp only [List.replicate] at run
    omega
  rcases body.exists_run takesQuotes (by omega) closes rfl with
    ⟨items, inner, run, contentEq, few, _, _⟩
  by_cases hasBreak : '\n' ∈ content
  · have opening : openingBreak content = ['\n'] := by simp [openingBreak, hasBreak]
    simp only [multiline, Reader.exactly_append, Option.bind_eq_bind, Option.bind_some, opening,
      List.singleton_append, lineBreak, run.all_eq, closingQuotes_eq few ends, contentEq]
  · have opening : openingBreak content = [] := by simp [openingBreak, hasBreak]
    simp only [multiline, Reader.exactly_append, Option.bind_eq_bind, Option.bind_some, opening,
      List.nil_append, noBreak hasBreak, run.all_eq, closingQuotes_eq few ends, contentEq]

theorem multilineItem_quote {quote : Char} {plain : Reader Char} {rest : List Char}
    (noBreak : lineBreak (quote :: rest) = none) (notPlain : plain (quote :: rest) = none) :
    multilineItem quote plain (quote :: rest) =
      if quoteRun quote (quote :: rest) < 3 then some ([quote], rest) else none := by
  by_cases few : quoteRun quote (quote :: rest) < 3
  · simp [multilineItem, Reader.orElse, Reader.map, noBreak, notPlain, innerQuote, few,
      Reader.satisfying, List.singleton]
  · simp [multilineItem, Reader.orElse, Reader.map, noBreak, notPlain, innerQuote, few]

theorem multilineItem_break (quote : Char) {plain : Reader Char} {rest : List Char}
    (notPlain : plain ('\n' :: rest) = none) :
    multilineItem quote plain ('\n' :: rest) = some (['\n'], rest) := by
  simp [multilineItem, Reader.orElse, Reader.map, notPlain, lineBreak]

theorem multilineItem_plain (quote : Char) {plain : Reader Char} {text rest : List Char} {c : Char}
    (takes : plain text = some (c, rest)) :
    multilineItem quote plain text = some ([c], rest) := by
  simp [multilineItem, Reader.orElse, Reader.map, takes, List.singleton]

theorem basicItem_eq {text rest : List Char} {c : Char}
    (takes : multilineItem '"' basicChar text = some ([c], rest)) :
    basicItem text = some ([c], rest) := by
  simp only [basicItem, Reader.orElse, takes]

theorem basicItem_takesInnerQuotes : TakesInnerQuotes '"' basicItem := by
  intro rest
  have takes := @multilineItem_quote '"' basicChar rest rfl rfl
  by_cases few : quoteRun '"' ('"' :: rest) < 3
  · rw [if_pos few] at takes ⊢
    exact basicItem_eq takes
  · rw [if_neg few] at takes ⊢
    simp only [basicItem, Reader.orElse, takes]
    rfl

theorem literalItem_takesInnerQuotes : TakesInnerQuotes '\'' literalItem := by
  intro rest
  exact multilineItem_quote rfl rfl

theorem body_writeMultilineBasic (quotes : Nat) (content : List Char) :
    Body '"' basicItem quotes content (writeMultilineBasic quotes content) := by
  fun_induction writeMultilineBasic quotes content with
  | case1 quotes => exact .empty
  | case2 quotes rest few ih => exact .quote few ih
  | case3 quotes rest notFew ih =>
      refine @Body.other '"' basicItem quotes '"' '\\' ['"'] rest _ (by decide) ?_ ih
      intro after
      exact basicItem_eq (multilineItem_plain '"' rfl)
  | case4 quotes rest ih =>
      refine @Body.other '"' basicItem quotes '\n' '\n' [] rest _ (by decide) ?_ ih
      intro after
      exact basicItem_eq (multilineItem_break '"' rfl)
  | case5 quotes c rest noQuote noBreak ih =>
      rcases exists_writeChar_eq_cons c with ⟨first, others, written, starts⟩
      rw [written]
      refine .other ?_ ?_ ih
      · rcases starts with rfl | ⟨rfl, _⟩
        · decide
        · exact noQuote
      · intro after
        apply basicItem_eq
        apply multilineItem_plain
        rw [← written]
        exact basicChar_writeChar noQuote noBreak after

theorem le_longestRunFrom (quote : Char) (current : Nat) (text : List Char) :
    current ≤ longestRunFrom quote current text := by
  fun_induction longestRunFrom quote current text with
  | case1 current => exact Nat.le_refl current
  | case2 current rest ih => omega
  | case3 current first rest differs ih => exact Nat.le_max_left _ _

theorem not_mem_of_longestRun_eq_zero {quote : Char} {text : List Char}
    (noRun : longestRun quote text = 0) : quote ∉ text := by
  induction text with
  | nil => exact List.not_mem_nil
  | cons first rest ih =>
      rw [longestRun, longestRunFrom] at noRun
      split at noRun
      · have atLeastOne := le_longestRunFrom quote (0 + 1) rest
        omega
      next differs =>
        have noLaterRun : longestRun quote rest = 0 := by
          rw [longestRun]
          omega
        simp only [List.mem_cons, not_or]
        exact ⟨Ne.symm differs, ih noLaterRun⟩

/-- Content without control characters and with at most two quotes in a row stands for itself in the
multi-line literal form. -/
theorem body_of_longestRunFrom_le {quotes : Nat} {content : List Char}
    (noControl : ∀ c ∈ content, isRawControl c = false)
    (few : longestRunFrom '\'' quotes content ≤ 2) :
    Body '\'' literalItem quotes content content := by
  induction content generalizing quotes with
  | nil => exact .empty
  | cons c content ih =>
      rcases List.forall_mem_cons.mp noControl with ⟨notControl, laterNoControl⟩
      rw [longestRunFrom] at few
      split at few
      next isQuote =>
        subst isQuote
        have atLeast := le_longestRunFrom '\'' (quotes + 1) content
        exact .quote (by omega) (ih laterNoControl few)
      next noQuote =>
        refine @Body.other '\'' literalItem quotes c c [] content content noQuote ?_
          (ih laterNoControl (by omega))
        intro rest
        by_cases isBreak : c = '\n'
        · subst isBreak
          exact multilineItem_break '\'' rfl
        · apply multilineItem_plain
          exact literalChar_plain
            (isPlainLiteral_of_not_isRawControl notControl isBreak noQuote) rest

theorem lineBreak_cons {c : Char} (noFeed : c ≠ '\n') (noReturn : c ≠ '\r') (rest : List Char) :
    lineBreak (c :: rest) = none := by
  rw [lineBreak.eq_def]
  split <;> simp_all

theorem lineBreak_writeMultilineBasic {content : List Char} (noBreak : '\n' ∉ content)
    (rest : List Char) : lineBreak (writeMultilineBasic 0 content ++ '"' :: rest) = none := by
  rw [writeMultilineBasic.eq_def]
  split
  · rfl
  · rfl
  · simp at noBreak
  next c later _ notFeed =>
    rcases exists_writeChar_eq_cons c with ⟨first, others, written, rfl | ⟨rfl, notReturn⟩⟩
    · rw [written]
      rfl
    · rw [written]
      exact lineBreak_cons notFeed notReturn _

theorem multilineBasic_write (content : List Char) {rest : List Char}
    (ends : ∀ c ∈ rest.head?, c ≠ '"') :
    Text.multilineBasic (write .multilineBasic content ++ rest) =
      some (String.ofList content, rest) := by
  have reads := multiline_eq (body_writeMultilineBasic 0 content) basicItem_takesInnerQuotes
    (fun noBreak => lineBreak_writeMultilineBasic noBreak _) ends
  simp only [write, List.append_assoc]
  exact reads

theorem multilineLiteral_write {content : List Char}
    (noControl : ∀ c ∈ content, isRawControl c = false) (few : longestRun '\'' content ≤ 2)
    {rest : List Char} (ends : ∀ c ∈ rest.head?, c ≠ '\'') :
    Text.multilineLiteral (write .multilineLiteral content ++ rest) =
      some (String.ofList content, rest) := by
  have noBreak : '\n' ∉ content →
      lineBreak (content ++ (['\'', '\'', '\''] ++ rest)) = none := by
    intro noFeed
    cases content with
    | nil => rfl
    | cons c content =>
        have notControl := noControl c List.mem_cons_self
        apply lineBreak_cons
        · rintro rfl
          exact noFeed List.mem_cons_self
        · rintro rfl
          simp [isRawControl] at notControl
  have reads := multiline_eq (body_of_longestRunFrom_le noControl few)
    literalItem_takesInnerQuotes noBreak ends
  simp only [write, List.append_assoc]
  exact reads

end Symtab.Toml.Text
