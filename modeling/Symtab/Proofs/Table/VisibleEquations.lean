import Mathlib.Data.List.Perm.Basic
import Mathlib.Data.Set.Insert
import Symtab.Proofs.Table.Substitution

/-!
# What substitution depends on

Only equations without a sigil that a line sees can replace its words, and of these only their names
and replacements matter. No two of them have the same name, so the order of their declaration does
not matter either.

A run that declares equations under different keys, in any order and with operations in between that
concern other keys, therefore always leads to the same substitution. One step adds at most the text
of the equation that it declares, and by induction a run adds the texts of all its calls.
-/

namespace Symtab

/-- Whether an equation can replace words of lines in a context: it has no sigil and is visible. -/
def Equation.AppliesIn (equation : Equation) (context : Context) : Prop :=
  Name.sigilLength equation.name = 0 ∧ equation.isVisibleFrom context = true

instance (equation : Equation) (context : Context) : Decidable (equation.AppliesIn context) :=
  inferInstanceAs (Decidable (_ ∧ _))

/-- The names and replacements of equations that apply in a context. -/
def Equation.textsIn (equations : List Equation) (context : Context) : Set (String × String) :=
  {text | ∃ equation ∈ equations,
    equation.AppliesIn context ∧ text = (equation.name, equation.replacement)}

theorem Equation.textsIn_append (first second : List Equation) (context : Context) :
    textsIn (first ++ second) context = textsIn first context ∪ textsIn second context := by
  ext text
  simp only [textsIn, Set.mem_ofPred_eq, Set.mem_union, List.mem_append, or_and_right, exists_or]

theorem Equation.textsIn_singleton_of_not_appliesIn {equation : Equation} {context : Context}
    (hidden : ¬equation.AppliesIn context) : textsIn [equation] context = ∅ := by
  ext text
  simp [textsIn, hidden]

theorem Equation.textsIn_perm {first second : List Equation} (reordered : first.Perm second)
    (context : Context) : textsIn first context = textsIn second context := by
  ext text
  simp only [textsIn, Set.mem_ofPred_eq, reordered.mem_iff]

namespace Table

/-- The names and replacements of the equations of a table that apply in a context. -/
def visibleTexts (table : Table) (context : Context) : Set (String × String) :=
  Equation.textsIn table.equations.toList context

/-- The search for the equation of a word finds the replacement that the visible texts tell, since
there is only one equation of that name. -/
theorem WellFormed.replacement_eq_some_iff {table : Table} (wellFormed : table.WellFormed)
    {context : Context} {word : List Char} (proper : (Piece.word word).Proper)
    {replacement : String} :
    (table.visibleEquation? (String.ofList word) context).map Equation.replacement =
        some replacement ↔
      (String.ofList word, replacement) ∈ table.visibleTexts context := by
  constructor
  · intro isReplacement
    rcases Option.map_eq_some_iff.mp isReplacement with ⟨equation, search, rfl⟩
    rcases suits_of_visibleEquation? search with ⟨equationMem, visible, named⟩
    refine ⟨equation, equationMem, ⟨?_, visible⟩, by rw [named]⟩
    rw [named, sigilLength_of_proper proper]
  · rintro ⟨equation, equationMem, ⟨_, visible⟩, sameText⟩
    rw [Prod.mk.injEq] at sameText
    rcases sameText with ⟨named, rfl⟩
    have found : ((table.visibleEquation? (String.ofList word) context)).isSome = true := by
      rw [visibleEquation?, List.find?_isSome]
      exact ⟨equation, equationMem, by simp [visible, named]⟩
    rcases Option.isSome_iff_exists.mp found with ⟨other, search⟩
    rcases suits_of_visibleEquation? search with ⟨otherMem, _, otherNamed⟩
    rcases Arena.mem_toList_iff.mp equationMem with ⟨id, atId⟩
    rcases Arena.mem_toList_iff.mp otherMem with ⟨otherId, atOtherId⟩
    have unique := (wellFormed.equation_of_word proper atId named.symm).2.2
    have sameId := unique otherId other atOtherId otherNamed
    rw [sameId, atId, Option.some.injEq] at atOtherId
    rw [search, Option.map_some, atOtherId]

theorem substitutePiece_word (table : Table) (context : Context) (word : List Char) :
    table.substitutePiece context (.word word) =
      match (table.visibleEquation? (String.ofList word) context).map Equation.replacement with
      | some replacement => replacement.toList
      | none => word := by
  rw [substitutePiece, replacing?]
  cases table.visibleEquation? (String.ofList word) context <;> rfl

/-- Tables in which the searches for all words end at the same replacements substitute the same. -/
theorem substitute_congr {first second : Table} {context : Context}
    (sameReplacement : ∀ word, (Piece.word word).Proper →
      (first.visibleEquation? (String.ofList word) context).map Equation.replacement =
        (second.visibleEquation? (String.ofList word) context).map Equation.replacement)
    (line : String) : first.substitute line context = second.substitute line context := by
  rw [substitute_eq_flatMap, substitute_eq_flatMap]
  congr 1
  apply List.flatMap_congr
  intro piece pieceMem
  have proper := (Piece.isCut_cut line.toList).proper piece pieceMem
  cases piece with
  | other c => rfl
  | word characters => rw [substitutePiece_word, substitutePiece_word, sameReplacement _ proper]

theorem WellFormed.substitute_eq_of_visibleTexts_eq {first second : Table}
    (firstFormed : first.WellFormed) (secondFormed : second.WellFormed) {context : Context}
    (sameTexts : first.visibleTexts context = second.visibleTexts context) (line : String) :
    first.substitute line context = second.substitute line context := by
  refine substitute_congr ?_ line
  intro word proper
  ext replacement
  simp only [firstFormed.replacement_eq_some_iff proper,
    secondFormed.replacement_eq_some_iff proper, sameTexts]

/-- The call that declares an equation as it was declared. -/
def callFor (equation : Equation) : Operation :=
  .declareEquation equation.name equation.declared equation.replacement

/-- Whether a key is the one to which the name of an equation resolves. -/
def HasKey (equation : Equation) (key : Key) : Prop :=
  Key.resolve equation.name equation.declared = .ok key

/-- Whether an operation stays out of the way of the calls for some equations: it declares nothing,
or it leaves the table as it is, as refused calls and calls for known labels do, or it declares a
label or an equation that does not apply in the context under a key that belongs to none of the
equations. -/
inductive Harmless (table : Table) (context : Context) (equations : List Equation) :
    Operation → Prop where
  | asksNothing {operation : Operation} (asks : operation.declaration? = none)
      (noClear : operation.isClear = false) : Harmless table context equations operation
  | unchanged {operation : Operation} (same : (table.perform operation).table = table) :
      Harmless table context equations operation
  | otherKey {operation : Operation} {declaration : Declaration}
      (asks : operation.declaration? = some declaration)
      (other : ∀ equation ∈ equations, ¬HasKey equation declaration.key)
      (hidden : ∀ equation, declaration.symbol = .equation equation →
        ¬equation.AppliesIn context) : Harmless table context equations operation

/-- A run that makes the calls for some equations in order, with operations in between that stay out
of the way of the calls for all of `equations`. -/
inductive Interleaves (context : Context) (equations : List Equation) :
    Table → List Equation → List Operation → Prop where
  | done {table : Table} : Interleaves context equations table [] []
  | call {table : Table} {equation : Equation} {remaining : List Equation}
      {operations : List Operation} (room : table.equations.size < UInt32.size)
      (later : Interleaves context equations (table.perform (callFor equation)).table remaining
        operations) :
      Interleaves context equations table (equation :: remaining) (callFor equation :: operations)
  | between {table : Table} {remaining : List Equation} {operation : Operation}
      {operations : List Operation} (harmless : table.Harmless context equations operation)
      (later : Interleaves context equations (table.perform operation).table remaining
        operations) :
      Interleaves context equations table remaining (operation :: operations)

/-- Whether no symbol has a key of the equations. -/
def KeysFree (table : Table) (equations : List Equation) : Prop :=
  ∀ equation ∈ equations, ∀ key, HasKey equation key → table.index[key]? = none

/-- Whether equations have valid names and different keys. -/
structure Separate (equations : List Equation) : Prop where
  valid : ∀ equation ∈ equations, Name.isValid equation.name = true
  different : equations.Pairwise fun first second => ∀ key, HasKey first key → ¬HasKey second key

theorem Separate.exists_hasKey {equations : List Equation} (separate : Separate equations)
    {equation : Equation} (equationMem : equation ∈ equations) : ∃ key, HasKey equation key := by
  cases resolves : Key.resolve equation.name equation.declared with
  | ok key => exact ⟨key, resolves⟩
  | error refusal =>
      have invalid := (Key.resolve_eq_error_iff.mp resolves).1
      rw [separate.valid equation equationMem] at invalid
      cases invalid

theorem Separate.perm {first second : List Equation} (separate : Separate first)
    (reordered : first.Perm second) : Separate second := by
  refine ⟨?_, ?_⟩
  · intro equation equationMem
    exact separate.valid equation (reordered.mem_iff.mpr equationMem)
  · refine (reordered.pairwise_iff ?_).mp separate.different
    intro first second different key secondKey firstKey
    exact different key firstKey secondKey

/-- A call whose key is taken leaves the table as it is. -/
theorem perform_of_taken {table : Table} {operation : Operation} {declaration : Declaration}
    (asks : operation.declaration? = some declaration)
    (inUse : table.index[declaration.key]? ≠ none) : (table.perform operation).table = table := by
  have step := step_perform table operation
  have notFree : ∀ other, operation.declaration? = some other →
      table.index[other.key]? ≠ none := by
    intro other asksFor
    rw [asks, Option.some.injEq] at asksFor
    exact asksFor ▸ inUse
  generalize (table.perform operation).table = after at step ⊢
  cases step with
  | cleared => cases asks
  | kept asksNothing =>
      rw [asks] at asksNothing
      cases asksNothing
  | taken => rfl
  | exhausted => rfl
  | label asksFor free => exact absurd free (notFree _ asksFor)
  | equation asksFor free => exact absurd free (notFree _ asksFor)

/-- A harmless operation changes no visible text and takes no key of the equations. If it changes
the table, then it asks for no declaration or for one that is set apart from the equations. -/
theorem Harmless.keeps {table : Table} {context : Context} {equations : List Equation}
    {operation : Operation} (harmless : table.Harmless context equations operation) :
    (table.perform operation).table.visibleTexts context = table.visibleTexts context ∧
      ∀ remaining, remaining ⊆ equations → table.KeysFree remaining →
        (table.perform operation).table.KeysFree remaining := by
  by_cases changed : (table.perform operation).table = table
  · rw [changed]
    exact ⟨rfl, fun _ _ free => free⟩
  have declares : ∀ declaration, operation.declaration? = some declaration →
      (∀ equation ∈ equations, ¬HasKey equation declaration.key) ∧
        ∀ equation, declaration.symbol = .equation equation → ¬equation.AppliesIn context := by
    intro declaration asksFor
    cases harmless with
    | asksNothing asks =>
        rw [asks] at asksFor
        cases asksFor
    | unchanged same => exact absurd same changed
    | otherKey asks other hidden =>
        rw [asks, Option.some.injEq] at asksFor
        exact asksFor ▸ ⟨other, hidden⟩
  have keysStayFree : ∀ {key : Key} {entry : Entry},
      (∀ equation ∈ equations, ¬HasKey equation key) → ∀ remaining, remaining ⊆ equations →
        table.KeysFree remaining → ∀ equation ∈ remaining, ∀ other, HasKey equation other →
          (table.index.insert key entry)[other]? = none := by
    intro key entry otherKeys remaining inEquations free equation equationMem other hasKey
    rw [getElem?_insert_index, if_neg]
    · exact free equation equationMem other hasKey
    · rintro rfl
      exact otherKeys equation (inEquations equationMem) hasKey
  have step := step_perform table operation
  generalize afterEq : (table.perform operation).table = after at step changed ⊢
  cases step with
  | cleared =>
      cases harmless with
      | asksNothing _ noClear => cases noClear
      | unchanged same => exact absurd (afterEq.symm.trans same) changed
      | otherKey asks => cases asks
  | kept _ _ same =>
      refine ⟨by rw [visibleTexts, visibleTexts, same.equations_eq], ?_⟩
      intro remaining _ free equation equationMem key hasKey
      rw [same.index_eq]
      exact free equation equationMem key hasKey
  | taken => exact ⟨rfl, fun _ _ free => free⟩
  | exhausted => exact ⟨rfl, fun _ _ free => free⟩
  | label asks free pushes => exact ⟨rfl, keysStayFree (declares _ asks).1⟩
  | @equation _ key declared declaredEquations id asks free pushes =>
      rcases declares _ asks with ⟨otherKeys, hidden⟩
      refine ⟨?_, keysStayFree otherKeys⟩
      rw [visibleTexts, (Arena.push_eq_ok_iff.mp pushes).2.1, Equation.textsIn_append,
        Equation.textsIn_singleton_of_not_appliesIn (hidden declared rfl), Set.union_empty,
        visibleTexts]

/-- The call for an equation with a free key adds its text, and takes no other key. -/
theorem perform_callFor {table : Table} {equation : Equation} {key : Key}
    (hasKey : HasKey equation key) (free : table.index[key]? = none)
    (room : table.equations.size < UInt32.size) :
    (∀ context, (table.perform (callFor equation)).table.visibleTexts context =
        table.visibleTexts context ∪ Equation.textsIn [equation] context) ∧
      ∀ other, other ≠ key →
        (table.perform (callFor equation)).table.index[other]? = table.index[other]? := by
  rcases Arena.exists_push_eq_ok room equation with ⟨equations, id, pushes⟩
  have outcome := declareEquation_of_push hasKey free pushes
  have performed : (table.perform (callFor equation)).table =
      { table with equations, index := table.index.insert key (.equation id) } :=
    congrArg Outcome.table outcome
  rw [performed]
  refine ⟨?_, ?_⟩
  · intro context
    rw [visibleTexts, (Arena.push_eq_ok_iff.mp pushes).2.1, Equation.textsIn_append, visibleTexts]
  · intro other differs
    rw [getElem?_insert_index, if_neg differs]

/-- A run adds the texts of the equations for which it makes calls. Throughout the run the keys of
the calls still to come are free. -/
theorem Interleaves.visibleTexts_after {context : Context} {equations : List Equation}
    {table : Table} {remaining : List Equation} {operations : List Operation}
    (run : Interleaves context equations table remaining operations)
    (separate : Separate remaining) (inEquations : remaining ⊆ equations)
    (free : table.KeysFree remaining) :
    (table.after operations).visibleTexts context =
      table.visibleTexts context ∪ Equation.textsIn remaining context := by
  induction run with
  | done =>
      ext text
      simp [after, Equation.textsIn]
  | @between table remaining operation operations harmless later ih =>
      rcases harmless.keeps with ⟨sameTexts, keysStayFree⟩
      rw [← sameTexts]
      exact ih separate inEquations (keysStayFree remaining inEquations free)
  | @call table equation remaining operations room later ih =>
      rcases separate.exists_hasKey List.mem_cons_self with ⟨key, hasKey⟩
      rcases List.pairwise_cons.mp separate.different with ⟨differs, different⟩
      have separateLater : Separate remaining :=
        ⟨fun other otherMem => separate.valid other (List.mem_cons_of_mem _ otherMem), different⟩
      have keyFree := free equation List.mem_cons_self key hasKey
      rcases perform_callFor hasKey keyFree room with ⟨textsAfter, sameIndex⟩
      have freeLater : (table.perform (callFor equation)).table.KeysFree remaining := by
        intro other otherMem otherKey otherHasKey
        rw [sameIndex]
        · exact free other (List.mem_cons_of_mem _ otherMem) otherKey otherHasKey
        · rintro rfl
          exact differs other otherMem otherKey hasKey otherHasKey
      have textsLater := ih separateLater (List.subset_of_cons_subset inEquations) freeLater
      change ((table.perform (callFor equation)).table.after operations).visibleTexts context = _
      rw [textsLater, textsAfter, Set.union_assoc, ← Equation.textsIn_append,
        List.singleton_append]

/-- Substitution depends on the names and replacements of the equations without a sigil that a line
sees, and on nothing else. So runs that make calls for the same equations with different keys, in
any order and with harmless operations in between, lead to the same substitution. -/
theorem substitute_determined_by_visibleTexts (context : Context) :
    (∀ first second : Table, first.Reachable → second.Reachable →
      first.visibleTexts context = second.visibleTexts context →
      ∀ line, first.substitute line context = second.substitute line context) ∧
    ∀ equations reordered : List Equation, Separate equations → equations.Perm reordered →
      ∀ first second : Table, first.Initial → second.Initial →
      ∀ operations otherOperations : List Operation,
        Interleaves context equations first equations operations →
        Interleaves context equations second reordered otherOperations →
        ∀ line, (first.after operations).substitute line context =
          (second.after otherOperations).substitute line context := by
  have determined : ∀ first second : Table, first.Reachable → second.Reachable →
      first.visibleTexts context = second.visibleTexts context →
      ∀ line, first.substitute line context = second.substitute line context := by
    intro first second firstReachable secondReachable sameTexts line
    exact firstReachable.wellFormed.substitute_eq_of_visibleTexts_eq secondReachable.wellFormed
      sameTexts line
  refine ⟨determined, ?_⟩
  intro equations reordered separate permuted first second firstInitial secondInitial operations
    otherOperations firstRun secondRun line
  have startsEmpty : ∀ start : Table, start.Initial →
      start.visibleTexts context = ∅ ∧ ∀ calls, start.KeysFree calls := by
    intro start initial
    obtain ⟨settings, rfl⟩ : ∃ settings, start = { settings } := by
      rcases initial with rfl | ⟨settings, made⟩
      · exact ⟨{}, rfl⟩
      · exact ⟨settings, (ofSettings_eq_ok_iff.mp made).2⟩
    refine ⟨?_, ?_⟩
    · ext text
      simp [visibleTexts, Equation.textsIn]
    · intro calls equation _ key _
      exact Std.TreeMap.getElem?_emptyc
  rcases startsEmpty first firstInitial with ⟨firstTexts, firstFree⟩
  rcases startsEmpty second secondInitial with ⟨secondTexts, secondFree⟩
  apply determined _ _ (firstInitial.reachable.after operations)
    (secondInitial.reachable.after otherOperations)
  rw [firstRun.visibleTexts_after separate (List.Subset.refl _) (firstFree equations),
    secondRun.visibleTexts_after (separate.perm permuted) permuted.symm.subset
      (secondFree reordered), firstTexts, secondTexts, Equation.textsIn_perm permuted]

/-- Two equations in either order, the second time among a label, an equation that is local to a
file, one that the line does not see, a generated name and two refused calls. -/
theorem substitute_determined_by_visibleTexts_reordered :
    let context : Context := ⟨1, 7⟩
    let size : Equation := ⟨"SIZE", "16", ⟨1, -1⟩⟩
    let count : Equation := ⟨"COUNT", "4", ⟨-1, -1⟩⟩
    let operations : List Operation := [callFor size, callFor count]
    let otherOperations : List Operation :=
      [.labelFor "loop" ⟨1, 1⟩, callFor count, .declareEquation "@SIZE" ⟨1, 1⟩ "local", .freshName,
        callFor size, .declareEquation "COUNT" ⟨1, 7⟩ "5", .labelFor "SIZE" ⟨1, 7⟩,
        .declareEquation "HIDDEN" ⟨2, -1⟩ "0"]
    Separate [size, count] ∧ Interleaves context [size, count] {} [size, count] operations ∧
      Interleaves context [size, count] {} [count, size] otherOperations ∧
      (∀ line, (({} : Table).after operations).substitute line context =
        (({} : Table).after otherOperations).substitute line context) ∧
      (({} : Table).after operations).visibleTexts context =
        (({} : Table).after otherOperations).visibleTexts context ∧
      (({} : Table).after otherOperations).substitute "SIZE*COUNT" context = "16*4" := by
  intro context size count operations otherOperations
  have sizeResolves : HasKey size (Key.global "SIZE") :=
    Key.resolve_eq_global (by decide +kernel) (by decide +kernel) _
  have countResolves : HasKey count (Key.global "COUNT") :=
    Key.resolve_eq_global (by decide +kernel) (by decide +kernel) _
  have otherKey : ∀ key, key ≠ Key.global "SIZE" → key ≠ Key.global "COUNT" →
      ∀ equation ∈ [size, count], ¬HasKey equation key := by
    intro key notSize notCount equation equationMem hasKey
    simp only [List.mem_cons, List.not_mem_nil, or_false] at equationMem
    rcases equationMem with rfl | rfl
    · exact notSize (Except.ok.inj (hasKey.symm.trans sizeResolves))
    · exact notCount (Except.ok.inj (hasKey.symm.trans countResolves))
  have separate : Separate [size, count] := by
    refine ⟨by decide +kernel, ?_⟩
    simp only [List.pairwise_cons, List.mem_singleton, forall_eq, List.not_mem_nil, false_imp_iff,
      implies_true, List.Pairwise.nil, and_true]
    intro key sizeKey countKey
    have isSize := Except.ok.inj (sizeKey.symm.trans sizeResolves)
    have isCount := Except.ok.inj (countKey.symm.trans countResolves)
    exact absurd (isSize.symm.trans isCount) (by decide +kernel)
  have run : Interleaves context [size, count] {} [size, count] operations :=
    .call (by decide +kernel) (.call (by decide +kernel) .done)
  have loopAsks : (Operation.labelFor "loop" ⟨1, 1⟩).declaration? =
      some ⟨Key.global "loop", .label "loop"⟩ :=
    Operation.declaration?_labelFor
      (Key.resolve_eq_global (by decide +kernel) (by decide +kernel) _)
  have localAsks : (Operation.declareEquation "@SIZE" ⟨1, 1⟩ "local").declaration? =
      some ⟨⟨1, -1, "@SIZE"⟩, .equation ⟨"@SIZE", "local", ⟨1, 1⟩⟩⟩ :=
    Operation.declaration?_declareEquation (Key.resolve_eq_ok_iff.mpr (by decide +kernel))
  have hiddenAsks : (Operation.declareEquation "HIDDEN" ⟨2, -1⟩ "0").declaration? =
      some ⟨Key.global "HIDDEN", .equation ⟨"HIDDEN", "0", ⟨2, -1⟩⟩⟩ :=
    Operation.declaration?_declareEquation
      (Key.resolve_eq_global (by decide +kernel) (by decide +kernel) _)
  have countAsks : (Operation.declareEquation "COUNT" ⟨1, 7⟩ "5").declaration? =
      some ⟨Key.global "COUNT", .equation ⟨"COUNT", "5", ⟨1, 7⟩⟩⟩ :=
    Operation.declaration?_declareEquation
      (Key.resolve_eq_global (by decide +kernel) (by decide +kernel) _)
  have sizeAsks : (Operation.labelFor "SIZE" ⟨1, 7⟩).declaration? =
      some ⟨Key.global "SIZE", .label "SIZE"⟩ :=
    Operation.declaration?_labelFor
      (Key.resolve_eq_global (by decide +kernel) (by decide +kernel) _)
  have otherRun : Interleaves context [size, count] {} [count, size] otherOperations := by
    refine .between (.otherKey loopAsks (otherKey _ (by decide +kernel) (by decide +kernel)) ?_) <|
      .call (by decide +kernel) <|
      .between (.otherKey localAsks (otherKey _ (by decide +kernel) (by decide +kernel)) ?_) <|
      .between (.asksNothing rfl rfl) <|
      .call (by decide +kernel) <|
      .between (.unchanged (perform_of_taken countAsks (by decide +kernel))) <|
      .between (.unchanged (perform_of_taken sizeAsks (by decide +kernel))) <|
      .between (.otherKey hiddenAsks (otherKey _ (by decide +kernel) (by decide +kernel)) ?_) .done
    · intro equation isEquation
      cases isEquation
    · rintro _ ⟨⟩
      decide +kernel
    · rintro _ ⟨⟩
      decide +kernel
  have sameTexts : (({} : Table).after operations).visibleTexts context =
      (({} : Table).after otherOperations).visibleTexts context := by
    have declared : (({} : Table).after operations).equations.toList = [size, count] := by
      decide +kernel
    have otherDeclared : (({} : Table).after otherOperations).equations.toList =
        [count] ++ [⟨"@SIZE", "local", ⟨1, 1⟩⟩] ++ [size] ++ [⟨"HIDDEN", "0", ⟨2, -1⟩⟩] := by
      decide +kernel
    have localHidden : Equation.textsIn [⟨"@SIZE", "local", ⟨1, 1⟩⟩] context = ∅ :=
      Equation.textsIn_singleton_of_not_appliesIn (by decide +kernel)
    have otherHidden : Equation.textsIn [⟨"HIDDEN", "0", ⟨2, -1⟩⟩] context = ∅ :=
      Equation.textsIn_singleton_of_not_appliesIn (by decide +kernel)
    rw [visibleTexts, visibleTexts, declared, otherDeclared, Equation.textsIn_append, otherHidden,
      Equation.textsIn_append, Equation.textsIn_append, localHidden, Set.union_empty,
      Set.union_empty, ← Equation.textsIn_append]
    exact Equation.textsIn_perm (.swap count size []) context
  have determined := substitute_determined_by_visibleTexts context
  refine ⟨separate, run, otherRun, ?_, sameTexts, ?_⟩
  · exact determined.2 _ _ separate (.swap count size []) {} {} (Or.inl rfl) (Or.inl rfl) operations
      otherOperations run otherRun
  · rw [← determined.1 _ _ (Reachable.new.after _) (Reachable.new.after _) sameTexts]
    decide +kernel

end Table

end Symtab
