import Symtab.Proofs.Table.FreshName

/-!
# The next free number

A name is generated turn by turn: each turn uses up one number, and the name of this number is the
answer unless it is declared. The turns come to an end after at most one more turn than there are
symbols. The answer has the least number from the counter on whose name no symbol has, and one
report is made for every number before it.
-/

namespace Symtab.Table

/-- One turn of generating a name, with the name of the number that it uses up if that is free. -/
def turn (table : Table) : Outcome (Option String) :=
  let name := table.settings.generatedName table.counter
  let later := { table with counter := table.counter + 1 }
  if table.declares name Context.everywhere then
    { answer := none, table := later, events := [.skippedName name] }
  else
    { answer := some name, table := later }

/-- Generating a name in a number of turns: they are taken until one has an answer. -/
inductive Generates : Table → Nat → Outcome String → Prop where
  | answered {table : Table} {name : String} (answer : table.turn.answer = some name) :
      Generates table 1 { table.turn with answer := name }
  | continued {table : Table} {turns : Nat} {outcome : Outcome String}
      (noAnswer : table.turn.answer = none) (later : Generates table.turn.table turns outcome) :
      Generates table (turns + 1) { outcome with events := table.turn.events ++ outcome.events }

/-- The turns and the outcome are determined by the table. -/
theorem Generates.unique {table : Table} {turns otherTurns : Nat} {outcome other : Outcome String}
    (generates : table.Generates turns outcome) (otherwise : table.Generates otherTurns other) :
    otherTurns = turns ∧ other = outcome := by
  induction generates generalizing otherTurns other with
  | answered answer =>
      cases otherwise with
      | answered otherAnswer =>
          obtain rfl := Option.some.inj (otherAnswer.symm.trans answer)
          exact ⟨rfl, rfl⟩
      | continued noAnswer => simp [noAnswer] at answer
  | continued noAnswer _ ih =>
      cases otherwise with
      | answered answer => simp [noAnswer] at answer
      | continued _ later =>
          obtain ⟨rfl, rfl⟩ := ih later
          exact ⟨rfl, rfl⟩

theorem turn_of_declared {table : Table}
    (taken : table.declares (table.settings.generatedName table.counter) Context.everywhere =
      true) :
    table.turn =
      { answer := none
        table := { table with counter := table.counter + 1 }
        events := [.skippedName (table.settings.generatedName table.counter)] } := by
  simp [turn, taken]

theorem turn_of_free {table : Table}
    (free : table.declares (table.settings.generatedName table.counter) Context.everywhere =
      false) :
    table.turn =
      { answer := some (table.settings.generatedName table.counter)
        table := { table with counter := table.counter + 1 } } := by
  simp [turn, free]

theorem generates_of_free {table : Table}
    (free : table.declares (table.settings.generatedName table.counter) Context.everywhere =
      false) :
    table.Generates 1
      { answer := table.settings.generatedName table.counter
        table := { table with counter := table.counter + 1 } } := by
  have isTurn := turn_of_free free
  have answered := Generates.answered (congrArg Outcome.answer isTurn)
  rw [isTurn] at answered
  exact answered

theorem generates_of_declared {table : Table} {turns : Nat} {outcome : Outcome String}
    (taken : table.declares (table.settings.generatedName table.counter) Context.everywhere = true)
    (later : Generates { table with counter := table.counter + 1 } turns outcome) :
    table.Generates (turns + 1)
      { outcome with
        events :=
          .skippedName (table.settings.generatedName table.counter) :: outcome.events } := by
  have isTurn := turn_of_declared taken
  have laterTurns : Generates table.turn.table turns outcome := by
    rw [isTurn]
    exact later
  have continued := Generates.continued (congrArg Outcome.answer isTurn) laterTurns
  rw [isTurn] at continued
  exact continued

/-- A search is a sequence of turns, one for every name passed over and one for the answer. -/
theorem Searches.generates {table : Table} {number found : UInt64} {skipped : List String}
    (searches : table.Searches number found skipped) :
    Generates { table with counter := number } (skipped.length + 1)
      { answer := table.settings.generatedName found
        table := { table with counter := found + 1 }
        events := skipped.map .skippedName } := by
  induction searches with
  | @found number free => exact @generates_of_free { table with counter := number } free
  | @passed number _ _ taken _ ih =>
      exact @generates_of_declared { table with counter := number } _ _ taken ih

theorem length_skipped_le (table : Table) (budget : Nat) (number : UInt64) :
    (table.firstFree budget number).2.length ≤ budget := by
  induction budget generalizing number with
  | zero => exact Nat.le_refl 0
  | succ budget ih =>
      rw [firstFree]
      split
      · exact Nat.succ_le_succ (ih (number + 1))
      · exact Nat.zero_le _

theorem Searches.declares_of_mem {table : Table} {number found : UInt64} {skipped : List String}
    (searches : table.Searches number found skipped) {name : String} (nameMem : name ∈ skipped) :
    table.declares name Context.everywhere = true := by
  induction searches with
  | found => cases nameMem
  | passed taken _ ih =>
      rcases List.mem_cons.mp nameMem with rfl | later
      · exact taken
      · exact ih later

/-- As long as the counter fits, the names passed over are those of the numbers in a row. -/
theorem Searches.skipped_eq_map {table : Table} {number found : UInt64} {skipped : List String}
    (searches : table.Searches number found skipped)
    (fits : number.toNat + skipped.length < UInt64.size) :
    skipped = (List.range' number.toNat skipped.length).map fun n =>
      table.settings.generatedName (.ofNat n) := by
  induction searches with
  | found => rfl
  | @passed number found skipped _ _ ih =>
      rw [List.length_cons] at fits
      have next : (number + 1).toNat = number.toNat + 1 := toNat_succ (by omega)
      rw [next] at ih
      rw [List.length_cons, List.range'_succ, List.map_cons, ← ih (by omega), UInt64.ofNat_toNat]

theorem declares_generatedName_iff {table : Table} (allowed : table.settings.Allowed)
    (number : UInt64) :
    table.declares (table.settings.generatedName number) Context.everywhere = true ↔
      Key.global (table.settings.generatedName number) ∈ table.index := by
  have notLocal : Name.sigilLength (table.settings.generatedName number) ≠ 1 := by
    simp [allowed.sigilLength_generatedName]
  constructor
  · intro declared
    exact global_mem_index_of_declares notLocal declared
  · intro inUse
    rcases mem_index_iff.mp inUse with ⟨entry, bound⟩
    refine declares_eq_true_iff.mpr ⟨_, ?_, Option.ne_none_iff_exists'.mpr ⟨entry, bound⟩⟩
    exact Key.resolve_eq_global (allowed.isValid_generatedName number) notLocal _

/-- Whether a number is the first from the counter on whose name no symbol has. -/
structure IsNextFree (table : Table) (number : UInt64) : Prop where
  counter_le : table.counter ≤ number
  free : Key.global (table.settings.generatedName number) ∉ table.index
  taken_before : ∀ earlier, table.counter ≤ earlier → earlier < number →
    Key.global (table.settings.generatedName earlier) ∈ table.index

/-- The number found is the next free one, as the numbers from the counter up to it are those of the
names passed over. -/
theorem isNextFree_freshNumber {table : Table} (reachable : table.Reachable)
    (fits : table.CounterFits) : table.IsNextFree table.freshNumber := by
  have allowed := reachable.allowed
  have searches := searches_firstFree reachable.wellFormed allowed
  have found := fits.toNat_freshNumber
  refine ⟨UInt64.le_iff_toNat_le.mpr fits.counter_le, ?_, ?_⟩
  · rw [← declares_generatedName_iff allowed, searches.declares_found]
    simp
  · intro earlier fromCounter beforeFound
    rw [UInt64.le_iff_toNat_le] at fromCounter
    rw [UInt64.lt_iff_toNat_lt] at beforeFound
    apply (declares_generatedName_iff allowed earlier).mp
    apply searches.declares_of_mem
    rw [searches.skipped_eq_map (Nat.lt_of_succ_lt fits), List.mem_map]
    refine ⟨earlier.toNat, ?_, by rw [UInt64.ofNat_toNat]⟩
    rw [List.mem_range'_1]
    omega

/-- In every table that a run of operations leads to and whose counter leaves room for one number
more than there are symbols, generating a name takes at most that many turns. The name has the least
number from the counter on whose name no symbol has. Only the counter changes, to the number behind
it, and each number passed over is reported, in order. -/
theorem freshName_has_next_free_number {table : Table} (reachable : table.Reachable)
    (room : table.counter.toNat + table.size + 1 < UInt64.size) :
    ∃ number : UInt64, table.IsNextFree number ∧
      (∃ turns ≤ table.size + 1, ∀ otherTurns outcome,
        table.Generates otherTurns outcome ↔ otherTurns = turns ∧ outcome = table.freshName) ∧
      table.freshName.answer = table.settings.labelPrefix ++
        String.ofList (Numeral.paddedHex 8 number.toNat) ++ table.settings.labelSuffix ∧
      8 ≤ (Numeral.paddedHex 8 number.toNat).length ∧
      (∀ c ∈ Numeral.paddedHex 8 number.toNat, c ∈ Numeral.hexAlphabet) ∧
      Numeral.ofDigits 16 (Numeral.paddedHex 8 number.toNat) = number.toNat ∧
      table.freshName.table = { table with counter := number + 1 } ∧
      (number + 1).toNat = number.toNat + 1 ∧
      (table.freshName.events.map fun event => (event.message, event.fields)) =
        (List.range' table.counter.toNat (number.toNat - table.counter.toNat)).map fun n =>
          ("generated name already declared, skipping",
            [("name", .text (table.settings.generatedName (.ofNat n)))]) := by
  have withinBudget : table.passedOver.length ≤ table.size := table.length_skipped_le _ _
  have fits : table.CounterFits := by
    simp only [CounterFits]
    omega
  have found := fits.toNat_freshNumber
  have searches := searches_firstFree reachable.wellFormed reachable.allowed
  refine ⟨table.freshNumber, isNextFree_freshNumber reachable fits,
    ?_, rfl, ?_, ?_, ?_, rfl, ?_, ?_⟩
  · have generates : table.Generates (table.passedOver.length + 1) table.freshName :=
      searches.generates
    refine ⟨table.passedOver.length + 1, Nat.succ_le_succ withinBudget, ?_⟩
    intro otherTurns outcome
    constructor
    · exact generates.unique
    · rintro ⟨rfl, rfl⟩
      exact generates
  · rw [Numeral.length_paddedHex]
    exact Nat.le_max_left 8 _
  · intro c charMem
    exact Numeral.mem_hexAlphabet_of_mem_paddedHex charMem
  · exact Numeral.ofDigits_paddedHex 8 table.freshNumber.toNat
  · apply toNat_succ
    rw [found]
    exact fits
  · have events : table.freshName.events = table.passedOver.map .skippedName := rfl
    have passedCount : table.freshNumber.toNat - table.counter.toNat = table.passedOver.length := by
      omega
    rw [events, passedCount, searches.skipped_eq_map (Nat.lt_of_succ_lt fits), List.length_map,
      List.length_range', List.map_map, List.map_map]
    rfl

/-- A label and an equation stand in the way of the numbers one and two. -/
theorem freshName_has_next_free_number_three :
    let table := ({ settings := { labelPrefix := "A", labelSuffix := "0" } } : Table).after
      [.freshName, .labelFor "A000000010" ⟨1, 1⟩, .declareEquation "A000000020" ⟨2, 2⟩ "x",
        .labelFor "@A000000030" ⟨1, 1⟩]
    table.Reachable ∧ table.counter.toNat + table.size + 1 < UInt64.size ∧
      table.freshName.answer = "A000000030" ∧ table.IsNextFree 3 ∧
      ∃ turns ≤ 4, table.Generates turns table.freshName := by
  intro table
  have reachable : table.Reachable :=
    (Reachable.ofSettings (ofSettings_eq_ok_iff.mpr ⟨by decide +kernel, rfl⟩)).after _
  have room : table.counter.toNat + table.size + 1 < UInt64.size := by decide +kernel
  rcases freshName_has_next_free_number reachable room with
    ⟨number, isNextFree, ⟨turns, turnsLe, generates⟩, _, _, _, _, tableEq, _⟩
  have counterIs : table.freshName.table.counter = 3 + 1 := by decide +kernel
  obtain rfl : number = 3 := by
    rw [tableEq] at counterIs
    exact (UInt64.add_left_inj 1).mp counterIs
  have sizeIs : table.size = 3 := by decide +kernel
  refine ⟨reachable, room, by decide +kernel, isNextFree, turns, ?_, ?_⟩
  · rwa [sizeIs] at turnsLe
  · exact (generates turns table.freshName).mpr ⟨rfl, rfl⟩

end Symtab.Table
