import Mathlib.Data.List.Infix
import Mathlib.Data.List.Nodup
import Mathlib.Data.List.Perm.Subperm
import Symtab.Proofs.GeneratedName
import Symtab.Proofs.Table.Representation

/-!
# Generated names never collide

The search for a free number passes over declared names only and ends at a name that is not
declared. Its budget is the number of keys in use: one more number than that has names under as many
different keys, and these cannot all be in use.

In a run without clearing the counter goes up with every generated name, so that later names have
greater numbers. Since the settings stay, names with different numbers differ.
-/

namespace Symtab.Table

/-- The number of the name that is generated next. -/
def freshNumber (table : Table) : UInt64 := (table.firstFree table.size table.counter).1

/-- The declared names that are passed over when the next name is generated. -/
def passedOver (table : Table) : List String := (table.firstFree table.size table.counter).2

/-- Whether the counter stays in range while a name is generated: it goes up by one for every name
passed over and for the generated one. -/
def CounterFits (table : Table) : Prop :=
  table.counter.toNat + table.passedOver.length + 1 < UInt64.size

instance (table : Table) : Decidable table.CounterFits :=
  inferInstanceAs (Decidable (_ < UInt64.size))

/-- The search from a number on ends at the first number whose name is not declared, and passes over
the declared names before it. -/
inductive Searches (table : Table) : UInt64 → UInt64 → List String → Prop where
  | found {number : UInt64}
      (free : table.declares (table.settings.generatedName number) Context.everywhere = false) :
      Searches table number number []
  | passed {number found : UInt64} {skipped : List String}
      (taken : table.declares (table.settings.generatedName number) Context.everywhere = true)
      (later : Searches table (number + 1) found skipped) :
      Searches table number found (table.settings.generatedName number :: skipped)

theorem Searches.declares_found {table : Table} {number found : UInt64} {skipped : List String}
    (searches : table.Searches number found skipped) :
    table.declares (table.settings.generatedName found) Context.everywhere = false := by
  induction searches with
  | found free => exact free
  | passed _ _ ih => exact ih

theorem add_ofNat_succ (number : UInt64) (offset : Nat) :
    number + UInt64.ofNat (offset + 1) = number + 1 + UInt64.ofNat offset := by
  rw [UInt64.ofNat_add, UInt64.add_comm (UInt64.ofNat offset), ← UInt64.add_assoc]
  rfl

/-- A search ends within its budget, unless there are more declared names in a row. -/
theorem searches_firstFree_or (table : Table) (budget : Nat) (number : UInt64) :
    (table.Searches number (table.firstFree budget number).1 (table.firstFree budget number).2) ∨
      ∀ offset ≤ budget, table.declares
        (table.settings.generatedName (number + UInt64.ofNat offset)) Context.everywhere =
          true := by
  induction budget generalizing number with
  | zero =>
      cases taken : table.declares (table.settings.generatedName number) Context.everywhere with
      | false => exact Or.inl (.found taken)
      | true =>
          right
          intro offset inBudget
          obtain rfl : offset = 0 := by omega
          simpa using taken
  | succ budget ih =>
      rw [firstFree]
      cases taken : table.declares (table.settings.generatedName number) Context.everywhere with
      | false => exact Or.inl (.found taken)
      | true =>
          rcases ih (number + 1) with ends | tooMany
          · exact Or.inl (.passed taken ends)
          · right
            intro offset inBudget
            cases offset with
            | zero => simpa using taken
            | succ offset =>
                rw [add_ofNat_succ]
                exact tooMany offset (by omega)

section Pigeonhole

variable {table : Table}

theorem global_mem_index_of_declares {name : String} {context : Context}
    (notLocal : Name.sigilLength name ≠ 1) (declared : table.declares name context = true) :
    Key.global name ∈ table.index := by
  rcases declares_eq_true_iff.mp declared with ⟨key, resolves, inUse⟩
  rw [← Key.eq_global_of_resolve resolves notLocal]
  exact mem_index_iff.mpr (Option.ne_none_iff_exists'.mp inUse)

/-- A name without a sigil is declared in one context exactly when it is declared in another. -/
theorem declares_eq_of_plain {name : String} (notLocal : Name.sigilLength name ≠ 1)
    (first second : Context) : table.declares name first = table.declares name second := by
  rw [declares, declares]
  cases valid : Name.isValid name with
  | false => rw [table.entry?_of_invalid valid first, table.entry?_of_invalid valid second]
  | true =>
      rw [table.entry?_of_resolve (Key.resolve_eq_global valid notLocal first),
        table.entry?_of_resolve (Key.resolve_eq_global valid notLocal second)]

/-- There are never more symbols than handles of both kinds. -/
theorem WellFormed.size_le (wellFormed : table.WellFormed) : table.size ≤ 2 * UInt32.size := by
  have labelsLe : table.labels.size ≤ UInt32.size := table.labels.size_le
  have equationsLe : table.equations.size ≤ UInt32.size := table.equations.size_le
  have sizeEq := wellFormed.size_eq
  omega

/-- Among one number more than there are keys in use, the name of one is not declared: the names
have as many different keys, which cannot all be in use. -/
theorem exists_free_number (wellFormed : table.WellFormed) (allowed : table.settings.Allowed)
    (number : UInt64) :
    ∃ offset ≤ table.size, table.declares
      (table.settings.generatedName (number + UInt64.ofNat offset)) Context.everywhere = false := by
  by_contra noneFree
  simp only [not_exists, not_and, Bool.not_eq_false] at noneFree
  let keyAt (offset : Nat) : Key :=
    Key.global (table.settings.generatedName (number + UInt64.ofNat offset))
  have small : ∀ offset ∈ List.range (table.size + 1), offset < UInt64.size := by
    intro offset offsetMem
    have sizeLe := wellFormed.size_le
    rw [List.mem_range] at offsetMem
    simp only [UInt32.size, UInt64.size] at sizeLe ⊢
    omega
  have differ : ((List.range (table.size + 1)).map keyAt).Nodup := by
    refine List.Nodup.map_on ?_ List.nodup_range
    intro first firstMem second secondMem sameKey
    have sameName := congrArg Key.name sameKey
    have sameNumber := (UInt64.add_right_inj number).mp
      (table.settings.generatedName_injective sameName)
    have sameNat := congrArg UInt64.toNat sameNumber
    rwa [UInt64.toNat_ofNat_of_lt' (small first firstMem),
      UInt64.toNat_ofNat_of_lt' (small second secondMem)] at sameNat
  have inUse : (List.range (table.size + 1)).map keyAt ⊆ table.index.keys := by
    intro key keyMem
    rcases List.mem_map.mp keyMem with ⟨offset, offsetMem, rfl⟩
    rw [List.mem_range] at offsetMem
    rw [Std.TreeMap.mem_keys]
    apply global_mem_index_of_declares _ (noneFree offset (by omega))
    simp [allowed.sigilLength_generatedName]
  have tooMany := (List.subperm_of_subset differ inUse).length_le
  rw [List.length_map, List.length_range, Std.TreeMap.length_keys] at tooMany
  exact absurd tooMany (Nat.not_succ_le_self table.size)

/-- The budget of the search is never used up. -/
theorem searches_firstFree (wellFormed : table.WellFormed) (allowed : table.settings.Allowed) :
    table.Searches table.counter table.freshNumber table.passedOver := by
  rcases table.searches_firstFree_or table.size table.counter with ends | tooMany
  · exact ends
  · rcases exists_free_number wellFormed allowed table.counter with ⟨offset, inBudget, free⟩
    rw [tooMany offset inBudget] at free
    cases free

end Pigeonhole

theorem answer_freshName (table : Table) :
    table.freshName.answer = table.settings.generatedName table.freshNumber := rfl

theorem counter_freshName (table : Table) :
    table.freshName.table.counter = table.freshNumber + 1 := rfl

theorem toNat_succ {number : UInt64} (fits : number.toNat + 1 < UInt64.size) :
    (number + 1).toNat = number.toNat + 1 := by
  simp only [UInt64.toNat_add, UInt64.toNat_one, UInt64.size] at fits ⊢
  omega

/-- As long as the counter fits, the search goes up by one for every name it passes over. -/
theorem toNat_firstFree {table : Table} {budget : Nat} {number : UInt64}
    (fits : number.toNat + (table.firstFree budget number).2.length < UInt64.size) :
    (table.firstFree budget number).1.toNat =
      number.toNat + (table.firstFree budget number).2.length := by
  induction budget generalizing number with
  | zero => rfl
  | succ budget ih =>
      rw [firstFree] at fits ⊢
      cases taken : table.declares (table.settings.generatedName number) Context.everywhere with
      | false => simp
      | true =>
          simp only [taken, if_true, List.length_cons] at fits ⊢
          have next : (number + 1).toNat = number.toNat + 1 := toNat_succ (by omega)
          rw [ih (by omega)]
          omega

theorem CounterFits.toNat_freshNumber {table : Table} (fits : table.CounterFits) :
    table.freshNumber.toNat = table.counter.toNat + table.passedOver.length :=
  toNat_firstFree (Nat.lt_of_succ_lt fits)

theorem CounterFits.counter_le {table : Table} (fits : table.CounterFits) :
    table.counter.toNat ≤ table.freshNumber.toNat := by
  rw [fits.toNat_freshNumber]
  exact Nat.le_add_right _ _

theorem CounterFits.lt_counter_freshName {table : Table} (fits : table.CounterFits) :
    table.freshNumber.toNat < table.freshName.table.counter.toNat := by
  have inRange : table.freshNumber.toNat + 1 < UInt64.size := fits.toNat_freshNumber ▸ fits
  rw [counter_freshName, toNat_succ inRange]
  exact Nat.lt_succ_self _

/-- Only generating a name and clearing change the counter. -/
theorem counter_perform (table : Table) {operation : Operation}
    (keepsCounter : operation ≠ .freshName ∧ operation ≠ .clear) :
    (table.perform operation).table.counter = table.counter := by
  cases operation with
  | labelFor name context =>
      change (table.labelFor name context).table.counter = table.counter
      unfold labelFor
      repeat' split
      all_goals rfl
  | declareEquation name context replacement =>
      change (table.declareEquation name context replacement).table.counter = table.counter
      unfold declareEquation
      repeat' split
      all_goals rfl
  | defineLabel id value =>
      change (table.defineLabel id value).table.counter = table.counter
      rcases table.defineLabel_cases id value with same | ⟨label, _, changed⟩
      · rw [same]
      · rw [changed]
  | setLabelValue id value =>
      change (table.setLabelValue id value).table.counter = table.counter
      rcases table.setLabelValue_cases id value with same | ⟨label, _, changed⟩
      · rw [same]
      · rw [changed]
  | exportListing path destination =>
      change (table.exportListing path destination).table.counter = table.counter
      rw [table_exportListing]
  | freshName => exact absurd rfl keepsCounter.1
  | clear => exact absurd rfl keepsCounter.2
  | _ => rfl

theorem Reachable.allowed {table : Table} (reachable : table.Reachable) :
    table.settings.Allowed := by
  induction reachable with
  | new => exact Settings.validate_eq_ok_iff.mp (by decide +kernel)
  | ofSettings made =>
      rcases ofSettings_eq_ok_iff.mp made with ⟨validated, rfl⟩
      exact Settings.validate_eq_ok_iff.mp validated
  | perform _ operation ih =>
      rw [(step_perform _ operation).settings_eq]
      exact ih

/-- The names that a run generates, in order. -/
def generatedNames (table : Table) (operations : List Operation) : List String :=
  (operations.zip (table.run operations)).filterMap fun
    | (.freshName, { answer := .text name, .. }) => some name
    | _ => none

/-- The numbers of the names that a run generates, in order. -/
def generatedNumbers (table : Table) : List Operation → List UInt64
  | [] => []
  | .freshName :: operations =>
    table.freshNumber :: table.freshName.table.generatedNumbers operations
  | operation :: operations => (table.perform operation).table.generatedNumbers operations

/-- Whether the counter stays in range throughout a run. -/
def CounterStaysInRange (table : Table) (operations : List Operation) : Prop :=
  ∀ before, before ++ [.freshName] <+: operations → (table.after before).CounterFits

theorem CounterStaysInRange.later {table : Table} {operation : Operation}
    {operations : List Operation} (inRange : table.CounterStaysInRange (operation :: operations)) :
    (table.perform operation).table.CounterStaysInRange operations := by
  intro before isPrefix
  apply inRange (operation :: before)
  rwa [List.cons_append, List.prefix_cons_inj]

theorem generatedNames_eq_map (table : Table) (operations : List Operation) :
    table.generatedNames operations =
      (table.generatedNumbers operations).map table.settings.generatedName := by
  induction operations generalizing table with
  | nil => rfl
  | cons operation operations ih =>
      have later := ih (table.perform operation).table
      rw [(step_perform table operation).settings_eq] at later
      cases operation with
      | freshName =>
          change table.freshName.answer :: table.freshName.table.generatedNames operations = _
          rw [generatedNumbers, List.map_cons, answer_freshName]
          exact congrArg _ later
      | _ => exact later

/-- Generated numbers increase: the counter is a lower bound of all numbers to come, and goes up
past each number it gives. -/
theorem generatedNumbers_ordered {table : Table} {operations : List Operation}
    (noClear : ∀ operation ∈ operations, operation.isClear = false)
    (inRange : table.CounterStaysInRange operations) :
    (∀ number ∈ table.generatedNumbers operations, table.counter.toNat ≤ number.toNat) ∧
      (table.generatedNumbers operations).Pairwise (· < ·) := by
  induction operations generalizing table with
  | nil => simp [generatedNumbers]
  | cons operation operations ih =>
      rcases List.forall_mem_cons.mp noClear with ⟨notClear, noClearLater⟩
      rcases ih noClearLater inRange.later with ⟨lowerBound, ordered⟩
      by_cases isFresh : operation = .freshName
      · subst isFresh
        have fits : table.CounterFits := inRange [] (by simp)
        have isNext := fits.counter_le
        have goesUp := fits.lt_counter_freshName
        rw [generatedNumbers]
        refine ⟨?_, ?_⟩
        · refine List.forall_mem_cons.mpr ⟨isNext, ?_⟩
          intro number numberMem
          have laterBound : table.freshName.table.counter.toNat ≤ number.toNat :=
            lowerBound number numberMem
          omega
        · refine List.pairwise_cons.mpr ⟨?_, ordered⟩
          intro number numberMem
          have laterBound : table.freshName.table.counter.toNat ≤ number.toNat :=
            lowerBound number numberMem
          rw [UInt64.lt_iff_toNat_lt]
          omega
      · have sameCounter : (table.perform operation).table.counter = table.counter := by
          refine table.counter_perform ⟨isFresh, ?_⟩
          rintro rfl
          cases notClear
        have sameNumbers : table.generatedNumbers (operation :: operations) =
            (table.perform operation).table.generatedNumbers operations := by
          cases operation with
          | freshName => exact absurd rfl isFresh
          | _ => rfl
        rw [sameNumbers]
        rw [sameCounter] at lowerBound
        exact ⟨lowerBound, ordered⟩

/-- Whether no context declares a name, and every context makes a new label of it as long as handles
are left. -/
def Fresh (table : Table) (name : String) : Prop :=
  ∀ context, table.declares name context = false ∧
    (table.labels.size < UInt32.size →
      ∃ id, (table.labelFor name context).answer = .ok id ∧
        Position.toNat id = table.labels.size ∧
        (table.labelFor name context).table.labels.toList = table.labels.toList ++ [⟨name, none⟩])

theorem fresh_of_not_declared {table : Table} {name : String} (valid : Name.isValid name = true)
    (notLocal : Name.sigilLength name ≠ 1)
    (notDeclared : table.declares name Context.everywhere = false) : table.Fresh name := by
  intro context
  rw [declares_eq_of_plain notLocal Context.everywhere context] at notDeclared
  refine ⟨notDeclared, ?_⟩
  intro room
  have resolves := Key.resolve_eq_global valid notLocal context
  have free : table.index[Key.global name]? = none := by
    by_contra inUse
    have declared := declares_eq_true_iff.mpr ⟨_, resolves, inUse⟩
    rw [notDeclared] at declared
    cases declared
  rcases Arena.exists_push_eq_ok room { name } with ⟨labels, id, pushes⟩
  rcases Arena.push_eq_ok_iff.mp pushes with ⟨_, items, number⟩
  rw [labelFor_of_push resolves free pushes]
  exact ⟨id, rfl, number, items⟩

/-- In a run without clearing whose counter stays in range, generated names differ and their numbers
go up. A name is without a sigil and fresh when it is generated. -/
theorem generated_names_never_collide {start : Table} (initial : start.Initial)
    {operations : List Operation}
    (noClear : ∀ operation ∈ operations, operation.isClear = false)
    (inRange : start.CounterStaysInRange operations) :
    (∃ numbers : List UInt64, numbers.Pairwise (· < ·) ∧
      start.generatedNames operations = numbers.map start.settings.generatedName) ∧
    (start.generatedNames operations).Nodup ∧
    ∀ before, before ++ [.freshName] <+: operations →
      let outcome := (start.after before).freshName
      Name.isValid outcome.answer = true ∧ Name.sigilLength outcome.answer = 0 ∧
        outcome.table.Fresh outcome.answer := by
  have ordered := (generatedNumbers_ordered noClear inRange).2
  have namesEq := start.generatedNames_eq_map operations
  refine ⟨⟨_, ordered, namesEq⟩, ?_, ?_⟩
  · have differ : (start.generatedNumbers operations).Nodup :=
      ordered.imp fun smaller => UInt64.ne_of_lt smaller
    rw [namesEq]
    exact differ.map start.settings.generatedName_injective
  · intro before _ outcome
    have reachable := initial.reachable.after before
    have allowed := reachable.allowed
    have valid : Name.isValid outcome.answer = true := allowed.isValid_generatedName _
    have plain : Name.sigilLength outcome.answer = 0 := allowed.sigilLength_generatedName _
    refine ⟨valid, plain, ?_⟩
    apply fresh_of_not_declared valid
    · simp [plain]
    · exact (searches_firstFree reachable.wellFormed allowed).declares_found

/-- The second name passes over a label and an equation that look like generated names, and the one
that is local to a file does not count. -/
theorem generated_names_never_collide_lookalikes :
    let start : Table := { settings := { labelPrefix := "A", labelSuffix := "0" } }
    let operations : List Operation :=
      [.freshName, .labelFor "A000000010" ⟨1, 1⟩, .declareEquation "A000000020" ⟨2, 2⟩ "x",
        .labelFor "@A000000030" ⟨1, 1⟩, .freshName]
    start.Initial ∧ (∀ operation ∈ operations, operation.isClear = false) ∧
      start.CounterStaysInRange operations ∧ (start.generatedNames operations).Nodup ∧
      start.generatedNames operations = ["A000000000", "A000000030"] := by
  intro start operations
  have initial : start.Initial :=
    Or.inr ⟨start.settings, ofSettings_eq_ok_iff.mpr ⟨by decide +kernel, rfl⟩⟩
  have noClear : ∀ operation ∈ operations, operation.isClear = false := by
    simp [operations, Operation.isClear]
  have inRange : start.CounterStaysInRange operations := by
    have everyPrefix : ∀ before ∈ operations.inits, (start.after before).CounterFits := by
      decide +kernel
    intro before isPrefix
    exact everyPrefix before
      ((List.mem_inits before operations).mpr ((List.prefix_append before _).trans isPrefix))
  have names : start.generatedNames operations = ["A000000000", "A000000030"] := by decide +kernel
  have differ := (generated_names_never_collide initial noClear inRange).2.1
  exact ⟨initial, noClear, inRange, differ, names⟩

end Symtab.Table
