import Symtab.Toml.Reader

/-!
# What readers take

Readers of single characters and of fixed texts take exactly these, and reading all items gives the
run of items that the reader takes one after the other until it refuses.
-/

namespace Symtab.Toml.Reader

variable {α : Type}

theorem exactly_eq_some_iff {expected text rest : List Char} :
    exactly expected text = some ((), rest) ↔ text = expected ++ rest := by
  induction expected generalizing text with
  | nil => simp [exactly]
  | cons c expected ih =>
      cases text with
      | nil => simp [exactly]
      | cons first text =>
          by_cases same : c = first
          · simp [exactly, same, ih]
          · simp [exactly, same, Ne.symm same]

@[simp]
theorem exactly_append (expected rest : List Char) :
    exactly expected (expected ++ rest) = some ((), rest) :=
  exactly_eq_some_iff.mpr rfl

/-- A reader takes items one after the other, each from the front of a text, up to a text from which
it takes none. -/
inductive Run (item : Reader α) : List Char → List α → List Char → Prop where
  | stop {text : List Char} (refuses : item text = none) : Run item text [] text
  | next {text rest last : List Char} {first : α} {items : List α}
      (takes : item text = some (first, rest)) (shorter : rest.length < text.length)
      (later : Run item rest items last) : Run item text (first :: items) last

theorem Run.eq_of_nil {item : Reader α} {text last : List Char} (run : Run item text [] last) :
    text = last := by
  cases run with
  | stop _ => rfl

theorem Run.many_eq {item : Reader α} {text last : List Char} {items : List α}
    (run : Run item text items last) {bound : List Char} (enough : text.length ≤ bound.length) :
    many item bound text = (items, last) := by
  induction run generalizing bound with
  | stop refuses =>
      cases bound with
      | nil => rfl
      | cons c bound => simp only [many, refuses]
  | @next text rest last first items takes shorter later ih =>
      cases bound with
      | nil =>
          simp only [List.length_nil] at enough
          omega
      | cons c bound =>
          have enoughLater : rest.length ≤ bound.length := by
            simp only [List.length_cons] at enough
            omega
          simp only [many, takes, ih enoughLater]

/-- Reading all items takes the whole run. -/
theorem Run.all_eq {item : Reader α} {text last : List Char} {items : List α}
    (run : Run item text items last) : all item text = (items, last) :=
  run.many_eq (Nat.le_refl text.length)

/-- When every item is read back from what is written for it, items written one after the other are
read back in order. -/
theorem run_flatMap {item : Reader α} {write : α → List Char} {items : List α} {last : List Char}
    (reads : ∀ value ∈ items, ∀ rest, item (write value ++ rest) = some (value, rest))
    (notEmpty : ∀ value ∈ items, write value ≠ []) (stops : item last = none) :
    Run item (items.flatMap write ++ last) items last := by
  induction items with
  | nil => exact .stop stops
  | cons first items ih =>
      rcases List.forall_mem_cons.mp reads with ⟨readsFirst, readsLater⟩
      rcases List.forall_mem_cons.mp notEmpty with ⟨firstNotEmpty, laterNotEmpty⟩
      rw [List.flatMap_cons, List.append_assoc]
      refine .next (readsFirst _) ?_ (ih readsLater laterNotEmpty)
      have positive := List.length_pos_iff.mpr firstNotEmpty
      simp only [List.length_append]
      omega

/-- Whether a reader takes at least one character whenever it takes an item. -/
def Progresses (item : Reader α) : Prop :=
  ∀ text value rest, item text = some (value, rest) → rest.length < text.length

theorem Progresses.run_many {item : Reader α} (progresses : Progresses item)
    {bound text : List Char} (enough : text.length ≤ bound.length) :
    Run item text (many item bound text).1 (many item bound text).2 := by
  induction bound generalizing text with
  | nil =>
      apply Run.stop
      cases taken : item text with
      | none => rfl
      | some result =>
          have shorter := progresses text result.1 result.2 taken
          simp only [List.length_nil] at enough
          omega
  | cons c bound ih =>
      cases taken : item text with
      | none =>
          simp only [many, taken]
          exact .stop taken
      | some result =>
          have shorter := progresses text result.1 result.2 taken
          have enoughLater : result.2.length ≤ bound.length := by
            simp only [List.length_cons] at enough
            omega
          simp only [many, taken]
          exact .next taken shorter (ih enoughLater)

theorem Progresses.run_all {item : Reader α} (progresses : Progresses item) (text : List Char) :
    Run item text (all item text).1 (all item text).2 :=
  progresses.run_many (Nat.le_refl text.length)

end Symtab.Toml.Reader
