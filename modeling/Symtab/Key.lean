import Symtab.Error
import Symtab.Scope

/-!
# Keys

A key is what a symbol is stored under: its name and the context to which its scope widens the
context of its declaration. Keys are ordered by file, then by section, then by the characters of
their names.
-/

namespace Symtab

/-- What a symbol is stored under. -/
structure Key where
  fileId : ScopeToken
  sectionId : ScopeToken
  name : String
  deriving DecidableEq, Repr

namespace Key

instance : Ord Key where
  compare := compareLex (compareOn fileId) (compareLex (compareOn sectionId) (compareOn name))

instance : Std.TransOrd Key :=
  inferInstanceAs (Std.TransCmp
    (compareLex (compareOn fileId) (compareLex (compareOn sectionId) (compareOn name))))

instance : Std.LawfulEqOrd Key where
  compare_self := Std.ReflCmp.compare_self
  eq_of_compare {first second} equal := by
    rcases compareLex_eq_eq.mp equal with ⟨sameFile, sameRest⟩
    rcases compareLex_eq_eq.mp sameRest with ⟨sameSection, sameName⟩
    have fileEq : first.fileId = second.fileId := Std.LawfulEqOrd.eq_of_compare sameFile
    have sectionEq : first.sectionId = second.sectionId :=
      Std.LawfulEqOrd.eq_of_compare sameSection
    have nameEq : first.name = second.name := Std.LawfulEqOrd.eq_of_compare sameName
    cases first
    cases second
    simp_all

/-- The key of a name in a context; refused when the text is not a symbol name. -/
def resolve (name : String) (context : Context) : Except SymbolError Key :=
  if Name.isValid name then
    let stored := (Scope.ofName name).normalize context.fileId
    .ok ⟨stored.fileId, stored.sectionId, name⟩
  else
    .error (.invalidName name)

/-- A key is resolved from a symbol name, and its parts are the name and the normalized context. -/
theorem resolve_eq_ok_iff {name : String} {context : Context} {key : Key} :
    resolve name context = .ok key ↔
      Name.isValid name = true ∧ key.name = name ∧
        (⟨key.fileId, key.sectionId⟩ : Context) = (Scope.ofName name).normalize context.fileId := by
  unfold resolve
  split
  next valid =>
    cases key
    generalize (Scope.ofName name).normalize context.fileId = stored
    cases stored
    simp only [Except.ok.injEq, Key.mk.injEq, Context.mk.injEq, valid, true_and]
    grind
  next invalid => simp [invalid]

/-- A key as text. -/
def describe (key : Key) : String :=
  s!"{key.name} (file {key.fileId}, section {key.sectionId})"

/-- Keys from the least to the greatest. -/
def sort (keys : List Key) : List Key :=
  keys.mergeSort fun first second => (compare first second).isLE

/-- The number of different keys. -/
def distinctCount (keys : List Key) : Nat := keys.eraseDups.length

end Key

end Symtab
