import Mathlib.Data.List.Nodup
import Symtab.Key
import Symtab.Proofs.Name

/-!
# Keys of names

Every key that a name resolves to holds that name, stands in no section, and stands in a file only
when the name has a single sigil. A name that is not local to its file has one key, whatever the
context. One that is local has a key for every file, and two names never share a key.
-/

namespace Symtab.Key

/-- What a key in use looks like. -/
structure Canonical (key : Key) : Prop where
  isValid_name : Name.isValid key.name = true
  sectionId_eq : key.sectionId = anyScope
  fileId_eq : Name.sigilLength key.name ≠ 1 → key.fileId = anyScope

/-- The key of a name that is not local to a file. -/
def global (name : String) : Key := ⟨anyScope, anyScope, name⟩

/-- A text is refused exactly when it is not a name. -/
theorem resolve_eq_error_iff {name : String} {context : Context} {refusal : SymbolError} :
    resolve name context = .error refusal ↔
      Name.isValid name = false ∧ refusal = .invalidName name := by
  unfold resolve
  split
  next valid => simp [valid]
  next invalid =>
    simp only [Except.error.injEq, Bool.not_eq_true] at invalid ⊢
    exact ⟨fun same => ⟨invalid, same.symm⟩, fun ⟨_, same⟩ => same.symm⟩

theorem exists_resolve_eq_ok_iff {name : String} {context : Context} :
    (∃ key, resolve name context = .ok key) ↔ Name.isValid name = true := by
  constructor
  · rintro ⟨key, resolves⟩
    exact (resolve_eq_ok_iff.mp resolves).1
  · intro valid
    cases resolves : resolve name context with
    | ok key => exact ⟨key, rfl⟩
    | error refusal =>
        rw [(resolve_eq_error_iff.mp resolves).1] at valid
        cases valid

theorem name_of_resolve {name : String} {context : Context} {key : Key}
    (resolves : resolve name context = .ok key) : key.name = name :=
  (resolve_eq_ok_iff.mp resolves).2.1

/-- Keys that names resolve to are canonical. -/
theorem canonical_of_resolve {name : String} {context : Context} {key : Key}
    (resolves : resolve name context = .ok key) : key.Canonical := by
  rcases resolve_eq_ok_iff.mp resolves with ⟨valid, rfl, stored⟩
  refine ⟨valid, ?_, ?_⟩
  · cases scope : Scope.ofName key.name with
    | file =>
        rw [scope] at stored
        exact congrArg Context.sectionId stored
    | global =>
        rw [scope] at stored
        exact congrArg Context.sectionId stored
  · intro notLocal
    rw [Scope.ofName, if_neg notLocal] at stored
    exact congrArg Context.fileId stored

/-- A name that is not local to a file resolves to its global key. -/
theorem eq_global_of_resolve {name : String} {context : Context} {key : Key}
    (resolves : resolve name context = .ok key) (notLocal : Name.sigilLength name ≠ 1) :
    key = global name := by
  have canonical := canonical_of_resolve resolves
  have sameName := name_of_resolve resolves
  subst sameName
  have sameFile := canonical.fileId_eq notLocal
  have sameSection := canonical.sectionId_eq
  cases key
  simp only at sameFile sameSection
  subst sameFile sameSection
  rfl

theorem resolve_eq_global {name : String} (valid : Name.isValid name = true)
    (notLocal : Name.sigilLength name ≠ 1) (context : Context) :
    resolve name context = .ok (global name) := by
  refine resolve_eq_ok_iff.mpr ⟨valid, rfl, ?_⟩
  rw [Scope.ofName, if_neg notLocal]
  rfl

/-- A name is stored in the same place from two files exactly when they are the same file, unless
the file does not matter. -/
theorem normalize_ofName_eq_iff {name : String} {fileId otherFile : ScopeToken} :
    (Scope.ofName name).normalize fileId = (Scope.ofName name).normalize otherFile ↔
      (Name.IsLocal name → fileId = otherFile) := by
  rw [Name.isLocal_iff, Scope.ofName]
  split
  next isLocal => simp [Scope.normalize, isLocal]
  next notLocal => simp [Scope.normalize, notLocal]

/-- A name resolves alike in two contexts, if they have the same file where it is local to it. -/
theorem resolve_congr {name : String} {context other : Context}
    (sameFile : Name.IsLocal name → context.fileId = other.fileId) :
    resolve name context = resolve name other := by
  simp only [resolve, normalize_ofName_eq_iff.mpr sameFile]

theorem eq_iff_stored {first second : Key} :
    first = second ↔ first.name = second.name ∧
      (⟨first.fileId, first.sectionId⟩ : Context) = ⟨second.fileId, second.sectionId⟩ := by
  cases first
  cases second
  simp only [Key.mk.injEq, Context.mk.injEq]
  rw [← and_assoc, and_comm]

/-- Keys are the same exactly when their names are, and a name that is local to its file was
resolved in the same file. -/
theorem eq_iff_of_resolve {first second : String} {firstContext secondContext : Context}
    {firstKey secondKey : Key} (firstResolves : resolve first firstContext = .ok firstKey)
    (secondResolves : resolve second secondContext = .ok secondKey) :
    firstKey = secondKey ↔
      first = second ∧ (Name.IsLocal first → firstContext.fileId = secondContext.fileId) := by
  rcases resolve_eq_ok_iff.mp firstResolves with ⟨_, rfl, firstStored⟩
  rcases resolve_eq_ok_iff.mp secondResolves with ⟨_, rfl, secondStored⟩
  rw [eq_iff_stored, firstStored, secondStored]
  refine and_congr_right fun sameName => ?_
  rw [← sameName]
  exact normalize_ofName_eq_iff

/-- A key is the key of its own name, in its own file and section. -/
theorem resolve_self {name : String} {context : Context} {key : Key}
    (resolves : resolve name context = .ok key) :
    resolve key.name ⟨key.fileId, key.sectionId⟩ = .ok key := by
  rcases resolve_eq_ok_iff.mp resolves with ⟨valid, rfl, stored⟩
  refine resolve_eq_ok_iff.mpr ⟨valid, rfl, stored.trans (normalize_ofName_eq_iff.mpr ?_)⟩
  intro isLocal
  have fileEq := congrArg Context.fileId stored
  rw [Scope.ofName, if_pos (Name.isLocal_iff.mp isLocal)] at fileEq
  exact fileEq.symm

theorem resolve_eq_local {name : String} (valid : Name.isValid name = true)
    (isLocal : Name.sigilLength name = 1) (context : Context) :
    resolve name context = .ok ⟨context.fileId, anyScope, name⟩ := by
  refine resolve_eq_ok_iff.mpr ⟨valid, rfl, ?_⟩
  rw [Scope.ofName, if_pos isLocal]
  rfl

/-- A name without a sigil and its two forms with one have different keys in all contexts. So it is
even where the file of the form with a single sigil makes it stored in the same place as the
others. -/
theorem sigil_forms_differ {name : String} (valid : Name.isValid name = true)
    (plain : Name.sigilLength name = 0) (context localContext globalContext : Context) :
    ∃ key localKey globalKey, resolve name context = .ok key ∧
      resolve ("@" ++ name) localContext = .ok localKey ∧
      resolve ("@@" ++ name) globalContext = .ok globalKey ∧ [key, localKey, globalKey].Nodup ∧
      (localContext.fileId = anyScope →
        localKey.fileId = key.fileId ∧ localKey.sectionId = key.sectionId) := by
  have localSigil : Name.sigilLength ("@" ++ name) = 1 :=
    Name.sigilLength_append (by decide) plain
  have globalSigil : Name.sigilLength ("@@" ++ name) = 2 :=
    Name.sigilLength_append (by decide) plain
  have localValid : Name.isValid ("@" ++ name) = true := by
    rw [Name.isValid_append (by decide) plain, valid]
  have globalValid : Name.isValid ("@@" ++ name) = true := by
    rw [Name.isValid_append (by decide) plain, valid]
  refine ⟨_, _, _, resolve_eq_global valid (by simp [plain]) context,
    resolve_eq_local localValid localSigil localContext,
    resolve_eq_global globalValid (by simp [globalSigil]) globalContext, ?_, ?_⟩
  · have lengths : [name.length, ("@" ++ name).length, ("@@" ++ name).length].Nodup := by
      have oneMore : ("@" ++ name).length = 1 + name.length := String.length_append "@" name
      have twoMore : ("@@" ++ name).length = 2 + name.length := String.length_append "@@" name
      simp only [oneMore, twoMore, List.nodup_cons, List.mem_cons, List.not_mem_nil, or_false,
        not_or, List.nodup_nil, not_false_eq_true, and_true]
      omega
    exact List.Nodup.of_map (fun key : Key => key.name.length) lengths
  · intro anyFile
    exact ⟨anyFile, rfl⟩

/-- In two contexts names have the same key exactly when they are the same name and, if it is local
to a file, the contexts have the same file. Sections never matter, the forms of a name with and
without a sigil never share a key, and a key is that of its own name, file and section. -/
theorem keys_shared_iff :
    (∀ {first second : String} {firstContext secondContext : Context} {firstKey secondKey : Key},
      resolve first firstContext = .ok firstKey → resolve second secondContext = .ok secondKey →
        (firstKey = secondKey ↔
          first = second ∧ (Name.IsLocal first → firstContext.fileId = secondContext.fileId))) ∧
    (∀ name fileId sectionId otherSection,
      resolve name ⟨fileId, sectionId⟩ = resolve name ⟨fileId, otherSection⟩) ∧
    (∀ name, Name.isValid name = true → Name.sigilLength name = 0 →
      ∀ context localContext globalContext, ∃ key localKey globalKey,
        resolve name context = .ok key ∧ resolve ("@" ++ name) localContext = .ok localKey ∧
        resolve ("@@" ++ name) globalContext = .ok globalKey ∧
        [key, localKey, globalKey].Nodup ∧
        (localContext.fileId = anyScope →
          localKey.fileId = key.fileId ∧ localKey.sectionId = key.sectionId)) ∧
    ∀ {name : String} {context : Context} {key : Key}, resolve name context = .ok key →
      resolve key.name ⟨key.fileId, key.sectionId⟩ = .ok key := by
  refine ⟨eq_iff_of_resolve, fun _ _ _ _ => rfl, ?_, resolve_self⟩
  intro name valid plain context localContext globalContext
  exact sigil_forms_differ valid plain context localContext globalContext

/-- In file three the sections do not matter to `@loop`, which file four does not share, and in no
file `loop` and `@loop` are the same. -/
theorem keys_shared_iff_loop :
    resolve "@loop" ⟨3, 1⟩ = .ok ⟨3, -1, "@loop"⟩ ∧
      resolve "@loop" ⟨3, -1⟩ = .ok ⟨3, -1, "@loop"⟩ ∧
      resolve "@loop" ⟨4, 1⟩ = .ok ⟨4, -1, "@loop"⟩ ∧
      (⟨3, -1, "@loop"⟩ : Key) ≠ ⟨4, -1, "@loop"⟩ ∧
      resolve "@loop" ⟨-1, 0⟩ = .ok ⟨-1, -1, "@loop"⟩ ∧
      resolve "loop" ⟨-1, 0⟩ = .ok ⟨-1, -1, "loop"⟩ ∧
      (⟨-1, -1, "@loop"⟩ : Key) ≠ ⟨-1, -1, "loop"⟩ := by
  have isLocal : Name.IsLocal "@loop" := Name.isLocal_iff.mpr (by decide)
  have inThree : resolve "@loop" ⟨3, 1⟩ = .ok ⟨3, -1, "@loop"⟩ :=
    resolve_eq_ok_iff.mpr (by decide)
  have inFour : resolve "@loop" ⟨4, 1⟩ = .ok ⟨4, -1, "@loop"⟩ :=
    resolve_eq_ok_iff.mpr (by decide)
  have inAny : resolve "@loop" ⟨-1, 0⟩ = .ok ⟨-1, -1, "@loop"⟩ :=
    resolve_eq_ok_iff.mpr (by decide)
  have plainInAny : resolve "loop" ⟨-1, 0⟩ = .ok ⟨-1, -1, "loop"⟩ :=
    resolve_eq_ok_iff.mpr (by decide)
  rcases keys_shared_iff with ⟨sameKey, sameSection, _, _⟩
  refine ⟨inThree, (sameSection _ _ _ _).trans inThree, inFour, ?_, inAny, plainInAny, ?_⟩
  · intro shared
    exact absurd (((sameKey inThree inFour).mp shared).2 isLocal) (by decide)
  · intro shared
    exact absurd ((sameKey inAny plainInAny).mp shared).1 (by decide)

end Symtab.Key
