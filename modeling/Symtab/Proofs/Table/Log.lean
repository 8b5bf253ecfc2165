import Mathlib.Data.List.Infix
import Symtab.Proofs.Table.FirstDeclaration

/-!
# The log determines the index

A run of operations leaves a log: the records of the events that it reports, in order. Whoever reads
the log can replay it, with the words and the named fields of the records alone. A record of a
clearing empties the replayed index, and a record of a declaration binds the key to which the logged
name resolves in the logged context. What results is the index of the table after the run.

The replay is compared with the table step by step. Each step reports what it does to the index, and
its records suit what has been replayed up to them; records about anything else are passed over.
-/

namespace Symtab

/-- An event as it is logged. -/
structure Record where
  level : Level
  message : String
  fields : List (String × Event.Field)

/-- The record of an event. -/
def Event.record (event : Event) : Record where
  level := event.level
  message := event.message
  fields := event.fields

/-- Whether an event is about something other than the index. -/
def Event.isAside : Event → Bool
  | clearing .. | createdLabel .. | declaredEquation .. => false
  | _ => true

namespace Record

/-- The text of a named field. -/
def text? (record : Record) (name : String) : Option String :=
  match record.fields.lookup name with
  | some (.text content) => some content
  | _ => none

/-- The number of a named field. -/
def number? (record : Record) (name : String) : Option Int :=
  match record.fields.lookup name with
  | some (.number amount) => some amount
  | _ => none

/-- The logged context. -/
def context? (record : Record) : Option Context := do
  let fileId ← record.number? "file"
  let sectionId ← record.number? "section"
  some ⟨Int32.ofInt fileId, Int32.ofInt sectionId⟩

/-- The key to which the logged name resolves in the logged context. -/
def key? (record : Record) : Option Key := do
  let name ← record.text? "name"
  let context ← record.context?
  (Key.resolve name context).toOption

/-- The logged handle. -/
def position? (ι : Type) [Position ι] (record : Record) : Option ι := do
  let number ← record.number? "id"
  (Position.numbered ι number.toNat).toOption

/-- What a record tells about the index. -/
inductive Change where
  | emptied (labels equations : Int)
  | bound (key : Key) (entry : Entry)

/-- What a record tells about the index, by its words. -/
def change? (record : Record) : Option Change :=
  if record.message = "clearing symbol table" then do
    some (.emptied (← record.number? "labels") (← record.number? "equations"))
  else if record.message = "created label" then do
    some (.bound (← record.key?) (.label (← record.position? LabelId)))
  else if record.message = "declared equation" then do
    some (.bound (← record.key?) (.equation (← record.position? EquationId)))
  else none

/-- Whether a record is about something other than the index. -/
def IsAside (record : Record) : Prop :=
  record.message ≠ "clearing symbol table" ∧ record.message ≠ "created label" ∧
    record.message ≠ "declared equation"

theorem IsAside.change?_eq_none {record : Record} (aside : record.IsAside) :
    record.change? = none := by
  rcases aside with ⟨notClearing, notLabel, notEquation⟩
  rw [change?, if_neg notClearing, if_neg notLabel, if_neg notEquation]

/-- What can be read off the fields of a declaration: the key of the symbol and its handle. -/
theorem read_declarationFields {ι : Type} [Position ι] {record : Record} {name : String}
    {context : Context} {key : Key} {id : ι}
    (logged : record.fields = Event.declarationFields name context (Position.toNat id))
    (resolves : Key.resolve name context = .ok key) :
    record.key? = some key ∧ record.position? ι = some id := by
  have isName : record.text? "name" = some name := by
    simp [text?, logged, Event.declarationFields]
  have isContext : record.context? = some context := by
    simp [context?, number?, logged, Event.declarationFields, List.lookup_cons]
  have isNumber : record.number? "id" = some (Position.toNat id : Int) := by
    simp [number?, logged, Event.declarationFields, List.lookup_cons]
  have numbered : Position.numbered ι (Position.toNat id) = .ok id :=
    Position.numbered_eq_ok_iff.mpr rfl
  refine ⟨?_, ?_⟩
  · simp [key?, isName, isContext, resolves, Except.toOption]
  · simp [position?, isNumber, numbered, Except.toOption]

theorem change?_clearing (labels equations : Nat) :
    (Event.clearing labels equations).record.change? = some (.emptied labels equations) := by
  simp [change?, number?, Event.record, Event.message, Event.fields, List.lookup_cons]

theorem change?_createdLabel {name : String} {context : Context} {key : Key}
    (resolves : Key.resolve name context = .ok key) (id : LabelId) :
    (Event.createdLabel name context id).record.change? = some (.bound key (.label id)) := by
  let record := (Event.createdLabel name context id).record
  have isMessage : record.message = "created label" := rfl
  have read : record.key? = some key ∧ record.position? LabelId = some id :=
    read_declarationFields rfl resolves
  change record.change? = _
  simp [change?, isMessage, read]

theorem change?_declaredEquation {name : String} {context : Context} {key : Key}
    (resolves : Key.resolve name context = .ok key) (id : EquationId) :
    (Event.declaredEquation name context id).record.change? = some (.bound key (.equation id)) := by
  let record := (Event.declaredEquation name context id).record
  have isMessage : record.message = "declared equation" := rfl
  have read : record.key? = some key ∧ record.position? EquationId = some id :=
    read_declarationFields rfl resolves
  change record.change? = _
  simp [change?, isMessage, read]

theorem IsAside.of_event {event : Event} (aside : event.isAside = true) : event.record.IsAside := by
  cases event with
  | clearing | createdLabel | declaredEquation => cases aside
  | _ => simp [IsAside, Event.record, Event.message]

end Record

/-- What has been replayed of a log. -/
structure Replay where
  index : Std.TreeMap Key Entry := ∅
  /-- The number of labels bound since the last clearing. -/
  labels : Nat := 0
  /-- The number of equations bound since the last clearing. -/
  equations : Nat := 0

namespace Replay

/-- Binds a key to a symbol, which counts among the symbols of its kind. -/
def bind (replay : Replay) (key : Key) (entry : Entry) : Replay :=
  match entry with
  | .label _ =>
    { replay with index := replay.index.insert key entry, labels := replay.labels + 1 }
  | .equation _ =>
    { replay with index := replay.index.insert key entry, equations := replay.equations + 1 }

/-- Replays one record. -/
def add (replay : Replay) (record : Record) : Replay :=
  match record.change? with
  | some (.emptied _ _) => {}
  | some (.bound key entry) => replay.bind key entry
  | none => replay

/-- Replays a log from its beginning. -/
def ofLog (log : List Record) : Replay := log.foldl add {}

/-- Whether a record suits what was replayed before it. A declaration is of a key that is free, and
issues the next handle of its kind. A clearing counts the symbols bound since the last one. -/
structure Admits (replay : Replay) (record : Record) : Prop where
  clearing : record.message = "clearing symbol table" →
    record.change? = some (.emptied replay.labels replay.equations)
  label : record.message = "created label" →
    ∃ key id, record.change? = some (.bound key (.label id)) ∧ replay.index[key]? = none ∧
      Position.toNat id = replay.labels
  equation : record.message = "declared equation" →
    ∃ key id, record.change? = some (.bound key (.equation id)) ∧ replay.index[key]? = none ∧
      Position.toNat id = replay.equations

/-- A log whose records suit what comes before them leads from one replay to another. -/
inductive Follows : Replay → List Record → Replay → Prop where
  | nil (replay : Replay) : Follows replay [] replay
  | cons {replay final : Replay} {record : Record} {records : List Record}
      (admits : replay.Admits record) (later : Follows (replay.add record) records final) :
      Follows replay (record :: records) final

variable {replay middle final : Replay}

theorem Follows.append {records others : List Record} (first : Follows replay records middle)
    (second : Follows middle others final) : Follows replay (records ++ others) final := by
  induction first with
  | nil => exact second
  | cons admits _ ih => exact .cons admits (ih second)

theorem Follows.foldl_add {records : List Record} (follows : Follows replay records final) :
    records.foldl add replay = final := by
  induction follows with
  | nil => rfl
  | cons _ _ ih => exact ih

theorem Follows.admits {earlier later : List Record} {record : Record}
    (follows : Follows replay (earlier ++ record :: later) final) :
    (earlier.foldl add replay).Admits record := by
  induction earlier generalizing replay with
  | nil =>
      cases follows with
      | cons admits _ => exact admits
  | cons first earlier ih =>
      cases follows with
      | cons _ follows => exact ih follows

theorem follows_of_isAside {records : List Record} (aside : ∀ record ∈ records, record.IsAside) :
    Follows replay records replay := by
  induction records with
  | nil => exact .nil replay
  | cons record records ih =>
      rcases List.forall_mem_cons.mp aside with ⟨isAside, asideLater⟩
      refine .cons ⟨?_, ?_, ?_⟩ ?_
      · intro isClearing
        exact absurd isClearing isAside.1
      · intro isLabel
        exact absurd isLabel isAside.2.1
      · intro isEquation
        exact absurd isEquation isAside.2.2
      · rw [add, isAside.change?_eq_none]
        exact ih asideLater

end Replay

/-- The records of what an operation reports. -/
def Outcome.records {α : Type} (outcome : Outcome α) : List Record :=
  outcome.events.map Event.record

namespace Table

open Declaration

/-- What a replay has reached when it is as far as a table. -/
def replayed (table : Table) : Replay where
  index := table.index
  labels := table.labels.size
  equations := table.equations.size

theorem SameSymbols.replayed_eq {before after : Table} (same : before.SameSymbols after) :
    after.replayed = before.replayed := by
  rcases same with ⟨_, sameIndex, sameEquations, sameNames⟩
  have sameSize : after.labels.size = before.labels.size := by
    simpa using congrArg List.length sameNames
  simp only [replayed, sameIndex, sameEquations, sameSize]

theorem follows_of_sameSymbols {α : Type} {table : Table} {outcome : Outcome α}
    (same : table.SameSymbols outcome.table)
    (aside : ∀ event ∈ outcome.events, event.isAside = true) :
    table.replayed.Follows outcome.records outcome.table.replayed := by
  rw [same.replayed_eq]
  apply Replay.follows_of_isAside
  intro record recordMem
  rcases List.mem_map.mp recordMem with ⟨event, eventMem, rfl⟩
  exact .of_event (aside event eventMem)

variable {table : Table} {name replacement : String} {context : Context} {key : Key}

theorem follows_createdLabel {labels : Arena LabelId Label} {id : LabelId}
    (resolves : Key.resolve name context = .ok key) (free : table.index[key]? = none)
    (pushes : table.labels.push { name } = .ok (labels, id)) :
    table.replayed.Follows [(Event.createdLabel name context id).record]
      (replayed { table with labels, index := table.index.insert key (.label id) }) := by
  have logged := Record.change?_createdLabel resolves id
  have number := (Arena.push_eq_ok_iff.mp pushes).2.2
  refine .cons ⟨?_, ?_, ?_⟩ ?_
  · intro isClearing
    simp [Event.record, Event.message] at isClearing
  · intro _
    exact ⟨key, id, logged, free, number⟩
  · intro isEquation
    simp [Event.record, Event.message] at isEquation
  · simp only [Replay.add, logged, Replay.bind, replayed, Arena.size_of_push pushes]
    exact .nil _

theorem follows_declaredEquation {equations : Arena EquationId Equation} {id : EquationId}
    (resolves : Key.resolve name context = .ok key) (free : table.index[key]? = none)
    (pushes : table.equations.push ⟨name, replacement, context⟩ = .ok (equations, id)) :
    table.replayed.Follows [(Event.declaredEquation name context id).record]
      (replayed { table with equations, index := table.index.insert key (.equation id) }) := by
  have logged := Record.change?_declaredEquation resolves id
  have number := (Arena.push_eq_ok_iff.mp pushes).2.2
  refine .cons ⟨?_, ?_, ?_⟩ ?_
  · intro isClearing
    simp [Event.record, Event.message] at isClearing
  · intro isLabel
    simp [Event.record, Event.message] at isLabel
  · intro _
    exact ⟨key, id, logged, free, number⟩
  · simp only [Replay.add, logged, Replay.bind, replayed, Arena.size_of_push pushes]
    exact .nil _

theorem follows_clear (table : Table) :
    table.replayed.Follows table.clear.records table.clear.table.replayed := by
  have logged := Record.change?_clearing table.labels.size table.equations.size
  refine .cons ⟨?_, ?_, ?_⟩ ?_
  · intro _
    exact logged
  · intro isLabel
    simp [Event.record, Event.message] at isLabel
  · intro isEquation
    simp [Event.record, Event.message] at isEquation
  · simp only [Replay.add, logged]
    exact .nil _

theorem follows_labelFor (table : Table) (name : String) (context : Context) :
    table.replayed.Follows (table.labelFor name context).records
      (table.labelFor name context).table.replayed := by
  have call := table.labelCall name context
  generalize table.labelFor name context = outcome at call ⊢
  cases call with
  | invalid => exact follows_of_sameSymbols (.refl table) (by simp [Event.isAside])
  | known => exact .nil _
  | conflict => exact follows_of_sameSymbols (.refl table) (by simp [Event.isAside])
  | full => exact .nil _
  | made resolves free pushes => exact follows_createdLabel resolves free pushes

theorem follows_declareEquation (table : Table) (name : String) (context : Context)
    (replacement : String) :
    table.replayed.Follows (table.declareEquation name context replacement).records
      (table.declareEquation name context replacement).table.replayed := by
  have call := table.equationCall name context replacement
  generalize table.declareEquation name context replacement = outcome at call ⊢
  cases call with
  | invalid => exact follows_of_sameSymbols (.refl table) (by simp [Event.isAside])
  | redeclared => exact follows_of_sameSymbols (.refl table) (by simp [Event.isAside])
  | full => exact .nil _
  | made resolves free pushes => exact follows_declaredEquation resolves free pushes

theorem events_defineLabel (table : Table) (id : LabelId) (value : Int64) :
    (table.defineLabel id value).events = [] := by
  unfold defineLabel
  repeat' split
  all_goals rfl

theorem events_setLabelValue (table : Table) (id : LabelId) (value : Int64) :
    (table.setLabelValue id value).events = [] := by
  unfold setLabelValue
  split <;> rfl

theorem isAside_of_mem_exportListing {path : String} {destination : Storage.Destination}
    {event : Event} (eventMem : event ∈ (table.exportListing path destination).events) :
    event.isAside = true := by
  unfold exportListing at eventMem
  split at eventMem
  · obtain rfl := List.mem_singleton.mp eventMem
    rfl
  · split at eventMem
    · obtain rfl := List.mem_singleton.mp eventMem
      rfl
    · obtain rfl := List.mem_singleton.mp eventMem
      rfl

theorem follows_perform (table : Table) (operation : Operation) :
    table.replayed.Follows (table.perform operation).records
      (table.perform operation).table.replayed := by
  cases operation with
  | labelFor name context => exact table.follows_labelFor name context
  | declareEquation name context replacement =>
      exact table.follows_declareEquation name context replacement
  | clear => exact table.follows_clear
  | defineLabel id value =>
      apply follows_of_sameSymbols (table.sameSymbols_defineLabel id value)
      simp [events_defineLabel]
  | setLabelValue id value =>
      apply follows_of_sameSymbols (table.sameSymbols_setLabelValue id value)
      simp [events_setLabelValue]
  | substitute line context =>
      apply follows_of_sameSymbols (.refl table)
      intro event eventMem
      rcases List.mem_filterMap.mp eventMem with ⟨piece, _, replaces⟩
      rcases Option.map_eq_some_iff.mp replaces with ⟨equation, _, rfl⟩
      rfl
  | freshName =>
      have same : table.SameSymbols table.freshName.table := ⟨rfl, rfl, rfl, rfl⟩
      apply follows_of_sameSymbols same
      intro event eventMem
      rcases List.mem_map.mp eventMem with ⟨name, _, rfl⟩
      rfl
  | exportListing path destination =>
      have sameTable := table.table_exportListing path destination
      apply follows_of_sameSymbols
      · change table.SameSymbols (table.exportListing path destination).table
        exact sameTable.symm ▸ .refl table
      · intro event eventMem
        exact isAside_of_mem_exportListing eventMem
  | _ => exact .nil _

/-- The records of a run, in order. -/
def log (table : Table) (operations : List Operation) : List Record :=
  (table.run operations).flatMap Outcome.records

/-- The log of a run is replayed one operation after the other: each replay ends where the table
then is, and there the next one begins. -/
theorem follows_log (table : Table) (operations : List Operation) :
    table.replayed.Follows (table.log operations) (table.after operations).replayed := by
  induction operations generalizing table with
  | nil => exact .nil _
  | cons operation operations ih =>
      exact (table.follows_perform operation).append (ih (table.perform operation).table)

/-- Whether a call is reported by one record for debugging, with the name of the call. -/
def ReportsRefusal {α : Type} (outcome : Outcome α) (name : String) : Prop :=
  ∃ record, outcome.records = [record] ∧ record.level = .debug ∧ record.text? "name" = some name

/-- Whether a call is reported when it is refused, and not when it only looks something up. -/
def ReportsProperly (table : Table) : Operation → Prop
  | .labelFor name context =>
    (∀ refusal, (table.labelFor name context).answer = .error refusal →
      ReportsRefusal (table.labelFor name context) name) ∧
    ∀ id, table.findLabel? name context = some id →
      (table.labelFor name context).answer = .ok id ∧ (table.labelFor name context).records = []
  | .declareEquation name context replacement =>
    ∀ refusal, (table.declareEquation name context replacement).answer = .error refusal →
      ReportsRefusal (table.declareEquation name context replacement) name
  | .findLabel name context => (table.perform (.findLabel name context)).records = []
  | .declares name context => (table.perform (.declares name context)).records = []
  | _ => True

/-- Whether there is a handle left for what an operation declares. -/
def RoomFor (table : Table) (operation : Operation) : Prop :=
  ∀ declaration, operation.declaration? = some declaration →
    table.index[declaration.key]? = none → table.count declaration.symbol.kind < UInt32.size

theorem reportsProperly_labelFor (room : table.RoomFor (.labelFor name context)) :
    table.ReportsProperly (.labelFor name context) := by
  have call := table.labelCall name context
  simp only [ReportsProperly]
  generalize table.labelFor name context = outcome at call ⊢
  cases call with
  | invalid isInvalid =>
      refine ⟨fun _ _ => ⟨_, rfl, rfl, rfl⟩, ?_⟩
      intro id found
      simp [findLabel?, table.entry?_of_invalid isInvalid context] at found
  | known resolves bound =>
      refine ⟨?_, ?_⟩
      · intro refusal refused
        cases refused
      · intro id found
        simp only [findLabel?, table.entry?_of_resolve resolves, bound, Option.some.injEq] at found
        exact ⟨congrArg Except.ok found, rfl⟩
  | conflict resolves bound =>
      refine ⟨fun _ _ => ⟨_, rfl, rfl, rfl⟩, ?_⟩
      intro id found
      simp [findLabel?, table.entry?_of_resolve resolves, bound] at found
  | full resolves free refuses =>
      have enough := room _ (Operation.declaration?_labelFor resolves) free
      exact absurd (Arena.size_eq_limit_of_push refuses) (Nat.ne_of_lt enough)
  | made resolves free pushes =>
      refine ⟨?_, ?_⟩
      · intro refusal refused
        cases refused
      · intro id found
        simp [findLabel?, table.entry?_of_resolve resolves, free] at found

theorem reportsProperly_declareEquation
    (room : table.RoomFor (.declareEquation name context replacement)) :
    table.ReportsProperly (.declareEquation name context replacement) := by
  have call := table.equationCall name context replacement
  intro refusal refused
  generalize table.declareEquation name context replacement = outcome at call refused ⊢
  cases call with
  | invalid => exact ⟨_, rfl, rfl, rfl⟩
  | redeclared => exact ⟨_, rfl, rfl, rfl⟩
  | full resolves free refuses =>
      have enough := room _ (Operation.declaration?_declareEquation resolves) free
      exact absurd (Arena.size_eq_limit_of_push refuses) (Nat.ne_of_lt enough)
  | made => cases refused

theorem RoomFor.reportsProperly {operation : Operation} (room : table.RoomFor operation) :
    table.ReportsProperly operation := by
  cases operation with
  | labelFor name context => exact reportsProperly_labelFor room
  | declareEquation name context replacement => exact reportsProperly_declareEquation room
  | findLabel name context => rfl
  | declares name context => rfl
  | _ => trivial

/-- Whether handles are left throughout a run for all symbols declared since the last clearing. -/
def HasRoomThroughout (operations : List Operation) : Prop :=
  ∀ earlier, earlier <+: operations → HasRoom (requested earlier)

/-- Room throughout a run is room for each of its operations, as the prefix that ends with an
operation counts the declaration that it asks for. -/
theorem HasRoomThroughout.roomFor {operations : List Operation}
    (room : HasRoomThroughout operations) {settings : Settings} {earlier : List Operation}
    {operation : Operation} (isPrefix : earlier ++ [operation] <+: operations) :
    (({ settings } : Table).after earlier).RoomFor operation := by
  intro declaration asks free
  have records := records_after settings earlier
    (room earlier ((List.prefix_append earlier [operation]).trans isPrefix))
  apply records.count_lt_size free
  have enough := room _ isPrefix
  have noClear : operation.isClear = false := by
    cases operation with
    | clear => cases asks
    | _ => rfl
  rw [requested_concat, noClear, asks] at enough
  exact enough

/-- Replaying the log of a run gives the index after it. In the log every declaration is of a free
key and issues the next handle of its kind, and every clearing counts the symbols declared since the
last one. Refused calls leave one record for debugging with their name, and looking up leaves
none. -/
theorem log_determines_index (settings : Settings) {operations : List Operation}
    (room : HasRoomThroughout operations) :
    let start : Table := { settings }
    (Replay.ofLog (start.log operations)).index = (start.after operations).index ∧
    (∀ earlier record later, start.log operations = earlier ++ record :: later →
      (Replay.ofLog earlier).Admits record) ∧
    ∀ earlier operation, earlier ++ [operation] <+: operations →
      (start.after earlier).ReportsProperly operation := by
  intro start
  have follows : Replay.Follows {} (start.log operations) (start.after operations).replayed :=
    start.follows_log operations
  refine ⟨?_, ?_, ?_⟩
  · exact congrArg Replay.index follows.foldl_add
  · intro earlier record later isLog
    exact (isLog ▸ follows).admits
  · intro earlier operation isPrefix
    exact (room.roomFor isPrefix).reportsProperly

/-- After a clearing the replay finds the label `@x` of another file, with the first handle. -/
theorem log_determines_index_after_clear :
    let operations : List Operation :=
      [.labelFor "@x" ⟨1, 0⟩, .clear, .declareEquation "SIZE" ⟨3, 1⟩ "16", .labelFor "SIZE" ⟨4, 4⟩,
        .labelFor "@x" ⟨2, 7⟩, .labelFor "9" ⟨0, 0⟩, .substitute "SIZE" ⟨3, 1⟩,
        .labelFor "@x" ⟨2, 0⟩]
    HasRoomThroughout operations ∧
      (Replay.ofLog (({} : Table).log operations)).index[(⟨2, -1, "@x"⟩ : Key)]? =
        some (.label ⟨0⟩) := by
  intro operations
  have room : HasRoomThroughout operations := by
    have everyPrefix : ∀ earlier ∈ operations.inits,
        countKind .label (firsts (requested earlier)) ≤ UInt32.size ∧
          countKind .equation (firsts (requested earlier)) ≤ UInt32.size := by
      decide +kernel
    intro earlier isPrefix kind
    rcases everyPrefix earlier ((List.mem_inits earlier operations).mpr isPrefix) with
      ⟨labelRoom, equationRoom⟩
    cases kind with
    | label => exact labelRoom
    | equation => exact equationRoom
  have replays := (log_determines_index {} room).1
  refine ⟨room, ?_⟩
  rw [replays]
  decide +kernel

end Table

end Symtab
