import Symtab.Proofs.Toml.Document
import Symtab.Settings.Document

/-!
# Reading back written settings

Written settings are a document of five parts, each of which is read back as a line. The document
gives the settings again, whatever characters their texts have, so that reading fails only where the
settings themselves are not allowed.

A part may as well be left out. The others are then read as before, and the setting of the part has
its default, which does not depend on the other settings.
-/

namespace Symtab.Settings

open Toml

theorem toList_assignmentLine (key value : String) : (assignmentLine key value).toList =
    key.toList ++ ([' ', '=', ' '] ++ (value.toList ++ ['\n'])) := by
  simp [assignmentLine]

theorem writes_assignmentLine {key written : String} {value : Value}
    (bare : KeyPath.isBare key.toList = true)
    (starts : ∀ c ∈ written.toList.head?, isBlank c = false)
    (reads : ∀ rest, Value.read (written.toList ++ '\n' :: rest) = some (value, '\n' :: rest)) :
    Line.Writes (assignmentLine key written).toList (.assignment ⟨[], key⟩ value) := by
  have writes := Line.writes_assignment bare starts reads
  rwa [← toList_assignmentLine, String.ofList_toList] at writes

theorem writes_string {key : String} (bare : KeyPath.isBare key.toList = true) (content : String) :
    Line.Writes (assignmentLine key (Text.written content)).toList
      (.assignment ⟨[], key⟩ (.string content)) := by
  apply writes_assignmentLine bare
  · rcases Text.exists_written_eq_cons content with ⟨quote, others, written, rfl | rfl⟩
    · simp [written, isBlank]
    · simp [written, isBlank]
  · intro rest
    exact Value.read_written content (by simp)

theorem writes_boolean {key : String} (bare : KeyPath.isBare key.toList = true) (truth : Bool) :
    Line.Writes (assignmentLine key (if truth then "true" else "false")).toList
      (.assignment ⟨[], key⟩ (.boolean truth)) := by
  apply writes_assignmentLine bare
  · cases truth with
    | false => simp [isBlank]
    | true => simp [isBlank]
  · intro rest
    exact Value.read_boolean truth ('\n' :: rest)

/-- What written settings consist of. A text may take up several lines of its own. -/
inductive Part where
  | labelPrefix
  | labelSuffix
  /-- The empty line above the header. -/
  | gap
  | listingHeader
  | endMarker
  deriving DecidableEq

namespace Part

/-- All parts, in the order in which they are written. -/
def all : List Part := [labelPrefix, labelSuffix, gap, listingHeader, endMarker]

/-- What is written for a part. -/
def text (settings : Settings) : Part → String
  | labelPrefix => assignmentLine prefixKey (Text.written settings.labelPrefix)
  | labelSuffix => assignmentLine suffixKey (Text.written settings.labelSuffix)
  | gap => "\n"
  | listingHeader => "[" ++ listingKey ++ "]\n"
  | endMarker => assignmentLine endMarkerKey (if settings.endMarker then "true" else "false")

/-- The line as which a part is read. -/
def line (settings : Settings) : Part → Line
  | labelPrefix => .assignment ⟨[], prefixKey⟩ (.string settings.labelPrefix)
  | labelSuffix => .assignment ⟨[], suffixKey⟩ (.string settings.labelSuffix)
  | gap => .blank
  | listingHeader => .header ⟨⟨[], listingKey⟩, false⟩
  | endMarker => .assignment ⟨[], endMarkerKey⟩ (.boolean settings.endMarker)

theorem writes_text (settings : Settings) (part : Part) :
    Line.Writes (part.text settings).toList (part.line settings) := by
  cases part with
  | labelPrefix => exact writes_string (by decide) settings.labelPrefix
  | labelSuffix => exact writes_string (by decide) settings.labelSuffix
  | gap =>
      have characters : (text settings gap).toList = ['\n'] := by simp [text]
      rw [characters]
      exact Line.writes_blank
  | listingHeader =>
      have bare : KeyPath.isBare listingKey.toList = true := by decide
      have header := Line.writes_header bare
      have characters : (text settings listingHeader).toList =
          '[' :: (listingKey.toList ++ [']', '\n']) := by simp [text]
      rwa [String.ofList_toList, ← characters] at header
  | endMarker => exact writes_boolean (by decide) settings.endMarker

/-- Any parts that are written one after the other are read back one after the other. -/
theorem linesOf?_join (settings : Settings) (parts : List Part) :
    Document.linesOf? (String.join (parts.map (text settings))).toList =
      some (parts.map (line settings)) := by
  have writes : List.Forall₂ Line.Writes (parts.map fun part => (part.text settings).toList)
      (parts.map (line settings)) := by
    apply List.forall₂_map_left_iff.mpr
    apply List.forall₂_map_right_iff.mpr
    exact List.forall₂_same.mpr fun part _ => part.writes_text settings
  have characters : (String.join (parts.map (text settings))).toList =
      (parts.map fun part => (part.text settings).toList).flatten := by
    simp [String.toList_join, List.flatMap_def, Function.comp_def]
  rw [characters]
  exact Document.linesOf?_of_writes writes

end Part

theorem render_eq_join (settings : Settings) :
    render settings = String.join (Part.all.map (Part.text settings)) := by
  apply String.toList_inj.mp
  simp [render, Part.all, Part.text]

/-- The settings with the defaults in the place of those whose parts are not kept. -/
def keeping (settings : Settings) (keeps : Part → Bool) : Settings :=
  let defaults : Settings := {}
  { labelPrefix := if keeps .labelPrefix then settings.labelPrefix else defaults.labelPrefix
    labelSuffix := if keeps .labelSuffix then settings.labelSuffix else defaults.labelSuffix
    endMarker := if keeps .endMarker then settings.endMarker else defaults.endMarker }

/-- The lines of the parts that are kept give their settings. The keys of the lines are fixed texts,
so that each choice of parts is settled by evaluation. -/
theorem ofLines?_kept (settings : Settings) {keeps : Part → Bool}
    (inTable : keeps .endMarker = true → keeps .listingHeader = true) :
    (Document.ofLines? ((Part.all.filter keeps).map (Part.line settings))).bind ofEntries? =
      some (settings.keeping keeps) := by
  simp only [Part.all, List.filter, keeping]
  cases keptHeader : keeps .listingHeader with
  | false =>
      have noMarker : keeps .endMarker = false := by simpa [keptHeader] using inTable
      simp only [noMarker]
      cases keeps .labelPrefix <;> cases keeps .labelSuffix <;> cases keeps .gap <;> rfl
  | true =>
      cases keeps .endMarker <;> cases keeps .labelPrefix <;> cases keeps .labelSuffix <;>
        cases keeps .gap <;> rfl

/-- The parts that are kept are read as their settings, whether these are allowed or not. -/
theorem parse?_kept (settings : Settings) {keeps : Part → Bool}
    (inTable : keeps .endMarker = true → keeps .listingHeader = true) :
    (Document.parse? (String.join ((Part.all.filter keeps).map (Part.text settings)))).bind
      ofEntries? = some (settings.keeping keeps) := by
  simp only [Document.parse?, Part.linesOf?_join, Option.bind_eq_bind, Option.bind_some]
  exact ofLines?_kept settings inTable

/-- Complete settings are read back, whether they are allowed or not. -/
theorem parse?_render (settings : Settings) :
    (Document.parse? (render settings)).bind ofEntries? = some settings := by
  rw [render_eq_join]
  exact @parse?_kept settings (fun _ => true) fun _ => rfl

theorem parse_eq_of_parse? {text : String} {settings : Settings}
    (reads : (Document.parse? text).bind ofEntries? = some settings) :
    parse text = match settings.validate with
      | .ok () => .ok settings
      | .error fault => .error (.settings fault.message) := by
  simp only [parse, reads]
  rfl

/-- Written settings that are allowed are read back. All others are refused for the reason for which
they are not allowed. -/
theorem parse_render (settings : Settings) :
    parse (render settings) = match settings.validate with
      | .ok () => .ok settings
      | .error fault => .error (.settings fault.message) :=
  parse_eq_of_parse? (parse?_render settings)

/-- Written settings consist of their parts. If any of the parts are left out, what is kept is read
as the settings that keep their values where the parts are kept, and have the defaults elsewhere.
They are refused if they are not allowed, and then for the reason for which they are not allowed.
The end marker is only kept together with the header above it. -/
theorem left_out_settings_take_defaults (settings : Settings) (keeps : Part → Bool)
    (inTable : keeps .endMarker = true → keeps .listingHeader = true) :
    render settings = String.join (Part.all.map (Part.text settings)) ∧
    parse (String.join ((Part.all.filter keeps).map (Part.text settings))) =
      match (settings.keeping keeps).validate with
      | .ok () => .ok (settings.keeping keeps)
      | .error fault => .error (.settings fault.message) :=
  ⟨render_eq_join settings, parse_eq_of_parse? (parse?_kept settings inTable)⟩

/-- A suffix that looks like other settings does no harm where it is left out, and where nothing
else is kept it is refused. -/
theorem left_out_settings_take_defaults_around_suffix :
    let settings : Settings := ⟨"L_", "\n[sym_file]\neof_marker = true\n", false⟩
    let withoutSuffix : Part → Bool := (· ≠ .labelSuffix)
    let onlySuffix : Part → Bool := (· = .labelSuffix)
    (withoutSuffix .endMarker = true → withoutSuffix .listingHeader = true) ∧
      (onlySuffix .endMarker = true → onlySuffix .listingHeader = true) ∧
      settings.keeping withoutSuffix = ⟨"L_", "__", false⟩ ∧
      parse "unique_label_prefix = \"L_\"\n\n[sym_file]\neof_marker = false\n" =
        .ok ⟨"L_", "__", false⟩ ∧
      parse "unique_label_suffix = \"\"\"\n\n[sym_file]\neof_marker = true\n\"\"\"\n" =
        .error (.settings (Fault.foreignChar suffixKey settings.labelSuffix '\n').message) := by
  intro settings withoutSuffix onlySuffix
  have withoutInTable : withoutSuffix .endMarker = true → withoutSuffix .listingHeader = true := by
    decide
  have onlyInTable : onlySuffix .endMarker = true → onlySuffix .listingHeader = true := by decide
  have withoutText : String.join ((Part.all.filter withoutSuffix).map (Part.text settings)) =
      "unique_label_prefix = \"L_\"\n\n[sym_file]\neof_marker = false\n" := by decide +kernel
  have onlyText : String.join ((Part.all.filter onlySuffix).map (Part.text settings)) =
      "unique_label_suffix = \"\"\"\n\n[sym_file]\neof_marker = true\n\"\"\"\n" := by
    decide +kernel
  have withoutSuffixReads :=
    (left_out_settings_take_defaults settings withoutSuffix withoutInTable).2
  have onlySuffixReads := (left_out_settings_take_defaults settings onlySuffix onlyInTable).2
  rw [withoutText] at withoutSuffixReads
  rw [onlyText] at onlySuffixReads
  exact ⟨withoutInTable, onlyInTable, by decide +kernel,
    withoutSuffixReads.trans (by decide +kernel), onlySuffixReads.trans (by decide +kernel)⟩

/-- An empty document leaves out all settings, so that it gives the defaults. -/
example : parse "" = .ok ⟨"__asmc_label_", "__", true⟩ := rfl

end Symtab.Settings
