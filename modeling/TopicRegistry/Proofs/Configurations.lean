import TopicRegistry.Config
import TopicRegistry.Proofs.Documents
import TopicRegistry.Registry.Basic

/-!
# Configurations survive their JSON form

A document may set any of the fields of a configuration, in any order. Whatever lawful reader it is
read by, it gives the configuration that has these fields as they were and the defaults elsewhere,
since no two fields share a name and no name needs an escape. Loading a file judges a configuration
once more after reading it, by the one check that a registry makes too: a configuration that was
loaded is one to start with.
-/

namespace TopicRegistry

namespace Config

theorem Field.unescaped_name (field : Field) : Json.Unescaped field.name.toList := by
  cases field <;> simp [name, Json.Unescaped]

theorem get_ofRecord (record : schema.Record) : (ofRecord record).get = record := by
  funext field
  cases field <;> rfl

/-- What is claimed of a configuration in JSON, and of those that come from files. -/
structure Kept (documents : Documents) (config : Config) : Prop where
  /-- Any fields, written in any order, are read as they were and the others as their defaults. -/
  parts : ∀ fields : List Field, fields.Nodup →
    ∃ read, ofJson documents (Json.compact (schema.entries config.get fields)) = .ok read ∧
      ∀ field, read.get field = if field ∈ fields then config.get field else get {} field
  /-- The text of the configuration is read as the configuration. -/
  whole : ofJson documents (config.toJson documents) = .ok config
  /-- A file with this text that is not named as TOML is loaded if the depth asked for is
  admissible, and refused otherwise. -/
  filed : ∀ fileName, extension? fileName ≠ some "toml" →
    load documents fileName (.ok (config.toJson documents).toUTF8) =
      if config.maxLevels.toNat ≤ Topic.maxLevels then .ok config
      else .error
        (.configuration ("max_topic_levels must not exceed " ++ toString Topic.maxLevels))
  /-- A registry starts with any configuration that is loaded, from whatever file. -/
  startable : ∀ fileName content loaded, load documents fileName content = .ok loaded →
    Registry.ofConfig loaded = .ok { config := loaded }

section Reading

variable {documents : Documents} (lawful : documents.Lawful)
include lawful

theorem exists_ofJson_compact (config : Config) {fields : List Field} (distinct : fields.Nodup) :
    ∃ read, ofJson documents (Json.compact (schema.entries config.get fields)) = .ok read ∧
      ∀ field, read.get field = if field ∈ fields then config.get field else get {} field := by
  obtain ⟨record, answered, set, unset⟩ := Documents.record_compact lawful schema
    (some (get {})) Field.unescaped_name config.get distinct nofun
  refine ⟨ofRecord record, congrArg (Except.map ofRecord) answered, ?_⟩
  intro field
  rw [get_ofRecord]
  by_cases there : field ∈ fields
  · rw [if_pos there]
    exact set field there
  · rw [if_neg there]
    exact unset field there _ rfl

theorem ofJson_toJson (config : Config) :
    ofJson documents (config.toJson documents) = .ok config := by
  have read := Documents.record_write lawful schema (some (get {})) Field.unescaped_name config.get
  exact congrArg (Except.map ofRecord) read

end Reading

section Files

variable {documents : Documents}

theorem fromUTF8?_toUTF8 (text : String) : String.fromUTF8? text.toUTF8 = some text :=
  dif_pos text.isValidUTF8

theorem load_toJson (lawful : documents.Lawful) (config : Config) {fileName : String}
    (json : extension? fileName ≠ some "toml") :
    load documents fileName (.ok (config.toJson documents).toUTF8) = config.check := by
  simp only [load, fromUTF8?_toUTF8, parse, if_neg json, ofJson_toJson lawful]

theorem check_eq_ok_iff {config answer : Config} :
    config.check = .ok answer ↔ config.Admissible ∧ config = answer := by
  rw [check]
  split <;> simp_all

/-- A configuration is loaded if the file can be read, is a text, is a document about it and asks
for an admissible depth. -/
theorem load_eq_ok_iff {fileName : String} {content : Except String ByteArray} {config : Config} :
    load documents fileName content = .ok config ↔
      ∃ bytes text, content = .ok bytes ∧ String.fromUTF8? bytes = some text ∧
        parse documents fileName text = .ok config ∧ config.Admissible := by
  constructor
  · intro loaded
    cases content with
    | error reason => cases loaded
    | ok bytes =>
      rw [load] at loaded
      cases decoded : String.fromUTF8? bytes with
      | none => simp [decoded] at loaded
      | some text =>
        cases parsed : parse documents fileName text with
        | error e => simp [decoded, parsed] at loaded
        | ok found =>
          simp only [decoded, parsed] at loaded
          obtain ⟨admissible, rfl⟩ := check_eq_ok_iff.mp loaded
          exact ⟨bytes, text, rfl, decoded, parsed, admissible⟩
  · rintro ⟨bytes, text, rfl, decoded, parsed, admissible⟩
    simp only [load, decoded, parsed]
    exact check_eq_ok_iff.mpr ⟨admissible, rfl⟩

/-- A registry starts with any configuration that was loaded. -/
theorem ofConfig_of_load {fileName : String} {content : Except String ByteArray} {config : Config}
    (loaded : load documents fileName content = .ok config) :
    Registry.ofConfig config = .ok { config } := by
  obtain ⟨-, -, -, -, -, admissible⟩ := load_eq_ok_iff.mp loaded
  have passed : config.check = .ok config := check_eq_ok_iff.mpr ⟨admissible, rfl⟩
  rw [Registry.ofConfig, passed]

end Files

/-- Lawful documents keep every configuration, with any limits of 64 bits. -/
theorem kept_by_json {documents : Documents} (lawful : documents.Lawful) (config : Config) :
    config.Kept documents where
  parts _ distinct := exists_ofJson_compact lawful config distinct
  whole := ofJson_toJson lawful config
  filed fileName json := by
    rw [load_toJson lawful config json]
    rfl
  startable _ _ _ := ofConfig_of_load

/-- No shared subscriptions, as many subscriptions as a word can count, and a depth that is not
admissible any more. -/
def extreme : Config where
  sharedAvailable := false
  maxSubscriptions := 0xffffffffffffffff
  maxLevels := 32769

theorem kept_by_json_extreme :
    Documents.standard.Lawful ∧ extreme.Kept .standard ∧
      load .standard "store.json" (.ok (extreme.toJson .standard).toUTF8) =
        .error (.configuration "max_topic_levels must not exceed 32768") := by
  have kept := kept_by_json Documents.standard_lawful extreme
  refine ⟨Documents.standard_lawful, kept, ?_⟩
  exact kept.filed "store.json" (by decide)

end Config

end TopicRegistry
