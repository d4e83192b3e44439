import TopicRegistry.Document
import TopicRegistry.Error
import TopicRegistry.Topic.Level

/-!
# Configuration of a registry

Three switches say which kinds of subscriptions a registry accepts at all, and two limits bound
how many subscriptions one client may hold and how deep a filter may be. A limit of zero means
that there is none. The only configuration that is refused asks for a depth beyond what a text of
maximal size was meant to hold. A document may set any of the fields, in any order; what it leaves
out keeps its default. The text of a configuration sets all.
-/

namespace TopicRegistry

/-- What a registry accepts. -/
structure Config where
  sharedAvailable : Bool := true
  wildcardAvailable : Bool := true
  identifierAvailable : Bool := true
  maxSubscriptions : UInt64 := 0
  maxLevels : UInt64 := 0
  deriving DecidableEq

namespace Config

def Admissible (config : Config) : Prop :=
  config.maxLevels.toNat ≤ Topic.maxLevels

instance (config : Config) : Decidable config.Admissible :=
  inferInstanceAs (Decidable (_ ≤ _))

def check (config : Config) : Except RegistryError Config :=
  if config.Admissible then .ok config
  else .error
    (.configuration ("max_topic_levels must not exceed " ++ toString Topic.maxLevels))

inductive Field where
  | sharedAvailable
  | wildcardAvailable
  | identifierAvailable
  | maxSubscriptions
  | maxLevels
  deriving DecidableEq

namespace Field

def all : List Field :=
  [sharedAvailable, wildcardAvailable, identifierAvailable, maxSubscriptions, maxLevels]

def name : Field → String
  | sharedAvailable => "shared_subscription_available"
  | wildcardAvailable => "wildcard_subscription_available"
  | identifierAvailable => "subscription_identifier_available"
  | maxSubscriptions => "max_subscriptions_per_client"
  | maxLevels => "max_topic_levels"

def kind : Field → FieldKind
  | sharedAvailable | wildcardAvailable | identifierAvailable => .flag
  | maxSubscriptions | maxLevels => .count

theorem mem_all (field : Field) : field ∈ all := by
  cases field <;> decide

theorem name_injective : Function.Injective name := by
  intro a b same
  cases a <;> cases b <;> first | rfl | simp [name] at same

end Field

def schema : Schema where
  Field := Field
  all := Field.all
  name := Field.name
  kind := Field.kind
  mem_all := Field.mem_all
  nodup_all := by decide
  name_injective := Field.name_injective

def get (config : Config) : (field : Field) → field.kind.Value
  | .sharedAvailable => config.sharedAvailable
  | .wildcardAvailable => config.wildcardAvailable
  | .identifierAvailable => config.identifierAvailable
  | .maxSubscriptions => config.maxSubscriptions
  | .maxLevels => config.maxLevels

def ofRecord (record : (field : Field) → field.kind.Value) : Config where
  sharedAvailable := record .sharedAvailable
  wildcardAvailable := record .wildcardAvailable
  identifierAvailable := record .identifierAvailable
  maxSubscriptions := record .maxSubscriptions
  maxLevels := record .maxLevels

def ofSource (documents : Documents) (source : documents.Source) : Except String Config :=
  (documents.record schema (some (get {})) source).map ofRecord

def ofJson (documents : Documents) (text : String) : Except String Config :=
  ofSource documents (documents.json text)

def toJson (documents : Documents) (config : Config) : String :=
  documents.write schema config.get

/-! ## Files

A configuration is read from a file whose name decides about the format: TOML if its extension is
`toml`, JSON otherwise. Reading fails if the file cannot be read or is no text, if it is not a
document of its format that fits the fields, or if the configuration is not admissible. The words
of those who read the file and the document are handed on.
-/

/-- What stands behind the last dot of a file name, unless nothing stands in front of that dot. -/
def extension? (fileName : String) : Option String :=
  let reversed := fileName.toList.reverse
  match reversed.dropWhile (· ≠ '.') with
  | _ :: _ :: _ => some (String.ofList (reversed.takeWhile (· ≠ '.')).reverse)
  | _ => none

variable (documents : Documents)

def parse (fileName text : String) : Except RegistryError Config :=
  if extension? fileName = some "toml" then
    match ofSource documents (documents.toml text) with
    | .ok config => .ok config
    | .error reason => .error (.configuration ("Invalid TOML config: " ++ reason))
  else
    match ofJson documents text with
    | .ok config => .ok config
    | .error reason => .error (.configuration ("Invalid JSON config: " ++ reason))

/-- Read an admissible configuration from a file of a given name. What is in the file is given by
its bytes, or there is a reason why it cannot be read. -/
def load (fileName : String) (content : Except String ByteArray) : Except RegistryError Config :=
  match content with
  | .error reason => .error (.io ("Failed to read config file: " ++ reason))
  | .ok bytes =>
    match String.fromUTF8? bytes with
    | none => .error (.io "Failed to read config file: stream did not contain valid UTF-8")
    | some text =>
      match parse documents fileName text with
      | .error e => .error e
      | .ok config => config.check

example : extension? "a.json.toml" = some "toml" := by decide
example : extension? ".toml" = none := by decide

end Config

end TopicRegistry
