/-!
# Documents about records

Configurations and counters are flat records: every field is a switch or a 64-bit number and has a
name by which a document sets it. How the text of a document is read and written is not said here.
`Documents` is whatever does that, and what is claimed of documents is claimed of all `Documents`
that are lawful: they read and write objects of switches and numbers as JSON spells them, and a
member of an object sets the field of its name.
-/

namespace TopicRegistry

inductive FieldKind where
  | flag
  | count
  deriving DecidableEq

abbrev FieldKind.Value : FieldKind → Type
  | flag => Bool
  | count => UInt64

inductive Scalar where
  | flag (value : Bool)
  | count (value : UInt64)
  deriving DecidableEq

def FieldKind.scalar : (kind : FieldKind) → kind.Value → Scalar
  | flag, value => .flag value
  | count, value => .count value

abbrev Entries := List (String × Scalar)

/-- The fields of a record in their order of declaration. -/
structure Schema where
  Field : Type
  all : List Field
  name : Field → String
  kind : Field → FieldKind
  mem_all : ∀ field, field ∈ all
  nodup_all : all.Nodup
  name_injective : Function.Injective name

namespace Schema

variable (schema : Schema)

abbrev Record : Type := (field : schema.Field) → (schema.kind field).Value

def member (field : schema.Field) (value : (schema.kind field).Value) : String × Scalar :=
  (schema.name field, (schema.kind field).scalar value)

def entries (record : schema.Record) (fields : List schema.Field) : Entries :=
  fields.map fun field => schema.member field (record field)

end Schema

namespace Json

/-- No character of the text is an escape or needs one. -/
def Unescaped (text : List Char) : Prop :=
  ∀ c ∈ text, ¬c < ' ' ∧ c ≠ '"' ∧ c ≠ '\\'

/-- A name between quotes, for names that need no escapes. -/
def quote (name : String) : List Char :=
  '"' :: name.toList ++ ['"']

def spellScalar : Scalar → List Char
  | .flag value => if value then "true".toList else "false".toList
  | .count value => Nat.toDigits 10 value.toNat

def spellMember (entry : String × Scalar) : List Char :=
  quote entry.1 ++ ':' :: spellScalar entry.2

/-- The text of an object without blanks. -/
def compact (entries : Entries) : String :=
  String.ofList ('{' :: [','].intercalate (entries.map spellMember) ++ ['}'])

end Json

/-- What reads and writes documents. Reasons are given in words where a document is refused. -/
structure Documents where
  /-- A text that has been taken up as a document of its format. -/
  Source : Type
  json : String → Source
  toml : String → Source
  /-- The members of an object of switches and numbers, as they are handed out one by one. -/
  members? : Source → Option Entries
  /-- Read a record. What the source does not set is as in the default, if there is one. -/
  record : (schema : Schema) → (default : Option schema.Record) → Source →
    Except String schema.Record
  /-- Read the name of one of some values. -/
  variant : {α : Type} → (name : α → String) → List α → Source → Except String α
  /-- A record as a JSON text. -/
  write : (schema : Schema) → schema.Record → String
  /-- The name of a value as a JSON text. -/
  writeVariant : String → String

namespace Documents

/-- What is relied on of documents. -/
structure Lawful (documents : Documents) : Prop where
  /-- An object in JSON is handed out as its members, switches and 64-bit numbers as they are
  spelled and in their order. -/
  reads : ∀ entries : Entries, (∀ entry ∈ entries, Json.Unescaped entry.1.toList) →
    documents.members? (documents.json (Json.compact entries)) = some entries
  /-- A record is written as an object with all its fields in their order. -/
  writes : ∀ (schema : Schema) (record : schema.Record),
    (∀ field, Json.Unescaped (schema.name field).toList) →
    documents.write schema record = Json.compact (schema.entries record schema.all)
  /-- If no name is handed out twice and each is that of a field with a value of its kind, these
  fields are set and the others are as in the default. -/
  fills : ∀ (schema : Schema) (default : Option schema.Record) (source : documents.Source)
    (entries : Entries), documents.members? source = some entries →
    (entries.map Prod.fst).Nodup →
    (∀ entry ∈ entries, ∃ field value, entry = schema.member field value) →
    (default = none → ∀ field, schema.name field ∈ entries.map Prod.fst) →
    ∃ record, documents.record schema default source = .ok record ∧
      (∀ field value, schema.member field value ∈ entries → record field = value) ∧
      ∀ field, schema.name field ∉ entries.map Prod.fst →
        ∀ original ∈ default, record field = original field

end Documents

end TopicRegistry
