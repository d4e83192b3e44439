import TopicRegistry.Document
import TopicRegistry.Json.Value
import TopicRegistry.Toml.Document

/-!
# Readers of JSON and TOML

The documents that the registry is run with. Of a document only an outline is kept: the switches
and 64-bit numbers among the members of an object or the items of an array, or a single text. A
record is read from an object with its fields as members, in any order and among others that are
not looked at, or from an array of the values of its first fields. No field may be set twice and
no value is converted. A value out of a list of names is the name as a text, or an object whose
one member has that name and the value `null`. Only the table at the top of a TOML document counts.
-/

namespace TopicRegistry

/-- What is seen of a value by those who look for a switch or a number. -/
inductive Datum where
  | scalar (value : Scalar)
  | null
  | other
  deriving DecidableEq

/-- What is seen of a document; there may be parts that cannot be decoded. -/
inductive Outline where
  | object (members : List (Option String × Datum))
  | array (items : List Datum)
  | text (content : Option String)
  | unusable

namespace Json

/-- The 64-bit number that a word spells, which has neither sign, fraction nor exponent. -/
def count? (word : List Char) : Option UInt64 :=
  let n := Nat.ofDigitChars 10 word 0
  if isWhole word ∧ n < UInt64.size then some (UInt64.ofNat n) else none

def datumOfWord (word : List Char) : Datum :=
  if word = "true".toList then .scalar (.flag true)
  else if word = "false".toList then .scalar (.flag false)
  else if word = "null".toList then .null
  else match count? word with
    | some n => .scalar (.count n)
    | none => .other

def Value.datum : Value → Datum
  | .word chars => datumOfWord chars
  | _ => .other

def Value.outline : Value → Outline
  | .object members =>
    .object (members.map fun (codes, value) => ((decode? codes).map String.ofList, value.datum))
  | .array items => .array (items.map Value.datum)
  | .text codes => .text ((decode? codes).map String.ofList)
  | .word _ => .unusable

end Json

namespace Toml

def Item.datum : Item → Datum
  | .plain (.flag value) => .scalar (.flag value)
  | .plain (.integer n) =>
    if 0 ≤ n ∧ n.toNat < UInt64.size then .scalar (.count (UInt64.ofNat n.toNat)) else .other
  | _ => .other

def Table.outline (table : Table) : Outline :=
  .object (table.map fun (key, item) => (some key, item.datum))

end Toml

/-- A value of another kind does not count. -/
def Datum.ofKind? : Datum → FieldKind → Option Scalar
  | scalar (.flag value), .flag => some (.flag value)
  | scalar (.count value), .count => some (.count value)
  | _, _ => none

abbrev Shape := List (String × FieldKind)

def Schema.shape (schema : Schema) : Shape :=
  schema.all.map fun field => (schema.name field, schema.kind field)

namespace Outline

def ofMembers? (shape : Shape) : List (Option String × Datum) → Option Entries
  | [] => some []
  | (none, _) :: _ => none
  | (some name, datum) :: members => do
    let entries ← ofMembers? shape members
    match shape.lookup name with
    | none => some entries
    | some kind => (datum.ofKind? kind).map fun scalar => (name, scalar) :: entries

def ofItems? : Shape → List Datum → Option Entries
  | _, [] => some []
  | [], _ :: _ => none
  | (name, kind) :: shape, item :: items => do
    let scalar ← item.ofKind? kind
    let entries ← ofItems? shape items
    some ((name, scalar) :: entries)

/-- The fields that a document sets, none of them twice. -/
def entries? (shape : Shape) : Outline → Option Entries
  | object members => do
    let entries ← ofMembers? shape members
    if (entries.map Prod.fst).Nodup then some entries else none
  | array items => ofItems? shape items
  | _ => none

/-- A member with a switch or a number. -/
def named? : Option String × Datum → Option (String × Scalar)
  | (some name, .scalar value) => some (name, value)
  | _ => none

def members? : Outline → Option Entries
  | object members => members.mapM named?
  | _ => none

/-- A name, by itself or as the only member of an object. -/
def name? : Outline → Option String
  | text content => content
  | object [(name, .null)] => name
  | _ => none

end Outline

def FieldKind.value? : (kind : FieldKind) → Scalar → Option kind.Value
  | flag, .flag value => some value
  | count, .count value => some value
  | _, _ => none

namespace Schema

variable (schema : Schema)

/-- What some entries set a field to. -/
def setting? (entries : Entries) (field : schema.Field) : Option (schema.kind field).Value :=
  (entries.lookup (schema.name field)).bind (schema.kind field).value?

/-- The record with the values of some entries, which must set all fields if there is no default. -/
def fill? (default : Option schema.Record) (entries : Entries) : Option schema.Record :=
  match default with
  | some original => some fun field => (schema.setting? entries field).getD (original field)
  | none =>
    if all : ∀ field ∈ schema.all, (schema.setting? entries field).isSome then
      some fun field => (schema.setting? entries field).get (all field (schema.mem_all field))
    else none

end Schema

namespace Outline

def ofJson (text : String) : Outline :=
  (Json.Value.ofText? text).elim unusable Json.Value.outline

def ofToml (text : String) : Outline :=
  (Toml.Document.ofText? text).elim unusable Toml.Table.outline

def record (schema : Schema) (default : Option schema.Record) (outline : Outline) :
    Except String schema.Record :=
  match (outline.entries? schema.shape).bind (schema.fill? default) with
  | some record => .ok record
  | none => .error "no document about the fields"

def variant {α : Type} (name : α → String) (values : List α) (outline : Outline) :
    Except String α :=
  match outline.name?.bind fun text => values.find? (name · == text) with
  | some value => .ok value
  | none => .error "no document about a name"

end Outline

/-- Readers of JSON and TOML, which say no more about a refused document than that it does not
fit, and writers of compact JSON. -/
def Documents.standard : Documents where
  Source := Outline
  json := Outline.ofJson
  toml := Outline.ofToml
  members? := Outline.members?
  record := Outline.record
  variant := Outline.variant
  write schema record := Json.compact (schema.entries record schema.all)
  writeVariant name := String.ofList (Json.quote name)

end TopicRegistry
