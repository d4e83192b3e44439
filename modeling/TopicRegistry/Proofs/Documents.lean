import Mathlib.Data.List.Nodup
import TopicRegistry.Proofs.Json.Objects
import TopicRegistry.Registry.Tally

/-!
# Lawful documents

The readers and writers that the registry is run with are lawful: the compact text of an object is
taken up as its members, and members that set fields of a record, none of them twice, fill it.
Lawful documents, whatever they are, give records back that were written, with all fields or with
some, in any order.
-/

namespace TopicRegistry

/-! ## Objects as they are handed out -/

namespace Outline

def ofEntries (entries : Entries) : Outline :=
  object (entries.map fun entry => (some entry.1, .scalar entry.2))

theorem members?_ofEntries (entries : Entries) : (ofEntries entries).members? = some entries := by
  rw [ofEntries, members?]
  induction entries with
  | nil => rfl
  | cons entry entries ih => simp [named?, ih]

theorem eq_ofEntries_of_members? {outline : Outline} {entries : Entries}
    (handed : outline.members? = some entries) : outline = ofEntries entries := by
  cases outline with
  | object members =>
    rw [members?] at handed
    rw [ofEntries]
    congr 1
    induction members generalizing entries with
    | nil =>
      cases handed
      rfl
    | cons first members ih =>
      obtain ⟨name, datum⟩ := first
      rw [List.mapM_cons] at handed
      cases name with
      | none => cases handed
      | some name =>
        cases datum with
        | scalar value =>
          simp only [named?, Option.pure_def, Option.bind_eq_bind, Option.bind_some] at handed
          obtain ⟨rest, others, whole⟩ := Option.bind_eq_some_iff.mp handed
          cases whole
          rw [ih others, List.map_cons]
        | null => cases handed
        | other => cases handed
  | array items => cases handed
  | text content => cases handed
  | unusable => cases handed

end Outline

/-! ## Records by name -/

namespace FieldKind

variable (kind : FieldKind) (value : kind.Value)

theorem ofKind?_scalar :
    (Datum.scalar (kind.scalar value)).ofKind? kind = some (kind.scalar value) := by
  cases kind <;> rfl

theorem value?_scalar : kind.value? (kind.scalar value) = some value := by
  cases kind <;> rfl

end FieldKind

namespace Schema

variable {schema : Schema} {entries : Entries}

theorem lookup_shape (field : schema.Field) :
    schema.shape.lookup (schema.name field) = some (schema.kind field) := by
  have found : ∀ fields : List schema.Field, field ∈ fields →
      (fields.map fun f => (schema.name f, schema.kind f)).lookup (schema.name field) =
        some (schema.kind field) := by
    intro fields there
    induction fields with
    | nil => cases there
    | cons first fields ih =>
      rw [List.map_cons, List.lookup_cons]
      by_cases same : field = first
      · simp [same]
      · have apart : schema.name field ≠ schema.name first :=
          fun equal => same (schema.name_injective equal)
        rw [beq_eq_false_iff_ne.mpr apart]
        exact ih ((List.mem_cons.mp there).resolve_left same)
  exact found schema.all (schema.mem_all field)

theorem ofMembers?_shape
    (known : ∀ entry ∈ entries, ∃ field value, entry = schema.member field value) :
    Outline.ofMembers? schema.shape (entries.map fun entry => (some entry.1, .scalar entry.2)) =
      some entries := by
  induction entries with
  | nil => rfl
  | cons entry entries ih =>
    obtain ⟨here, others⟩ := List.forall_mem_cons.mp known
    obtain ⟨field, value, rfl⟩ := here
    simp [Outline.ofMembers?, ih others, member, lookup_shape, FieldKind.ofKind?_scalar]

/-- A name that is handed out once sets its field. -/
theorem setting?_of_mem (distinct : (entries.map Prod.fst).Nodup) {field : schema.Field}
    {value : (schema.kind field).Value} (there : schema.member field value ∈ entries) :
    schema.setting? entries field = some value := by
  have found : entries.lookup (schema.name field) = some ((schema.kind field).scalar value) := by
    obtain ⟨before, after, rfl⟩ := List.append_of_mem there
    refine List.lookup_eq_some_iff.mpr ⟨before, after, rfl, ?_⟩
    intro entry earlier
    rw [List.map_append, List.map_cons, List.nodup_append] at distinct
    have apart := distinct.2.2 entry.1 (List.mem_map_of_mem earlier) (schema.name field)
      (List.mem_cons_self ..)
    exact bne_iff_ne.mpr (Ne.symm apart)
  rw [setting?, found]
  exact FieldKind.value?_scalar _ value

theorem setting?_of_not_mem {field : schema.Field}
    (missing : schema.name field ∉ entries.map Prod.fst) :
    schema.setting? entries field = none := by
  have unfound : entries.lookup (schema.name field) = none := by
    refine List.lookup_eq_none_iff.mpr fun entry there => ?_
    exact bne_iff_ne.mpr fun same => missing (same ▸ List.mem_map_of_mem there)
  rw [setting?, unfound]
  rfl

/-- The member of a name is that of the field of this name. -/
theorem exists_member_of_name
    (known : ∀ entry ∈ entries, ∃ field value, entry = schema.member field value)
    {field : schema.Field} (named : schema.name field ∈ entries.map Prod.fst) :
    ∃ value, schema.member field value ∈ entries := by
  obtain ⟨entry, there, same⟩ := List.mem_map.mp named
  obtain ⟨other, value, rfl⟩ := known entry there
  obtain rfl := schema.name_injective same
  exact ⟨value, there⟩

theorem map_fst_entries (record : schema.Record) (fields : List schema.Field) :
    (schema.entries record fields).map Prod.fst = fields.map schema.name := by
  rw [Schema.entries, List.map_map]
  rfl

/-- A record is filled unless something is missing for which there is no default. -/
theorem exists_fill? {default : Option schema.Record}
    (complete : default = none → ∀ field, (schema.setting? entries field).isSome) :
    ∃ record, schema.fill? default entries = some record ∧
      (∀ field value, schema.setting? entries field = some value → record field = value) ∧
      ∀ field, schema.setting? entries field = none →
        ∀ original ∈ default, record field = original field := by
  cases default with
  | some original =>
    refine ⟨_, rfl, ?_, ?_⟩
    · intro field value set
      rw [set, Option.getD_some]
    · intro field unset other same
      obtain rfl := Option.mem_some.mp same
      rw [unset, Option.getD_none]
  | none =>
    refine ⟨_, dif_pos fun field _ => complete rfl field, ?_, ?_⟩
    · intro field value set
      simp [set]
    · intro field _ other same
      cases same

end Schema

namespace Documents

theorem standard_lawful : standard.Lawful where
  reads entries unescaped := by
    have taken : Outline.ofJson (Json.compact entries) = Outline.ofEntries entries := by
      rw [Outline.ofJson, Json.Value.ofText?_compact unescaped]
      exact Json.outline_object_map_member entries
    exact (congrArg Outline.members? taken).trans (Outline.members?_ofEntries entries)
  writes schema record _ := rfl
  fills schema default source entries handed distinct known complete := by
    obtain rfl := Outline.eq_ofEntries_of_members? handed
    have found : (Outline.ofEntries entries).entries? schema.shape = some entries := by
      simp [Outline.ofEntries, Outline.entries?, Schema.ofMembers?_shape known, distinct]
    have settled : default = none → ∀ field, (schema.setting? entries field).isSome := by
      intro missing field
      obtain ⟨value, there⟩ := Schema.exists_member_of_name known (complete missing field)
      rw [Schema.setting?_of_mem distinct there]
      rfl
    obtain ⟨record, filled, set, unset⟩ := Schema.exists_fill? settled
    refine ⟨record, ?_, ?_, ?_⟩
    · change Outline.record schema default (Outline.ofEntries entries) = .ok record
      rw [Outline.record, found, Option.bind_some, filled]
    · intro field value there
      exact set field value (Schema.setting?_of_mem distinct there)
    · intro field missing
      exact unset field (Schema.setting?_of_not_mem missing)

variable {documents : Documents} (lawful : documents.Lawful) (schema : Schema)
include lawful

/-- What was written of a record, whichever fields in whatever order, is read as it was; the other
fields are read as in the default. -/
theorem record_compact (default : Option schema.Record)
    (plain : ∀ field, Json.Unescaped (schema.name field).toList) (record : schema.Record)
    {fields : List schema.Field} (distinct : fields.Nodup)
    (complete : default = none → ∀ field, field ∈ fields) :
    ∃ read, documents.record schema default
        (documents.json (Json.compact (schema.entries record fields))) = .ok read ∧
      (∀ field ∈ fields, read field = record field) ∧
      ∀ field ∉ fields, ∀ original ∈ default, read field = original field := by
  have named : ∀ field, schema.name field ∈ (schema.entries record fields).map Prod.fst ↔
      field ∈ fields := by
    intro field
    rw [Schema.map_fst_entries, List.mem_map_of_injective schema.name_injective]
  have once : ((schema.entries record fields).map Prod.fst).Nodup := by
    rw [Schema.map_fst_entries]
    exact distinct.map schema.name_injective
  have known : ∀ entry ∈ schema.entries record fields,
      ∃ field value, entry = schema.member field value := by
    intro entry there
    obtain ⟨field, -, rfl⟩ := List.mem_map.mp there
    exact ⟨field, record field, rfl⟩
  have unescaped : ∀ entry ∈ schema.entries record fields, Json.Unescaped entry.1.toList := by
    intro entry there
    obtain ⟨field, value, rfl⟩ := known entry there
    exact plain field
  obtain ⟨read, answered, set, unset⟩ := lawful.fills schema default _ _
    (lawful.reads _ unescaped) once known fun missing field =>
      (named field).mpr (complete missing field)
  refine ⟨read, answered, ?_, ?_⟩
  · intro field there
    exact set field _ (List.mem_map_of_mem there)
  · intro field missing
    exact unset field (mt (named field).mp missing)

/-- A record that was written with all its fields is read again. -/
theorem record_write (default : Option schema.Record)
    (plain : ∀ field, Json.Unescaped (schema.name field).toList) (record : schema.Record) :
    documents.record schema default (documents.json (documents.write schema record)) =
      .ok record := by
  obtain ⟨read, answered, same, -⟩ := record_compact lawful schema default plain record
    schema.nodup_all fun _ => schema.mem_all
  have whole : read = record := funext fun field => same field (schema.mem_all field)
  rw [lawful.writes schema record plain, answered, whole]

end Documents

/-- The counters of a tally survive their JSON form. -/
theorem Tally.ofJson_toJson {documents : Documents} (lawful : documents.Lawful) (tally : Tally) :
    ofJson documents (tally.toJson documents) = .ok tally := by
  have plain : ∀ field : Field, Json.Unescaped field.name.toList := by
    intro field
    cases field <;> simp [Field.name, Json.Unescaped]
  have read := Documents.record_write lawful schema none plain tally.get
  exact congrArg (Except.map ofRecord) read

end TopicRegistry
