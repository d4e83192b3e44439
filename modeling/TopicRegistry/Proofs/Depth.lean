import Mathlib.Data.String.Basic
import TopicRegistry.Proofs.Admission
import TopicRegistry.Proofs.Grammar

/-!
# The largest bound on the number of levels

No bound may be asked for that is larger than `Topic.maxLevels`, as if no filter had more levels
than that. But levels may be empty, so that a filter has one level more than it has separators and
up to twice as many as the largest bound. A registry with this bound refuses such filters, and one
without a bound does not. They are all that the two differ in: a history has the same answers from
both if and only if nobody submits such a filter.
-/

namespace TopicRegistry

/-- The configuration with the largest bound on the number of levels that may be asked for. -/
def Config.deepest (config : Config) : Config :=
  { config with maxLevels := UInt64.ofNat Topic.maxLevels }

def Config.bottomless (config : Config) : Config :=
  { config with maxLevels := 0 }

/-- There is nothing against the texts of a subscription, but its filter has more levels than any
bound allows. -/
def Subscription.Overdeep (sub : Subscription) : Prop :=
  sub.Conforms {} ∧ Topic.maxLevels < (Topic.segments sub.filter).length

section Bounds

theorem Config.toNat_maxLevels_deepest (config : Config) :
    config.deepest.maxLevels.toNat = Topic.maxLevels :=
  UInt64.toNat_ofNat_of_lt (by decide)

/-- A bound is admitted if it is not larger than the largest one. -/
theorem Config.admissible_iff_le_deepest (config other : Config) :
    other.Admissible ↔ other.maxLevels ≤ config.deepest.maxLevels := by
  rw [UInt64.le_iff_toNat_le, toNat_maxLevels_deepest, Admissible]

theorem Topic.count_le_utf8ByteSize (c : Char) (text : String) :
    text.toList.count c ≤ text.utf8ByteSize := by
  have size : text.utf8ByteSize = String.utf8Len text.toList := by
    rw [← String.utf8ByteSize_ofList, String.ofList_toList]
  rw [size]
  induction text.toList with
  | nil => simp
  | cons d ds ih =>
    have positive := Char.utf8Size_pos d
    rw [String.utf8Len_cons, List.count_cons]
    split <;> omega

/-- A filter has at most twice as many levels as the largest bound allows. -/
theorem TopicFilter.length_levels_le {filter : String} {levels : List Level}
    (read : TopicFilter.levels filter = .ok levels) :
    levels.length = filter.toList.count '/' + 1 ∧ levels.length ≤ 2 * Topic.maxLevels := by
  obtain ⟨valid, rfl⟩ := levels_eq_ok_iff.mp read
  have bounded := (fault?_eq_none_iff.mp valid).2.1
  have count := Topic.count_le_utf8ByteSize '/' filter
  have length : (split filter).length = filter.toList.count '/' + 1 := by
    rw [split, List.length_map, Topic.length_segments]
    rfl
  have twice : Topic.maxBytes + 1 = 2 * Topic.maxLevels := by decide
  exact ⟨length, by omega⟩

def Topic.separators (count : Nat) : String :=
  String.ofList (List.replicate count separator)

theorem Topic.utf8ByteSize_separators (count : Nat) : (separators count).utf8ByteSize = count := by
  rw [separators, String.utf8ByteSize_ofList]
  induction count with
  | zero => rfl
  | succ count ih =>
    rw [List.replicate_succ, String.utf8Len_cons, ih]
    rfl

theorem Topic.length_segments_separators (count : Nat) :
    (segments (separators count)).length = count + 1 := by
  rw [length_segments, separators, String.toList_ofList, List.count_replicate_self]

/-- Separators alone are a topic name, and a filter, if there are not too many of them. -/
theorem Topic.grammatical_separators {count : Nat} (positive : 0 < count) (bounded : count ≤ 65535) :
    TopicName.Grammatical (separators count) := by
  have only : ∀ c ∈ (separators count).toList, c = separator := by
    intro c there
    rw [separators, String.toList_ofList] at there
    exact List.eq_of_mem_replicate there
  refine { filled := ?_, bounded := ?_, clean := ?_, literal := ?_, unshared := ?_ }
  · intro nothing
    have size := utf8ByteSize_separators count
    rw [nothing, String.utf8ByteSize_empty] at size
    omega
  · rwa [utf8ByteSize_separators]
  · exact fun there => absurd (only _ there) (by decide)
  · exact ⟨fun there => absurd (only _ there) (by decide),
      fun there => absurd (only _ there) (by decide)⟩
  · intro prefixed
    exact absurd (only '$' (prefixed.subset (by decide))) (by decide)

end Bounds

namespace Registry

/-- Two registries hold the same, one with the largest bound on the number of levels and one
without a bound. -/
structure Twins (config : Config) (capped free : Registry) : Prop where
  deepest : capped.config = config.deepest
  bottomless : free.config = config.bottomless
  index : capped.index = free.index

section Twins

variable {config : Config} {capped free : Registry} {client : String} {sub : Subscription}

theorem twins_empty (config : Config) :
    Twins config { config := config.deepest } { config := config.bottomless } :=
  ⟨rfl, rfl, rfl⟩

/-- The refusals that come before the depth is looked at concern the texts of an entry. -/
theorem conforms_default_iff_refusals :
    sub.Conforms {} ↔
      filterRefusal? sub = none ∧ prefixRefusal? sub = none ∧ groupRefusal? sub = none := by
  rw [Subscription.conforms_default_iff, filterRefusal?_eq_none_iff, prefixRefusal?_eq_none_iff,
    groupRefusal?_eq_none_iff, Target.checkGroup_eq_ok_iff]
  simp [TopicFilter.levels_eq_ok_iff]

/-- The switches and the quota, which come after it, do not blame the filter. -/
theorem later_ne_invalidFilter (registry : Registry) (detail : String) :
    (capabilityRefusal? registry.config sub <|> registry.quotaRefusal? client sub) ≠
      some (.invalidFilter detail) := by
  intro refused
  rw [Option.orElse_eq_orElse, Option.orElse_eq_or, Option.or_eq_some_iff] at refused
  rcases refused with capability | ⟨-, quota⟩
  · rw [capabilityRefusal?] at capability
    split at capability
    · cases capability
    · split at capability
      · cases capability
      · split at capability <;> cases capability
  · simp only [quotaRefusal?] at quota
    split at quota <;> cases quota

/-- If there is nothing against the texts of an entry, the depth is looked at first. -/
theorem refusal?_of_conforms (conforms : sub.Conforms {}) (registry : Registry) :
    registry.refusal? client sub = (depthRefusal? registry.config sub <|>
      capabilityRefusal? registry.config sub <|> registry.quotaRefusal? client sub) := by
  obtain ⟨filter, bare, group⟩ := conforms_default_iff_refusals.mp conforms
  rw [refusal?, filter, bare, group]
  rfl

/-- If there is something against its texts, the configuration is not looked at. -/
theorem refusal?_of_not_conforms (flawed : ¬sub.Conforms {}) (registry other : Registry) :
    registry.refusal? client sub = other.refusal? client sub := by
  rw [conforms_default_iff_refusals] at flawed
  rw [refusal?, refusal?]
  cases filter : filterRefusal? sub with
  | some e => rfl
  | none =>
    cases bare : prefixRefusal? sub with
    | some e => rfl
    | none =>
      cases group : groupRefusal? sub with
      | some e => rfl
      | none => exact absurd ⟨filter, bare, group⟩ flawed

theorem depthRefusal?_deepest_eq_none_iff (config : Config) :
    depthRefusal? config.deepest sub = none ↔
      (Topic.segments sub.filter).length ≤ Topic.maxLevels := by
  have limited : config.deepest.maxLevels ≠ 0 := by
    intro unlimited
    have bound := config.toNat_maxLevels_deepest
    rw [unlimited] at bound
    exact absurd bound (by decide)
  rw [depthRefusal?_eq_none_iff, or_iff_right limited, Config.toNat_maxLevels_deepest]

theorem depthRefusal?_bottomless : depthRefusal? config.bottomless sub = none :=
  depthRefusal?_eq_none_iff.mpr (Or.inl rfl)

/-- A filter that is too deep is blamed for it. -/
theorem exists_invalidFilter_of_depthRefusal? {e : RegistryError}
    (refused : depthRefusal? config sub = some e) : ∃ detail, e = .invalidFilter detail := by
  rw [depthRefusal?] at refused
  split at refused
  · cases refused
    exact ⟨_, rfl⟩
  · cases refused

/-- Twins judge an entry alike just if it is not too deep for every bound. -/
theorem refusal?_twins_iff (client : String) (sub : Subscription)
    (twins : Twins config capped free) :
    capped.refusal? client sub = free.refusal? client sub ↔ ¬sub.Overdeep := by
  by_cases conforms : sub.Conforms {}
  · have later : (capabilityRefusal? capped.config sub <|> capped.quotaRefusal? client sub) =
        (capabilityRefusal? free.config sub <|> free.quotaRefusal? client sub) := by
      rw [quotaRefusal?, quotaRefusal?, twins.deepest, twins.bottomless, twins.index]
      rfl
    rw [refusal?_of_conforms conforms, refusal?_of_conforms conforms, ← later, twins.bottomless,
      depthRefusal?_bottomless, twins.deepest, Subscription.Overdeep, and_iff_right conforms,
      Nat.not_lt, ← depthRefusal?_deepest_eq_none_iff config]
    cases depth : depthRefusal? config.deepest sub with
    | none => exact iff_of_true rfl rfl
    | some e =>
      obtain ⟨detail, rfl⟩ := exists_invalidFilter_of_depthRefusal? depth
      rw [← twins.deepest]
      exact iff_of_false (fun same => later_ne_invalidFilter capped detail same.symm) (by simp)
  · exact iff_of_true (refusal?_of_not_conforms conforms capped free) fun deep => conforms deep.1

/-- Twins that refuse an entry for the same reason, or not at all, stay twins. -/
theorem subscribe_twins (twins : Twins config capped free)
    (same : capped.refusal? client sub = free.refusal? client sub) :
    (capped.subscribe client sub).1 = (free.subscribe client sub).1 ∧
      Twins config (capped.subscribe client sub).2 (free.subscribe client sub).2 := by
  rw [subscribe, subscribe, same]
  cases free.refusal? client sub with
  | some e => exact ⟨rfl, twins⟩
  | none =>
    simp only [twins.index]
    exact ⟨trivial, twins.deepest, twins.bottomless, rfl⟩

/-- An answer says for what reason an entry was refused. -/
theorem refusal?_eq_of_answer_eq
    (same : (capped.subscribe client sub).1 = (free.subscribe client sub).1) :
    capped.refusal? client sub = free.refusal? client sub := by
  cases judged : free.refusal? client sub with
  | some e => exact subscribe_eq_error_iff.mp (same.trans (subscribe_eq_error_iff.mpr judged))
  | none =>
    obtain ⟨receipt, accepted⟩ := subscribe_eq_ok_iff.mpr judged
    exact subscribe_eq_ok_iff.mp ⟨receipt, same.trans accepted⟩

end Twins

end Registry

/-- A step does not submit an entry that is too deep for every bound. -/
def Step.Shallow : Step → Prop
  | submit _ sub => ¬sub.Overdeep
  | release _ _ => True
  | leave _ => True

def Operation.submissions : Operation → List Subscription
  | subscribe _ subs => subs
  | unsubscribe _ _ => []
  | unsubscribeAll _ => []

theorem Operation.shallow_steps_iff (operation : Operation) :
    (∀ step ∈ operation.steps, step.Shallow) ↔
      ∀ sub ∈ operation.submissions, ¬sub.Overdeep := by
  cases operation <;> simp [steps, submissions, Step.Shallow]

namespace Registry

section Running

variable {config : Config} {capped free : Registry}

theorem step_twins (twins : Twins config capped free) (operation : Step) :
    ((step capped operation).1 = (step free operation).1 ↔ operation.Shallow) ∧
      (operation.Shallow → Twins config (step capped operation).2 (step free operation).2) := by
  cases operation with
  | submit client sub =>
    rw [Step.Shallow, ← refusal?_twins_iff client sub twins]
    refine ⟨⟨?_, ?_⟩, ?_⟩
    · intro outcome
      exact refusal?_eq_of_answer_eq (Outcome.judged.inj outcome)
    · intro same
      exact congrArg Outcome.judged (subscribe_twins twins same).1
    · intro same
      exact (subscribe_twins twins same).2
  | release client filter =>
    simp only [step, Step.Shallow, twins.index]
    exact ⟨trivial, fun _ => ⟨twins.deepest, twins.bottomless, rfl⟩⟩
  | leave client =>
    simp only [step, Step.Shallow, twins.index]
    exact ⟨trivial, fun _ => ⟨twins.deepest, twins.bottomless, rfl⟩⟩

/-- The answer to an operation says what came of its steps, as far as they can be refused. -/
theorem shallow_of_answer_eq {operation : Operation}
    (agree : (step.take capped operation.steps).1 = (step.take free operation.steps).1 ↔
      ∀ step ∈ operation.steps, step.Shallow)
    (same : operation.answer (step.take capped operation.steps).1 =
      operation.answer (step.take free operation.steps).1) :
    ∀ step ∈ operation.steps, step.Shallow := by
  cases operation with
  | subscribe client subs =>
    rw [Operation.steps, take_submit, take_submit] at agree same
    rw [Operation.answer, Operation.answer, Outcome.judgements_judged,
      Outcome.judgements_judged] at same
    exact agree.mp (congrArg (List.map Outcome.judged) (Answer.receipts.inj same))
  | unsubscribe client filters =>
    exact (Operation.shallow_steps_iff _).mpr (by simp [Operation.submissions])
  | unsubscribeAll client =>
    exact (Operation.shallow_steps_iff _).mpr (by simp [Operation.submissions])

/-- An operation has the same answer from twins just if none of its steps goes too deep. -/
theorem perform_twins (twins : Twins config capped free) (operation : Operation) :
    ((capped.perform operation).1 = (free.perform operation).1 ↔
      ∀ step ∈ operation.steps, step.Shallow) ∧
    ((∀ step ∈ operation.steps, step.Shallow) →
      Twins config (capped.perform operation).2 (free.perform operation).2) := by
  obtain ⟨agree, next⟩ := Machine.take_agrees_iff (R := Twins config)
    (fun _ _ operation twins => step_twins twins operation) twins operation.steps
  rw [perform_eq_take, perform_eq_take]
  refine ⟨⟨shallow_of_answer_eq agree, ?_⟩, next⟩
  intro shallow
  exact congrArg operation.answer (agree.mpr shallow)

/-- A history has the same answers from twins just if none of its operations goes too deep, and
then they hold the same in the end. -/
theorem run_twins (twins : Twins config capped free) (operations : List Operation) :
    ((capped.run operations).1 = (free.run operations).1 ↔
      ∀ operation ∈ operations, ∀ step ∈ operation.steps, step.Shallow) ∧
    ((∀ operation ∈ operations, ∀ step ∈ operation.steps, step.Shallow) →
      Twins config (capped.run operations).2 (free.run operations).2) := by
  induction operations generalizing capped free with
  | nil => exact ⟨by simp [run], fun _ => twins⟩
  | cons operation operations ih =>
    obtain ⟨agree, next⟩ := perform_twins twins operation
    rw [run, run, List.forall_mem_cons]
    simp only [List.cons.injEq, agree]
    constructor
    · exact and_congr_right fun shallow => (ih (next shallow)).1
    · rintro ⟨shallow, rest⟩
      exact (ih (next shallow)).2 rest

end Running

/-- A filter that is read has at most twice as many levels as the largest bound allows. With this
bound a registry gives the answers of one without a bound, and holds the same in the end, if and
only if nobody submits a subscription whose only flaw is to have more levels than that. -/
theorem run_deepest_eq_iff (config : Config) (operations : List Operation) :
    (∀ filter levels, TopicFilter.levels filter = .ok levels →
      levels.length = filter.toList.count '/' + 1 ∧ levels.length ≤ 2 * Topic.maxLevels) ∧
    (∀ other : Config, other.Admissible ↔ other.maxLevels ≤ config.deepest.maxLevels) ∧
    let (answers, capped) := ({ config := config.deepest } : Registry).run operations
    let (others, free) := ({ config := config.bottomless } : Registry).run operations
    (answers = others ↔
      ∀ operation ∈ operations, ∀ sub ∈ operation.submissions, ¬sub.Overdeep) ∧
    (answers = others → capped.index = free.index) := by
  obtain ⟨agree, twins⟩ := run_twins (twins_empty config) operations
  simp only [Operation.shallow_steps_iff] at agree twins
  refine ⟨fun _ _ => TopicFilter.length_levels_le, config.admissible_iff_le_deepest, agree, ?_⟩
  intro same
  exact (twins (agree.mp same)).index

/-- The longest filter of separators has twice as many levels as the largest bound allows. A
registry with this bound refuses it, one without a bound does not. -/
theorem run_deepest_ne_onlySeparators :
    (∃ levels, TopicFilter.levels (Topic.separators 65535) = .ok levels ∧
      levels.length = 2 * Topic.maxLevels) ∧
    let submitted : Operation :=
      .subscribe "ann" [{ share := "", filter := Topic.separators 65535 }]
    (({ config := ({} : Config).deepest } : Registry).run [submitted]).1 ≠
      (({ config := ({} : Config).bottomless } : Registry).run [submitted]).1 := by
  have grammatical : TopicName.Grammatical (Topic.separators 65535) :=
    Topic.grammatical_separators (by decide) (by decide)
  have valid := TopicFilter.fault?_eq_none_iff_grammatical.mpr grammatical.filter
  have length := Topic.length_segments_separators 65535
  constructor
  · refine ⟨_, TopicFilter.levels_eq_ok_iff.mpr ⟨valid, rfl⟩, ?_⟩
    rw [TopicFilter.split, List.length_map, length]
    decide
  · intro submitted same
    have shallow := (run_twins (twins_empty {}) [submitted]).1.mp same
    rw [List.forall_mem_singleton, Operation.shallow_steps_iff, Operation.submissions,
      List.forall_mem_singleton] at shallow
    apply shallow
    refine ⟨Subscription.conforms_default_iff.mpr ⟨valid, grammatical.unshared, Or.inl rfl⟩, ?_⟩
    rw [length]
    decide

end Registry

end TopicRegistry
