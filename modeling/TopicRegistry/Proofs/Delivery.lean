import TopicRegistry.Proofs.Covering
import TopicRegistry.Proofs.Refinement
import TopicRegistry.Proofs.Selection

/-!
# Delivery of a message

A message goes to the subscriptions whose filter covers its topic. The registry finds them by a
descent of its tree, `TopicFilter.covers` judges one filter and one topic on their own, with a
short cut for equal texts. For a valid topic and for filters that were accepted the two agree, so
the registry delivers to each subscription of the ledger that is covered and admitted, once, and
to nothing else.
-/

namespace TopicRegistry

section Names

theorem TopicName.check_eq_error_iff {topic : String} {e : RegistryError} :
    check topic = .error e ↔ segments topic = .error e := by
  rw [check, segments]
  cases fault? topic <;> simp

theorem TopicName.check_eq_ok_iff {topic : String} :
    check topic = .ok () ↔ fault? topic = none := by
  rw [check]
  cases fault? topic <;> simp

variable {topic : String} {levels : List String} {e : RegistryError}

theorem Comparison.read_covering_ok (valid : TopicName.segments topic = .ok levels) :
    covering.read topic = .ok (some (.covering levels)) := by
  rw [read, Subject.ofText, valid]
  rfl

theorem Comparison.read_covering_error (refused : TopicName.segments topic = .error e) :
    covering.read topic = .error e := by
  rw [read, Subject.ofText, refused]
  rfl

end Names

namespace Registry

theorem filterFault?_of_admitted {config : Config} {sub : Subscription}
    (admitted : Ledger.entryRefusal? config sub = none) :
    TopicFilter.fault? sub.filter = none := by
  rw [Ledger.entryRefusal?, filterRefusal?] at admitted
  cases h : TopicFilter.fault? sub.filter with
  | none => rfl
  | some fault => simp [h] at admitted

section Covering

variable {config : Config} {registry : Registry} {ledger : Ledger}

/-- What the tree leads to is what is covered, as long as the registry follows a ledger. -/
theorem mem_covered_iff (follows : Follows config registry ledger) {topic : String}
    (valid : TopicName.fault? topic = none) (mask : KindMask) {client : String}
    {sub : Subscription} :
    (client, sub) ∈ mask.admitted (registry.index.holdingsCovering (Topic.segments topic)) ↔
      ledger[Key.of client sub]? = some sub ∧ TopicFilter.covers sub.filter topic = true ∧
        mask.admits sub.share sub.filter = true := by
  rw [KindMask.mem_admitted,
    Index.mem_holdingsCovering follows.consistent (TopicName.plain_segments valid),
    Index.holds_iff_of_shows follows.shows, and_assoc]
  apply and_congr_right
  intro held
  have validFilter := filterFault?_of_admitted (follows.sound.admitted _ sub held)
  rw [TopicFilter.covers_eq_cover valid validFilter]

/-- A topic name has plain levels, so the tree leads to nothing twice. -/
theorem nodup_covered (follows : Follows config registry ledger) {topic : String}
    (valid : TopicName.fault? topic = none) (mask : KindMask) :
    (mask.admitted (registry.index.holdingsCovering (Topic.segments topic))).Nodup :=
  (Index.nodup_holdingsCovering follows.consistent (TopicName.plain_segments valid)).filter _

/-- The answer for a topic groups what a visitor is shown by client. -/
theorem covering_eq_ok {topic : String} {levels : List String}
    (valid : TopicName.segments topic = .ok levels) (mask : KindMask) :
    registry.covering topic mask = .ok
      ((mask.admitted (registry.index.holdingsCovering levels)).foldl ByClient.push ∅) := by
  rw [covering, grouped_eq, selection_eq, Comparison.read_covering_ok valid]
  rfl

theorem covering_eq_error {topic : String} {e : RegistryError}
    (refused : TopicName.segments topic = .error e) (mask : KindMask) :
    registry.covering topic mask = .error e := by
  rw [covering, grouped_eq, selection_eq, Comparison.read_covering_error refused]
  rfl

end Covering

/-- A topic is refused if it is no topic name. Otherwise each subscription of the ledger that is
covered and admitted is delivered, once, as it was last written, and nothing else is: a visitor is
shown such a list, and the answer that is grouped by client has its subscriptions. A visitor that
comes with a refused topic keeps its state. -/
theorem run_delivers (config : Config) (operations : List Operation) (topic : String)
    (mask : KindMask) :
    let registry := (({ config } : Registry).run operations).2
    let ledger := (Ledger.run config operations).2
    match TopicName.check topic with
    | .error e =>
      registry.covering topic mask = .error e ∧
        ∀ (σ : Type) (visitor : Visitor σ) (state : σ),
          registry.visit { mask, topic, comparison := .covering } visitor state = (.error e, state)
    | .ok () =>
      ∃ delivered : Holdings, delivered.Nodup ∧
        (∀ client sub, (client, sub) ∈ delivered ↔
          ledger[Key.of client sub]? = some sub ∧ TopicFilter.covers sub.filter topic = true ∧
            mask.admits sub.share sub.filter = true) ∧
        (∀ (σ : Type) (visitor : Visitor σ) (state : σ),
          registry.visit { mask, topic, comparison := .covering } visitor state =
            (.ok (), (visitor.over delivered state).value)) ∧
        ∃ grouped : ByClient, registry.covering topic mask = .ok grouped ∧
          ∀ client, (grouped[client]?.getD []).Perm (ownIn client delivered) ∧
            grouped[client]? ≠ some [] := by
  have follows := (follows_run config operations).2
  intro registry ledger
  cases judged : TopicName.check topic with
  | error e =>
    have refused := TopicName.check_eq_error_iff.mp judged
    constructor
    · exact covering_eq_error refused mask
    · exact rejects_of_read (Comparison.read_covering_error refused)
  | ok _ =>
    have valid := TopicName.check_eq_ok_iff.mp judged
    have segments := TopicName.segments_eq_ok_iff.mpr ⟨valid, rfl⟩
    have displays : registry.Displays { mask, topic, comparison := .covering } _ :=
      displays_of_read (Comparison.read_covering_ok segments)
    refine ⟨_, nodup_covered follows valid mask, ?_, displays, ?_⟩
    · intro client sub
      exact mem_covered_iff follows valid mask
    · refine ⟨_, covering_eq_ok segments mask, ?_⟩
      intro client
      exact group_perm _ client

end Registry

end TopicRegistry
