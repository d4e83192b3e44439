import TopicRegistry.Proofs.Index.Tallies
import TopicRegistry.Proofs.Ledger.Sound
import TopicRegistry.Proofs.Queries

/-!
# A registry is a ledger to its clients

A registry follows a ledger: its index is consistent and shows the ledger, and where a quota is
set the tallies of the clients are exact, so that the two refuse the same entries. Each step keeps
this and has the same outcome on both sides. A quota bounds the number of keys of each client by a
word, so no assumption on the length of a history is needed.
-/

namespace TopicRegistry.Registry

/-- The registry holds what the ledger holds, and can tell how many keys a client has if that
matters. -/
structure Follows (config : Config) (registry : Registry) (ledger : Ledger) : Prop where
  configured : registry.config = config
  consistent : registry.index.Consistent
  shows : registry.index.Shows ledger
  sound : ledger.Sound config
  counts : 0 < config.maxSubscriptions → registry.index.Counts ledger

section Steps

variable {config : Config} {registry : Registry} {ledger : Ledger}

theorem follows_empty (config : Config) : Follows config { config } ∅ where
  configured := rfl
  consistent := Index.consistent_empty
  shows := Index.shows_empty
  sound := Ledger.sound_empty
  counts _ := Index.counts_empty

theorem quotaRefusal?_eq (follows : Follows config registry ledger) (client : String)
    (sub : Subscription) :
    registry.quotaRefusal? client sub = ledger.quotaRefusal? config client sub := by
  have fresh : (registry.index.find? client sub.filter sub.share).isNone = true ↔
      Key.of client sub ∉ ledger := by
    rw [follows.shows, Std.ExtTreeMap.mem_iff_isSome_getElem?, Bool.not_eq_true,
      Option.isSome_eq_false_iff]
    rfl
  rw [quotaRefusal?, Ledger.quotaRefusal?, follows.configured]
  by_cases limited : 0 < config.maxSubscriptions
  · have full : config.maxSubscriptions ≤
        ((registry.index.clientTally? client).getD {}).current ↔
        config.maxSubscriptions.toNat ≤ ledger.held client := by
      rw [UInt64.le_iff_toNat_le, Index.toNat_current_getD follows.consistent follows.shows
        (follows.counts limited)]
    simp only [fresh, full]
  · simp only [limited, false_and, if_false]

/-- A registry refuses an entry for the same reason as the ledger that it follows. -/
theorem refusal?_eq (follows : Follows config registry ledger) (client : String)
    (sub : Subscription) :
    registry.refusal? client sub = ledger.refusal? config client sub := by
  rw [refusal?, Ledger.refusal?, Ledger.entryRefusal?, quotaRefusal?_eq follows,
    follows.configured]
  cases filterRefusal? sub with
  | some e => rfl
  | none =>
    cases prefixRefusal? sub with
    | some e => rfl
    | none =>
      cases groupRefusal? sub with
      | some e => rfl
      | none => cases depthRefusal? config sub <;> rfl

theorem follows_insert (follows : Follows config registry ledger) {client : String}
    {sub : Subscription} (accepted : ledger.refusal? config client sub = none) :
    Follows config { registry with index := (registry.index.insert client sub).2 }
      (ledger.write client sub) where
  configured := follows.configured
  consistent := Index.consistent_insert client sub follows.consistent
  shows := Index.shows_insert follows.shows client sub
  sound := Ledger.sound_write follows.sound accepted
  counts limited := by
    have bounded := (Ledger.sound_write follows.sound accepted).bounded limited client
    have room : (ledger.write client sub).held client < 2 ^ 64 :=
      Nat.lt_of_le_of_lt bounded config.maxSubscriptions.toNat_lt
    exact Index.counts_insert follows.consistent follows.shows (follows.counts limited) room

theorem follows_remove (follows : Follows config registry ledger) (client filter : String) :
    Follows config { registry with index := (registry.index.remove client filter).2 }
      (ledger.without (Key.isUnder client filter)) where
  configured := follows.configured
  consistent := Index.consistent_remove client filter follows.consistent
  shows := Index.shows_remove follows.shows client filter
  sound := Ledger.sound_without follows.sound _
  counts limited :=
    Index.counts_remove follows.consistent follows.shows (follows.counts limited) client filter

theorem follows_removeClient (follows : Follows config registry ledger) (client : String) :
    Follows config { registry with index := (registry.index.removeClient client).2 }
      (ledger.without (Key.isOf client)) where
  configured := follows.configured
  consistent := Index.consistent_removeClient client follows.consistent
  shows := Index.shows_removeClient follows.shows client
  sound := Ledger.sound_without follows.sound _
  counts limited := Index.counts_removeClient (follows.counts limited) client

/-- A step has the same outcome on both sides, and the registry still follows the ledger. -/
theorem follows_step (follows : Follows config registry ledger) (operation : Step) :
    (step registry operation).1 = (Ledger.step config ledger operation).1 ∧
      Follows config (step registry operation).2 (Ledger.step config ledger operation).2 := by
  cases operation with
  | submit client sub =>
    have same := refusal?_eq follows client sub
    simp only [step, subscribe, same, Ledger.step]
    cases judged : ledger.refusal? config client sub with
    | some e => exact ⟨rfl, follows⟩
    | none =>
      have existed := Index.existed_insert_eq follows.consistent follows.shows client sub
      exact ⟨by rw [existed], follows_insert follows judged⟩
  | release client filter =>
    have count := Index.count_remove_eq follows.consistent follows.shows client filter
    exact ⟨congrArg Outcome.removed count, follows_remove follows client filter⟩
  | leave client =>
    have count := Index.count_removeClient_eq follows.consistent follows.shows client
    exact ⟨congrArg Outcome.removed count, follows_removeClient follows client⟩

end Steps

/-- A history gets the same answers from a registry and from a ledger, and ends with a registry
that follows the ledger. -/
theorem follows_run (config : Config) (operations : List Operation) :
    (({ config } : Registry).run operations).1 = (Ledger.run config operations).1 ∧
      Follows config (({ config } : Registry).run operations).2
        (Ledger.run config operations).2 := by
  rw [run_eq]
  exact Machine.run_simulates (R := Follows config)
    (fun _ _ operation follows => follows_step follows operation) (follows_empty config) operations

section Answers

variable {config : Config} {registry : Registry} {ledger : Ledger}

/-- A walk over everything shows a permutation of the entries of the ledger. -/
theorem visit_all_of_follows (follows : Follows config registry ledger) :
    ∃ shown : Holdings, shown.Perm (ledger.toList.map fun entry => (entry.1.client, entry.2)) ∧
      ∀ (σ : Type) (visitor : Visitor σ) (state : σ) (comparison : Comparison),
        registry.visit { comparison } visitor state = (.ok (), (visitor.over shown state).value) := by
  refine ⟨registry.index.holdings, ?_, ?_⟩
  · have perm := Index.holdings_perm follows.consistent follows.shows
    have every : ledger.toList.filter (fun _ => true) = ledger.toList :=
      List.filter_eq_self.mpr fun _ _ => rfl
    rw [Ledger.holdings, every] at perm
    exact perm
  · intro σ visitor state comparison
    have shown := visit_all registry visitor state .all comparison
    rw [KindMask.admitted_all] at shown
    exact shown

theorem ofClient_of_follows (follows : Follows config registry ledger) (client : String) :
    (registry.ofClient client .all).Perm
      ((ledger.toList.filter fun entry => entry.1.client = client).map Prod.snd) := by
  have perm := (Index.holdingsOf_perm follows.consistent follows.shows client).map Prod.snd
  have told : (registry.ofClient client .all).Perm
      ((registry.index.holdingsOf client).map Prod.snd) := by
    rw [ofClient_eq, KindMask.admitted_all]
    exact List.reverse_perm _
  rw [Ledger.holdings, List.map_map] at perm
  exact told.trans perm

end Answers

/-- Whatever the clients do, they get the answers of the ledger; a walk over everything shows each
entry of the ledger once, and a client is told its own entries. -/
theorem run_refines_ledger (config : Config) (operations : List Operation) :
    let (answers, registry) := ({ config } : Registry).run operations
    let (expected, ledger) := Ledger.run config operations
    answers = expected ∧
      (∃ shown : Holdings, shown.Perm (ledger.toList.map fun entry => (entry.1.client, entry.2)) ∧
        ∀ (σ : Type) (visitor : Visitor σ) (state : σ) (comparison : Comparison),
          registry.visit { comparison } visitor state = (.ok (), (visitor.over shown state).value)) ∧
      ∀ client, (registry.ofClient client .all).Perm
        ((ledger.toList.filter fun entry => entry.1.client = client).map Prod.snd) := by
  obtain ⟨same, follows⟩ := follows_run config operations
  refine ⟨same, visit_all_of_follows follows, ?_⟩
  intro client
  exact ofClient_of_follows follows client

end TopicRegistry.Registry
