import TopicRegistry.Proofs.Refinement

/-!
# Counting what the answers report

The answers to a history report how many new keys were accepted and how many subscriptions were
removed. `Accumulates` is what a property of registries needs so that it can keep book of the two
numbers along a history. The balance of a registry is such a property: its tally counts the new
keys, what is held and what was removed make up all of them, and nothing wraps or saturates as
long as the new keys can be counted in a word.
-/

namespace TopicRegistry

/-- Whether an entry was accepted at a key that was not there. -/
def isNewKey : Except RegistryError Receipt → Bool
  | .ok receipt => !receipt.alreadyExisted
  | .error _ => false

namespace Answer

def newKeys : Answer → Nat
  | receipts answers => answers.countP isNewKey
  | removed _ => 0

def removals : Answer → Nat
  | receipts _ => 0
  | removed count => count

end Answer

namespace Registry

section Accumulating

/-- A property of registries that keeps book of new keys and of removals. -/
structure Accumulates (P : Registry → Nat → Nat → Prop) : Prop where
  submit : ∀ {registry added removed}, P registry added removed → ∀ client sub,
    P (registry.subscribe client sub).2
      (added + if isNewKey (registry.subscribe client sub).1 then 1 else 0) removed
  release : ∀ {registry added removed}, P registry added removed → ∀ client filter,
    P { registry with index := (registry.index.remove client filter).2 } added
      (removed + (registry.index.remove client filter).1)
  leave : ∀ {registry added removed}, P registry added removed → ∀ client,
    P (registry.unsubscribeAll client).2 added (removed + (registry.unsubscribeAll client).1)

variable {P : Registry → Nat → Nat → Prop} {registry : Registry} {added removed : Nat}

theorem Accumulates.subscribeAll (accumulates : Accumulates P) (h : P registry added removed)
    (client : String) (subs : List Subscription) :
    P (registry.subscribeAll client subs).2
      (added + (registry.subscribeAll client subs).1.countP isNewKey) removed := by
  induction subs generalizing registry added with
  | nil => exact h
  | cons sub subs ih =>
    have answers : (registry.subscribeAll client (sub :: subs)).1 =
        (registry.subscribe client sub).1 ::
          ((registry.subscribe client sub).2.subscribeAll client subs).1 := rfl
    have next := ih (accumulates.submit h client sub)
    rw [Nat.add_right_comm, Nat.add_assoc] at next
    rw [answers, List.countP_cons]
    exact next

theorem Accumulates.unsubscribe (accumulates : Accumulates P) (h : P registry added removed)
    (client : String) (filters : List String) :
    P (registry.unsubscribe client filters).2 added
      (removed + (registry.unsubscribe client filters).1) := by
  induction filters generalizing registry removed with
  | nil => exact h
  | cons filter filters ih =>
    have next := ih (accumulates.release h client filter)
    rw [Nat.add_assoc] at next
    exact next

theorem Accumulates.perform (accumulates : Accumulates P) (h : P registry added removed)
    (operation : Operation) :
    P (registry.perform operation).2 (added + (registry.perform operation).1.newKeys)
      (removed + (registry.perform operation).1.removals) := by
  cases operation with
  | subscribe client subs => exact accumulates.subscribeAll h client subs
  | unsubscribe client filters => exact accumulates.unsubscribe h client filters
  | unsubscribeAll client => exact accumulates.leave h client

/-- Along a history the answers are added up. -/
theorem Accumulates.run (accumulates : Accumulates P) (h : P registry added removed)
    (operations : List Operation) :
    P (registry.run operations).2
      (added + ((registry.run operations).1.map Answer.newKeys).sum)
      (removed + ((registry.run operations).1.map Answer.removals).sum) := by
  induction operations generalizing registry added removed with
  | nil => exact h
  | cons operation operations ih =>
    have next := ih (accumulates.perform h operation)
    rw [Nat.add_assoc, Nat.add_assoc] at next
    exact next

end Accumulating

/-- The tally of a registry counts all new keys; what is held and what was removed make them up.
As long as they can be counted in a word, the tallies say how many keys are held. -/
structure Balanced (config : Config) (registry : Registry) (ledger : Ledger)
    (added removed : Nat) : Prop extends Follows config registry ledger where
  total : registry.index.tally.total = UInt64.ofNat added
  balance : added = ledger.size + removed
  exact : added < 2 ^ 64 →
    registry.index.tally.current.toNat = ledger.size ∧ registry.index.Counts ledger

section Balance

variable {config : Config} {registry : Registry} {ledger : Ledger} {added removed : Nat}

theorem balanced_empty (config : Config) : Balanced config { config } ∅ 0 0 where
  toFollows := follows_empty config
  total := rfl
  balance := by rw [Std.ExtTreeMap.size_empty]
  exact _ := ⟨by rw [Std.ExtTreeMap.size_empty]; rfl, Index.counts_empty⟩

/-- Writing over a key counts nothing. -/
theorem balanced_overwrite (balanced : Balanced config registry ledger added removed)
    {client : String} {sub : Subscription}
    (accepted : ledger.refusal? config client sub = none) (there : Key.of client sub ∈ ledger) :
    Balanced config { registry with index := (registry.index.insert client sub).2 }
      (ledger.write client sub) added removed where
  toFollows := follows_insert balanced.toFollows accepted
  total := by
    rw [Index.tally_insert_of_mem balanced.consistent balanced.shows there]
    exact balanced.total
  balance := by rw [Ledger.size_write_of_mem there, balanced.balance]
  exact few := by
    obtain ⟨current, counts⟩ := balanced.exact few
    have balance := balanced.balance
    have room : (ledger.write client sub).held client < 2 ^ 64 := by
      have held : ledger.held client ≤ ledger.size := Ledger.held_le_size client
      rw [Ledger.held_write_of_mem there]
      omega
    rw [Index.tally_insert_of_mem balanced.consistent balanced.shows there,
      Ledger.size_write_of_mem there]
    exact ⟨current, Index.counts_insert balanced.consistent balanced.shows counts room⟩

/-- Writing at a new key counts one. -/
theorem balanced_write (balanced : Balanced config registry ledger added removed)
    {client : String} {sub : Subscription}
    (accepted : ledger.refusal? config client sub = none) (fresh : Key.of client sub ∉ ledger) :
    Balanced config { registry with index := (registry.index.insert client sub).2 }
      (ledger.write client sub) (added + 1) removed where
  toFollows := follows_insert balanced.toFollows accepted
  total := by
    rw [Index.tally_insert_of_not_mem balanced.consistent balanced.shows fresh, Tally.add,
      UInt64.ofNat_add, balanced.total]
    rfl
  balance := by
    have balance := balanced.balance
    rw [Ledger.size_write_of_not_mem fresh]
    omega
  exact few := by
    obtain ⟨current, counts⟩ := balanced.exact (Nat.lt_of_succ_lt few)
    have balance := balanced.balance
    have room : (ledger.write client sub).held client < 2 ^ 64 := by
      have held : (ledger.write client sub).held client ≤ (ledger.write client sub).size :=
        Ledger.held_le_size client
      rw [Ledger.size_write_of_not_mem fresh] at held
      omega
    have grown : registry.index.tally.current.toNat + 1 < 2 ^ 64 := by omega
    refine ⟨?_, Index.counts_insert balanced.consistent balanced.shows counts room⟩
    rw [Index.tally_insert_of_not_mem balanced.consistent balanced.shows fresh,
      Index.toNat_current_add grown, current, Ledger.size_write_of_not_mem fresh]

/-- What a removal takes from the tally is there. -/
theorem balanced_remove (balanced : Balanced config registry ledger added removed)
    (client filter : String) :
    Balanced config { registry with index := (registry.index.remove client filter).2 }
      (ledger.without (Key.isUnder client filter)) added
      (removed + (registry.index.remove client filter).1) where
  toFollows := follows_remove balanced.toFollows client filter
  total := by
    rw [Index.tally_remove, Tally.total_remove]
    exact balanced.total
  balance := by
    have balance := balanced.balance
    have kept : _ = ledger.size := Ledger.size_without_add (Key.isUnder client filter)
    rw [Index.count_remove_eq balanced.consistent balanced.shows]
    omega
  exact few := by
    obtain ⟨current, counts⟩ := balanced.exact few
    exact ⟨Index.current_remove balanced.consistent balanced.shows current client filter,
      Index.counts_remove balanced.consistent balanced.shows counts client filter⟩

theorem balanced_removeClient (balanced : Balanced config registry ledger added removed)
    (client : String) :
    Balanced config (registry.unsubscribeAll client).2 (ledger.without (Key.isOf client)) added
      (removed + (registry.unsubscribeAll client).1) where
  toFollows := follows_removeClient balanced.toFollows client
  total := by
    rw [unsubscribeAll, Index.tally_removeClient, Tally.total_remove]
    exact balanced.total
  balance := by
    have balance := balanced.balance
    have kept : _ + ledger.held client = ledger.size := Ledger.size_without_add (Key.isOf client)
    rw [unsubscribeAll, Index.count_removeClient_eq balanced.consistent balanced.shows]
    omega
  exact few := by
    obtain ⟨current, counts⟩ := balanced.exact few
    exact ⟨Index.current_removeClient balanced.consistent balanced.shows current client,
      Index.counts_removeClient counts client⟩

/-- A registry stays in balance with some ledger, whatever the clients do. -/
theorem accumulates_balanced (config : Config) :
    Accumulates fun registry added removed =>
      ∃ ledger, Balanced config registry ledger added removed where
  submit := by
    rintro registry added removed ⟨ledger, balanced⟩ client sub
    rw [subscribe, refusal?_eq balanced.toFollows]
    cases judged : ledger.refusal? config client sub with
    | some e => exact ⟨ledger, balanced⟩
    | none =>
      have existed := Index.existed_insert_eq balanced.consistent balanced.shows client sub
      refine ⟨ledger.write client sub, ?_⟩
      by_cases there : Key.of client sub ∈ ledger
      · have old := existed.trans (Std.ExtTreeMap.contains_iff_mem.mpr there)
        have same := balanced_overwrite balanced judged there
        simpa [isNewKey, old] using same
      · have new := existed.trans
          (Bool.eq_false_iff.mpr fun h => there (Std.ExtTreeMap.contains_iff_mem.mp h))
        have grown := balanced_write balanced judged there
        simpa [isNewKey, new] using grown
  release := by
    rintro registry added removed ⟨ledger, balanced⟩ client filter
    exact ⟨_, balanced_remove balanced client filter⟩
  leave := by
    rintro registry added removed ⟨ledger, balanced⟩ client
    exact ⟨_, balanced_removeClient balanced client⟩

/-- At the end of a history that began with nothing, the answers balance. -/
theorem balanced_run (config : Config) (operations : List Operation) :
    let (answers, registry) := ({ config } : Registry).run operations
    ∃ ledger, Balanced config registry ledger (answers.map Answer.newKeys).sum
      (answers.map Answer.removals).sum := by
  have start : ∃ ledger, Balanced config { config } ledger 0 0 := ⟨∅, balanced_empty config⟩
  have balanced := (accumulates_balanced config).run start operations
  rwa [Nat.zero_add, Nat.zero_add] at balanced

end Balance

end Registry

end TopicRegistry
