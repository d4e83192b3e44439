import Mathlib.Data.List.Induction
import TopicRegistry.Proofs.Accounts

/-!
# The current number as long as it fits

The number of held subscriptions is kept in a word. An insertion counts on beyond the largest word
and begins again at zero; a removal stops at zero. So the number may wrap while a batch goes on,
and is right again as soon as what is held can be counted in a word, but only if no removal begins
before that. A history fits if this never happens between two of its operations.
-/

namespace TopicRegistry.Registry

/-- Between the operations of a history no more is held than a word can count. -/
def Fits (config : Config) (operations : List Operation) : Prop :=
  ∀ before rest, operations = before ++ rest →
    (({ config } : Registry).run before).2.index.holdings.length < 2 ^ 64

/-- The current number is what is held, up to multiples of the size of a word. -/
def CountsWrapped (config : Config) (registry : Registry) : Prop :=
  ∃ ledger, Follows config registry ledger ∧
    registry.index.tally.current = UInt64.ofNat ledger.size

def CountsExactly (config : Config) (registry : Registry) : Prop :=
  ∃ ledger, Follows config registry ledger ∧ registry.index.tally.current.toNat = ledger.size

section Steps

variable {config : Config} {registry : Registry}

theorem CountsExactly.wrapped (exactly : CountsExactly config registry) :
    CountsWrapped config registry := by
  obtain ⟨ledger, follows, current⟩ := exactly
  refine ⟨ledger, follows, ?_⟩
  rw [← current, UInt64.ofNat_toNat]

theorem CountsWrapped.exactly (wrapped : CountsWrapped config registry)
    (small : registry.index.holdings.length < 2 ^ 64) : CountsExactly config registry := by
  obtain ⟨ledger, follows, current⟩ := wrapped
  rw [length_holdings_of_follows follows] at small
  refine ⟨ledger, follows, ?_⟩
  rw [current, UInt64.toNat_ofNat_of_lt' small]

theorem CountsExactly.current (exactly : CountsExactly config registry) :
    registry.index.tally.current.toNat = registry.index.holdings.length := by
  obtain ⟨ledger, follows, current⟩ := exactly
  rw [current, length_holdings_of_follows follows]

theorem CountsWrapped.subscribe (wrapped : CountsWrapped config registry) (client : String)
    (sub : Subscription) : CountsWrapped config (registry.subscribe client sub).2 := by
  obtain ⟨ledger, follows, current⟩ := wrapped
  rw [Registry.subscribe, refusal?_eq follows]
  cases judged : ledger.refusal? config client sub with
  | some e => exact ⟨ledger, follows, current⟩
  | none =>
    refine ⟨_, follows_insert follows judged, ?_⟩
    by_cases there : Key.of client sub ∈ ledger
    · rw [Index.tally_insert_of_mem follows.consistent follows.shows there,
        Ledger.size_write_of_mem there]
      exact current
    · rw [Index.tally_insert_of_not_mem follows.consistent follows.shows there,
        Ledger.size_write_of_not_mem there, UInt64.ofNat_add, ← current]
      rfl

theorem CountsWrapped.subscribeAll (wrapped : CountsWrapped config registry) (client : String)
    (subs : List Subscription) :
    CountsWrapped config (registry.subscribeAll client subs).2 := by
  induction subs generalizing registry with
  | nil => exact wrapped
  | cons sub subs ih => exact ih (wrapped.subscribe client sub)

theorem CountsExactly.remove (exactly : CountsExactly config registry) (client filter : String) :
    CountsExactly config { registry with index := (registry.index.remove client filter).2 } := by
  obtain ⟨ledger, follows, current⟩ := exactly
  exact ⟨_, follows_remove follows client filter,
    Index.current_remove follows.consistent follows.shows current client filter⟩

theorem CountsExactly.unsubscribe (exactly : CountsExactly config registry) (client : String)
    (filters : List String) : CountsExactly config (registry.unsubscribe client filters).2 := by
  induction filters generalizing registry with
  | nil => exact exactly
  | cons filter filters ih => exact ih (exactly.remove client filter)

theorem CountsExactly.unsubscribeAll (exactly : CountsExactly config registry)
    (client : String) : CountsExactly config (registry.unsubscribeAll client).2 := by
  obtain ⟨ledger, follows, current⟩ := exactly
  exact ⟨_, follows_removeClient follows client,
    Index.current_removeClient follows.consistent follows.shows current client⟩

/-- After an operation the number is right, if what is held fits. -/
theorem CountsExactly.perform (exactly : CountsExactly config registry) (operation : Operation)
    (small : (registry.perform operation).2.index.holdings.length < 2 ^ 64) :
    CountsExactly config (registry.perform operation).2 := by
  cases operation with
  | subscribe client subs => exact (exactly.wrapped.subscribeAll client subs).exactly small
  | unsubscribe client filters => exact exactly.unsubscribe client filters
  | unsubscribeAll client => exact exactly.unsubscribeAll client

end Steps

theorem Fits.of_append {config : Config} {operations more : List Operation}
    (fits : Fits config (operations ++ more)) : Fits config operations := by
  rintro before rest rfl
  exact fits before (rest ++ more) (List.append_assoc before rest more)

/-- A history fits if all its new keys together can be counted in a word. -/
theorem fits_of_few {config : Config} {operations : List Operation}
    (few : ((({ config } : Registry).run operations).1.map Answer.newKeys).sum < 2 ^ 64) :
    Fits config operations := by
  rintro before rest rfl
  obtain ⟨ledger, balanced⟩ := balanced_run config before
  have balance := balanced.balance
  rw [run_append, List.map_append, List.sum_append] at few
  rw [length_holdings_of_follows balanced.toFollows]
  omega

/-- At the end of a history that fits, the current number is what is held. -/
theorem countsExactly_run {config : Config} {operations : List Operation}
    (fits : Fits config operations) :
    CountsExactly config (({ config } : Registry).run operations).2 := by
  induction operations using List.reverseRecOn with
  | nil =>
    refine ⟨∅, follows_empty config, ?_⟩
    rw [Std.ExtTreeMap.size_empty]
    rfl
  | append_singleton operations operation ih =>
    have small := fits (operations ++ [operation]) [] (List.append_nil _).symm
    rw [run_append] at small ⊢
    exact (ih fits.of_append).perform operation small

end TopicRegistry.Registry
