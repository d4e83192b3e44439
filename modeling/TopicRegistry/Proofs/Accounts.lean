import TopicRegistry.Proofs.Accounts.Spell

/-!
# The counters of a registry

The counters are kept for the whole registry and for each client, and are changed at different
points of an insertion and of the two removals. `Accounts` says what they are at the end of a
history in terms of its answers and of what the registry shows, and that no removal takes more
from a counter than is there. It holds as long as the accepted new keys can be counted in a word;
beyond that the counters wrap.
-/

namespace TopicRegistry.Registry

/-- What the counters say at the end of a history. -/
structure Accounts (config : Config) (operations : List Operation) (answers : List Answer)
    (registry : Registry) : Prop where
  /-- The registry counts the entries that it shows. -/
  stored : ∃ found, registry.entries {} = .ok found ∧ found.Nodup ∧
    registry.index.tally.current.toNat = found.length
  /-- The clients that have counters share the count among them. -/
  shared : registry.index.tally.current.toNat =
    (registry.index.clients.toList.map fun entry => entry.2.tally.current.toNat).sum
  /-- The total is the number of accepted new keys. -/
  added : registry.index.tally.total.toNat = (answers.map Answer.newKeys).sum
  /-- What was ever added is held or was removed. -/
  balanced : registry.index.tally.total.toNat =
    registry.index.tally.current.toNat + (answers.map Answer.removals).sum
  /-- A client has no counters just when it holds nothing. -/
  absent : ∀ client, registry.clientTally client = .error (.noSubscriptions client) ↔
    registry.ofClient client .all = []
  /-- The counters of a client count its entries, and there are some. -/
  present : ∀ client tally, registry.clientTally client = .ok tally →
    tally.current.toNat = (registry.ofClient client .all).length ∧ 1 ≤ tally.current.toNat
  /-- The total of a client is the number of its new keys since it last held nothing. -/
  since : ∀ client tally, registry.clientTally client = .ok tally →
    ∃ before after, operations = before ++ after ∧ Spell config client before after ∧
      tally.total.toNat =
        newKeysOf client after ((({ config } : Registry).run before).2.run after).1
  /-- Giving a filter up takes no more from the counters than is there. -/
  releasable : ∀ client filter,
    (registry.index.remove client filter).1 ≤ registry.index.tally.current.toNat ∧
      ∀ tally, registry.clientTally client = .ok tally →
        (registry.index.remove client filter).1 ≤ tally.current.toNat
  /-- Leaving takes no more from the counters than is there. -/
  leavable : ∀ client,
    (registry.index.removeClient client).1 ≤ registry.index.tally.current.toNat

section Following

variable {config : Config} {registry : Registry} {ledger : Ledger}

theorem length_holdings_of_follows (follows : Follows config registry ledger) :
    registry.index.holdings.length = ledger.size := by
  have perm := Index.holdings_perm follows.consistent follows.shows
  have counted : (ledger.holdings fun _ => true).length = ledger.size := by
    rw [Ledger.length_holdings, Ledger.size_eq_count]
  exact perm.length_eq.trans counted

theorem length_ofClient_of_follows (follows : Follows config registry ledger) (client : String) :
    (registry.ofClient client .all).length = ledger.held client := by
  have perm := Index.holdingsOf_perm follows.consistent follows.shows client
  exact (length_ofClient registry client).trans
    (perm.length_eq.trans (Ledger.length_holdings _))

theorem clientTally_eq_ok_iff {client : String} {tally : Tally} :
    registry.clientTally client = .ok tally ↔
      registry.index.clientTally? client = some tally := by
  rw [clientTally]
  cases registry.index.clientTally? client <;> simp

theorem clientTally_eq_error_iff {client : String} :
    registry.clientTally client = .error (.noSubscriptions client) ↔
      registry.index.clientTally? client = none := by
  rw [clientTally]
  cases registry.index.clientTally? client <;> simp

/-- The keys of all clients together are what the index holds. -/
theorem sum_current_clients (follows : Follows config registry ledger)
    (counts : registry.index.Counts ledger) :
    (registry.index.clients.toList.map fun entry => entry.2.tally.current.toNat).sum =
      registry.index.holdings.length := by
  rw [Index.holdings, List.length_flatMap]
  refine congrArg List.sum (List.map_congr_left ?_)
  rintro ⟨client, record⟩ hentry
  have known := Std.ExtTreeMap.mem_toList_iff_getElem?_eq_some.mp hentry
  have tallied : registry.index.clientTally? client = some record.tally := by
    rw [Index.clientTally?, known]
    rfl
  have shown : registry.index.holdingsOf client = record.holdings client := by
    rw [Index.holdingsOf, known]
    rfl
  have perm := Index.holdingsOf_perm follows.consistent follows.shows client
  have held : (record.holdings client).length = ledger.held client := by
    rw [← shown]
    exact perm.length_eq.trans (Ledger.length_holdings _)
  exact (counts client record.tally tallied).trans held.symm

end Following

/-- As long as the accepted new keys can be counted in a word, the counters are right. -/
theorem run_accounts (config : Config) (operations : List Operation)
    (few : ((({ config } : Registry).run operations).1.map Answer.newKeys).sum < 2 ^ 64) :
    Accounts config operations (({ config } : Registry).run operations).1
      (({ config } : Registry).run operations).2 := by
  obtain ⟨ledger, balanced⟩ := balanced_run config operations
  obtain ⟨current, counts⟩ := balanced.exact few
  have balance := balanced.balance
  have size := length_holdings_of_follows balanced.toFollows
  have own := length_ofClient_of_follows balanced.toFollows
  have total := congrArg UInt64.toNat balanced.total
  rw [UInt64.toNat_ofNat_of_lt' few] at total
  refine
    { stored := ?stored
      shared := ?shared
      added := total
      balanced := by rw [total, current, balance]
      absent := ?absent
      present := ?present
      since := ?since
      releasable := ?releasable
      leavable := ?leavable }
  case stored =>
    have nodup := Index.nodup_holdings balanced.consistent
    refine ⟨_, entries_all _, (List.reverse_perm _).nodup_iff.mpr nodup, ?_⟩
    rw [List.length_reverse, current, size]
  case shared =>
    rw [sum_current_clients balanced.toFollows counts, current, size]
  case absent =>
    intro client
    rw [clientTally_eq_error_iff, ofClient_eq_nil_iff balanced.toFollows]
  case present =>
    intro client tally known
    have held := clientTally_eq_ok_iff.mp known
    have exact := counts client tally held
    have some : ledger.held client ≠ 0 := by
      intro nothing
      have gone := (Index.clientTally?_eq_none_iff balanced.consistent balanced.shows).mpr nothing
      rw [held] at gone
      cases gone
    rw [own, exact]
    omega
  case since =>
    intro client tally known
    obtain ⟨before, after, rfl, spell, htotal⟩ :=
      exists_spell config client operations (clientTally_eq_ok_iff.mp known)
    refine ⟨before, after, rfl, spell, ?_⟩
    have bound := newKeysOf_le client after ((({ config } : Registry).run before).2.run after).1
    rw [run_append, List.map_append, List.sum_append] at few
    have small : newKeysOf client after
        ((({ config } : Registry).run before).2.run after).1 < 2 ^ 64 := by omega
    rw [htotal, UInt64.toNat_ofNat_of_lt' small]
  case releasable =>
    intro client filter
    rw [Index.count_remove_eq balanced.consistent balanced.shows]
    have kept : _ = ledger.size := Ledger.size_without_add (Key.isUnder client filter)
    refine ⟨by omega, ?_⟩
    intro tally known
    rw [counts client tally (clientTally_eq_ok_iff.mp known)]
    exact Ledger.count_le_count fun key => Key.isOf_of_isUnder
  case leavable =>
    intro client
    rw [Index.count_removeClient_eq balanced.consistent balanced.shows, current]
    exact Ledger.held_le_size client

/-- Two clients come and go: a key is written twice, a filter is refused, another one is given up
with both of its share groups, and a client leaves and comes back. -/
def comingAndGoing : List Operation :=
  [.subscribe "ann" [{ share := "", filter := "a/+" }, { share := "g", filter := "a/+" },
    { share := "", filter := "a/+" }, { share := "", filter := "a/#/b" }],
   .subscribe "bob" [{ share := "", filter := "a/#" }],
   .unsubscribe "ann" ["a/+", "a/#"],
   .unsubscribeAll "bob",
   .subscribe "bob" [{ share := "", filter := "$SYS/#" }, { share := "", filter := "a/b" }]]

theorem run_accounts_comingAndGoing :
    ((({} : Registry).run comingAndGoing).1.map Answer.newKeys).sum = 5 ∧
      Accounts {} comingAndGoing (({} : Registry).run comingAndGoing).1
        (({} : Registry).run comingAndGoing).2 :=
  ⟨by decide, run_accounts {} comingAndGoing (by decide)⟩

end TopicRegistry.Registry
