import TopicRegistry.Proofs.Admission
import TopicRegistry.Proofs.Index.Removal
import TopicRegistry.Proofs.Selection

/-!
# Giving up everything, at once or in parts

A client can leave, or it can give up all its filters one after the other. Both end with the same
answer and the same index, although they change its parts in different orders. Of a list of
filters only those matter that the client has: not their order, not how often they are named, and
no other text in the list. The counters are words and an answer is not, so the counters are only
the same in both cases as long as the answer fits into a word.
-/

namespace TopicRegistry

namespace Registry

/-- Two removals have the same answer and leave the same registry, the current number included if
the answer fits into a word. -/
structure Coincide (one other : Nat × Registry) : Prop where
  count : one.1 = other.1
  configured : one.2.config = other.2.config
  tree : one.2.index.tree = other.2.index.tree
  filters : one.2.index.filters = other.2.index.filters
  clients : one.2.index.clients = other.2.index.clients
  total : one.2.index.tally.total = other.2.index.tally.total
  current : one.1 < 2 ^ 64 → one.2.index.tally.current = other.2.index.tally.current

/-- A removal takes away what a client has under some filters, and the answer is how much that is.
What the client has under other filters stays, and so does everything of the other clients, in both
maps, in the tree and in the answer to every query. -/
structure TakesOnly (registry : Registry) (client : String) (filters : List String)
    (removal : Nat × Registry) : Prop where
  /-- Every query shows what it showed before, without what is taken. -/
  shown : ∀ query : Query,
    match query.comparison.read query.topic with
    | .error e => registry.Rejects query e ∧ removal.2.Rejects query e
    | .ok _ => ∃ before after : Holdings,
        registry.Displays query before ∧ removal.2.Displays query after ∧
        after.Perm (before.filter fun entry =>
          !(entry.1 = client && filters.contains entry.2.filter))
  count : removal.1 + (removal.2.ofClient client .all).length =
    (registry.ofClient client .all).length
  configured : removal.2.config = registry.config
  /-- The records of other clients stay, counters included. -/
  others : ∀ other, other ≠ client →
    removal.2.index.clients[other]? = registry.index.clients[other]?
  /-- The record of the client loses the filters that are given up, and no others. -/
  own : ∀ filter, removal.2.index.sharesByClient? client filter =
    if filter ∈ filters then none else registry.index.sharesByClient? client filter
  /-- The client is taken from the subscribers of these filters, and nobody else from any. -/
  subscribers : ∀ other filter, removal.2.index.sharesByFilter? other filter =
    if other = client ∧ filter ∈ filters then none
    else registry.index.sharesByFilter? other filter
  /-- In the tree the same filters end where they ended, as long as they have a subscriber. -/
  endings : ∀ levels filter, removal.2.index.tree.endingAt levels = some filter ↔
    registry.index.tree.endingAt levels = some filter ∧
      ∃ other, (removal.2.index.sharesByFilter? other filter).isSome

theorem unsubscribe_eq (registry : Registry) (client : String) (filters : List String) :
    registry.unsubscribe client filters =
      ((registry.index.releaseAll client filters).1,
        { registry with index := (registry.index.releaseAll client filters).2 }) := by
  induction filters generalizing registry with
  | nil => rfl
  | cons filter filters ih => simp only [unsubscribe, ih, Index.releaseAll]

section Following

variable {config : Config} {registry : Registry} {ledger : Ledger} {client : String}
  {filters : List String} (follows : Follows config registry ledger)
include follows

/-- A client is told a subscription under every filter that it has. -/
theorem exists_mem_ofClient {filter : String} {shares : Shares}
    (held : registry.index.sharesByClient? client filter = some shares) :
    ∃ sub ∈ registry.ofClient client .all, sub.filter = filter := by
  obtain ⟨share, sub, found⟩ := exists_entry (follows.consistent.shared client filter shares held)
  obtain ⟨rfl, rfl⟩ := follows.consistent.keyed client filter shares share sub held found
  refine ⟨sub, ?_, rfl⟩
  rw [mem_ofClient follows, ← Index.holds_iff_of_shows follows.shows]
  exact (Index.holds_iff follows.consistent).mpr ⟨_, shares, _, held, found⟩

/-- Lists that name the same of the filters of a client are given up alike. -/
theorem unsubscribe_congr {others : List String}
    (same : ∀ sub ∈ registry.ofClient client .all, sub.filter ∈ filters ↔ sub.filter ∈ others) :
    registry.unsubscribe client filters = registry.unsubscribe client others := by
  have lighter := Index.lighter_releaseAll follows.consistent client
  have consistent := Index.consistent_releaseAll follows.consistent client
  have left : ∀ f,
      (registry.index.releaseAll client filters).2.sharesByClient? client f =
        (registry.index.releaseAll client others).2.sharesByClient? client f := by
    intro f
    rw [Index.sharesByClient?_releaseAll, Index.sharesByClient?_releaseAll]
    cases held : registry.index.sharesByClient? client f with
    | none => rw [ite_self, ite_self]
    | some shares =>
      obtain ⟨sub, told, rfl⟩ := exists_mem_ofClient follows held
      simp only [same sub told]
  obtain ⟨count, index⟩ := Index.eq_of_lighter (lighter filters) (lighter others)
    (consistent filters) (consistent others) left
  rw [unsubscribe_eq, unsubscribe_eq, count, index]

/-- Nothing is left of a client that gave up all its filters. -/
theorem sharesByClient?_of_complete
    (complete : ∀ sub ∈ registry.ofClient client .all, sub.filter ∈ filters) (f : String) :
    (registry.index.releaseAll client filters).2.sharesByClient? client f = none := by
  rw [Index.sharesByClient?_releaseAll]
  cases held : registry.index.sharesByClient? client f with
  | none => exact ite_self none
  | some shares =>
    obtain ⟨sub, told, rfl⟩ := exists_mem_ofClient follows held
    exact if_pos ⟨rfl, complete sub told⟩

/-- Giving up all filters one after the other is leaving. -/
theorem coincide_of_complete
    (complete : ∀ sub ∈ registry.ofClient client .all, sub.filter ∈ filters) :
    Coincide (registry.unsubscribe client filters) (registry.unsubscribeAll client) ∧
      (registry.unsubscribe client filters).2.index.clients[client]? = none := by
  have consistent := follows.consistent
  have lighter := Index.lighter_releaseAll consistent client filters
  have nothing := sharesByClient?_of_complete follows complete
  have released := Index.consistent_releaseAll consistent client filters
  have left := Index.consistent_removeClient client consistent
  have gone := Index.getElem?_clients_eq_none released nothing
  have filtersEq : (registry.index.releaseAll client filters).2.filters =
      (registry.index.removeClient client).2.filters := by
    apply Index.filters_eq released left
    intro c f
    rw [Index.sharesByClient?_removeClient]
    split
    · next hc => exact hc ▸ nothing f
    · next hc => rw [Index.sharesByClient?_releaseAll, if_neg fun h => hc h.1]
  have countEq : (registry.index.releaseAll client filters).1 =
      (registry.index.removeClient client).1 := by
    have counted := lighter.counted
    rw [Index.weigh_of_unknown gone, Nat.add_zero, Index.weigh_id] at counted
    rw [counted, Index.count_removeClient]
  have tallied := lighter.tallied
  rw [Index.weigh_of_unknown gone, Nat.sub_zero] at tallied
  have talliedToo := Index.tally_removeClient registry.index client
  rw [unsubscribe_eq]
  refine ⟨?_, gone⟩
  refine
    { count := countEq
      configured := rfl
      tree := ?tree
      filters := filtersEq
      clients := ?clients
      total := ?total
      current := ?current }
  case tree =>
    have cut := (Index.cut_removeClient consistent.toRouted client).tree
    rw [← filtersEq, ← lighter.cut.tree] at cut
    exact cut.symm
  case clients =>
    apply Std.ExtTreeMap.ext_getElem?
    intro c
    by_cases hc : c = client
    · rw [hc]
      exact gone.trans (Index.clients_removeClient_self registry.index client).symm
    · exact (lighter.apart c hc).trans
        (Index.getElem?_clients_removeClient_of_ne registry.index hc).symm
  case total =>
    exact (congrArg Tally.total tallied).trans (congrArg Tally.total talliedToo).symm
  case current =>
    intro small
    have fits : registry.index.weigh id client < 2 ^ 64 := by
      rw [Index.weigh_id, ← Index.count_removeClient, ← countEq]
      exact small
    have words : registry.index.weigh Index.inWord client =
        (UInt64.ofNat (registry.index.removeClient client).1).toNat := by
      rw [Index.weigh_inWord fits, Index.weigh_id, ← Index.count_removeClient, ← countEq]
      exact (Index.inWord_of_lt small).symm
    rw [words, ← Tally.remove_eq_lower] at tallied
    exact congrArg Tally.current (tallied.trans talliedToo.symm)

/-- What a query reaches after filters are given up is what it reached before, without what the
client had under them. -/
theorem reached_releaseAll_perm {subject : Option Subject} (plain : ∀ s ∈ subject, s.Plain)
    (mask : KindMask) (asked : Option String) :
    (mask.admitted ((registry.index.releaseAll client filters).2.reached asked subject)).Perm
      ((mask.admitted (registry.index.reached asked subject)).filter fun entry =>
        !(entry.1 = client && filters.contains entry.2.filter)) := by
  have consistent := follows.consistent
  have released := Index.consistent_releaseAll consistent client filters
  have nodup := (Index.nodup_reached released asked plain).filter fun entry =>
    mask.admits entry.2.share entry.2.filter
  have nodupBefore := (Index.nodup_reached consistent asked plain).filter fun entry =>
    mask.admits entry.2.share entry.2.filter
  refine (List.perm_ext_iff_of_nodup nodup (nodupBefore.filter _)).mpr ?_
  rintro ⟨c, sub⟩
  have spared : (!(c = client && filters.contains sub.filter)) = true ↔
      ¬(c = client ∧ sub.filter ∈ filters) := by
    rw [Bool.not_eq_true', ← Bool.not_eq_true]
    simp
  rw [List.mem_filter, List.mem_filter, List.mem_filter, Index.mem_reached released plain,
    Index.mem_reached consistent plain, Index.holds_releaseAll_iff, spared]
  constructor
  · rintro ⟨⟨⟨holds, spare⟩, asked⟩, admitted⟩
    exact ⟨⟨⟨holds, asked⟩, admitted⟩, spare⟩
  · rintro ⟨⟨⟨holds, asked⟩, admitted⟩, spare⟩
    exact ⟨⟨⟨holds, spare⟩, asked⟩, admitted⟩

theorem takesOnly_unsubscribe :
    registry.TakesOnly client filters (registry.unsubscribe client filters) := by
  have consistent := follows.consistent
  have released := Index.consistent_releaseAll consistent client filters
  have lighter := Index.lighter_releaseAll consistent client filters
  rw [unsubscribe_eq]
  refine
    { shown := ?shown
      count := ?count
      configured := rfl
      others := lighter.apart
      own := ?own
      subscribers := ?subscribers
      endings := ?endings }
  case shown =>
    intro query
    cases read : query.comparison.read query.topic with
    | error e => exact ⟨rejects_of_read read, rejects_of_read read⟩
    | ok subject =>
      have plain := Comparison.plain_of_read read
      exact ⟨_, _, displays_of_read read, displays_of_read read,
        reached_releaseAll_perm follows plain query.mask query.client⟩
  case count =>
    have counted := lighter.counted
    rw [Index.weigh_id, Index.weigh_id] at counted
    rw [length_ofClient, length_ofClient]
    exact counted
  case own =>
    intro filter
    rw [Index.sharesByClient?_releaseAll]
    simp
  case subscribers =>
    intro other filter
    rw [released.mirrored, consistent.mirrored, Index.sharesByClient?_releaseAll]
  case endings =>
    intro levels filter
    rw [released.ending, consistent.ending, ← Index.mem_filters_iff released, and_assoc]
    exact and_congr_right fun _ => (and_iff_right_of_imp (lighter.cut.fewer filter)).symm

end Following

/-- Giving up all filters one by one is leaving; for any list only the filters matter that the
client has, whatever their order and number; and nothing else is taken away. -/
theorem run_teardown (config : Config) (operations : List Operation) (client : String) :
    let registry := (({ config } : Registry).run operations).2
    (∀ filters, (∀ sub ∈ registry.ofClient client .all, sub.filter ∈ filters) →
      Coincide (registry.unsubscribe client filters) (registry.unsubscribeAll client) ∧
        (registry.unsubscribe client filters).2.index.clients[client]? = none) ∧
    (∀ filters others,
      (∀ sub ∈ registry.ofClient client .all, sub.filter ∈ filters ↔ sub.filter ∈ others) →
      registry.unsubscribe client filters = registry.unsubscribe client others) ∧
    ∀ filters, registry.TakesOnly client filters (registry.unsubscribe client filters) := by
  intro registry
  have follows : Follows config registry (Ledger.run config operations).2 :=
    (follows_run config operations).2
  refine ⟨?_, ?_, ?_⟩
  · intro filters complete
    exact coincide_of_complete follows complete
  · intro filters others same
    exact unsubscribe_congr follows same
  · intro filters
    exact takesOnly_unsubscribe follows

end Registry

end TopicRegistry
