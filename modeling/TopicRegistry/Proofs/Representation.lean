import TopicRegistry.Proofs.FilterTree.Nodes
import TopicRegistry.Proofs.Refinement

/-!
# What an index looks like inside

Two maps and a tree tell of the same subscriptions. `Coherent` says so in terms of what is stored:
the two maps have the same keys with equal subscriptions and no empty inner map, the tree has an
ending for each key of the map of filters and for nothing else, and no node is idle. Every history
leaves a coherent index behind, accepted and refused entries, removals and departures alike.
-/

namespace TopicRegistry

namespace Index

/-- The maps and the tree agree, and nothing empty or idle is kept. -/
structure Coherent (index : Index) : Prop where
  /-- The map by filter and the map by client have equal subscriptions at the same keys. -/
  equal : ∀ client filter (share : String),
    (index.sharesByFilter? client filter).bind (·[share]?) =
      (index.sharesByClient? client filter).bind (·[share]?)
  /-- A subscription stands under its own filter and its own share group. -/
  named : ∀ client filter (share : String) sub,
    (index.sharesByClient? client filter).bind (·[share]?) = some sub →
      sub.filter = filter ∧ sub.share = share
  /-- No inner map of the map by filter is empty. -/
  attended : ∀ (filter : String) (subscribers : Subscribers),
    index.filters[filter]? = some subscribers → subscribers ≠ ∅ ∧
      ∀ (client : String) (shares : Shares), subscribers[client]? = some shares → shares ≠ ∅
  /-- No inner map of the map by client is empty. -/
  occupied : ∀ (client : String) (record : ClientRecord),
    index.clients[client]? = some record → record.filters ≠ ∅ ∧
      ∀ (filter : String) (shares : Shares), record.filters[filter]? = some shares → shares ≠ ∅
  /-- A node shows a filter if its path is that of the filter and the filter has subscribers. -/
  ending : ∀ levels filter, (∃ below, index.tree.node? levels = some (some filter, below)) ↔
    levels = TopicFilter.split filter ∧ filter ∈ index.filters
  /-- Siblings have different levels, so that every node is found by its path. -/
  shaped : index.tree.WellFormed
  /-- Every node has a filter or a child. -/
  useful : ∀ levels ending below, index.tree.node? levels = some (ending, below) →
    ending ≠ none ∨ below ≠ .empty
  /-- The nodes stand at the non-empty beginnings of the paths of filters with subscribers. -/
  nodes : ∀ levels, (index.tree.node? levels).isSome ↔
    levels ≠ [] ∧ ∃ filter ∈ index.filters, levels <+: TopicFilter.split filter

variable {index : Index}

theorem shares_ne_empty_of_filter (consistent : index.Consistent) {client filter : String}
    {subscribers : Subscribers} {shares : Shares}
    (known : index.filters[filter]? = some subscribers)
    (held : subscribers[client]? = some shares) : shares ≠ ∅ := by
  have byClient := consistent.mirrored client filter
  rw [sharesByFilter?, known, Option.bind_some, held] at byClient
  exact consistent.shared client filter shares byClient.symm

theorem shares_ne_empty_of_client (consistent : index.Consistent) {client filter : String}
    {record : ClientRecord} {shares : Shares} (known : index.clients[client]? = some record)
    (held : record.filters[filter]? = some shares) : shares ≠ ∅ := by
  refine consistent.shared client filter shares ?_
  rw [sharesByClient?, known, Option.bind_some, held]

theorem node?_ending_iff (consistent : index.Consistent) (levels : List Level) (filter : String) :
    (∃ below, index.tree.node? levels = some (some filter, below)) ↔
      levels = TopicFilter.split filter ∧ filter ∈ index.filters := by
  rw [← consistent.ending, FilterTree.endingAt_eq_node?, Option.bind_eq_some_iff]
  constructor
  · rintro ⟨below, node⟩
    exact ⟨(some filter, below), node, rfl⟩
  · rintro ⟨⟨_, below⟩, node, rfl⟩
    exact ⟨below, node⟩

theorem isSome_node?_iff_prefix (consistent : index.Consistent) (levels : List Level) :
    (index.tree.node? levels).isSome ↔
      levels ≠ [] ∧ ∃ filter ∈ index.filters, levels <+: TopicFilter.split filter := by
  rw [FilterTree.isSome_node?_iff consistent.shaped]
  apply and_congr_right
  intro _
  constructor
  · rintro ⟨more, filter, hend⟩
    obtain ⟨hpath, hmem⟩ := (consistent.ending _ filter).mp hend
    exact ⟨filter, hmem, more, hpath⟩
  · rintro ⟨filter, hmem, more, hpath⟩
    exact ⟨more, filter, (consistent.ending _ filter).mpr ⟨hpath, hmem⟩⟩

/-- A consistent index is coherent. -/
theorem coherent_of_consistent (consistent : index.Consistent) : index.Coherent where
  equal client filter share := congrArg (·.bind (·[share]?)) (consistent.mirrored client filter)
  named client filter share sub found := by
    obtain ⟨shares, hshares, hsub⟩ := Option.bind_eq_some_iff.mp found
    exact consistent.keyed client filter shares share sub hshares hsub
  attended filter subscribers known := by
    refine ⟨consistent.attended filter subscribers known, ?_⟩
    intro client shares held
    exact shares_ne_empty_of_filter consistent known held
  occupied client record known := by
    refine ⟨consistent.recorded client record known, ?_⟩
    intro filter shares held
    exact shares_ne_empty_of_client consistent known held
  ending := node?_ending_iff consistent
  shaped := consistent.shaped
  useful levels ending below node := (FilterTree.useful_of_node? consistent.shaped node).1
  nodes := isSome_node?_iff_prefix consistent

end Index

/-- Every history that begins with nothing leaves a coherent index behind, and what is stored in it
is what the ledger has. -/
theorem Registry.run_coherent (config : Config) (operations : List Operation) :
    (({ config } : Registry).run operations).2.index.Coherent ∧
      (({ config } : Registry).run operations).2.index.Shows
        (Ledger.run config operations).2 := by
  have follows := (follows_run config operations).2
  exact ⟨Index.coherent_of_consistent follows.consistent, follows.shows⟩

end TopicRegistry
