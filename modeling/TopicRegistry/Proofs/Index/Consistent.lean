import TopicRegistry.Proofs.Levels
import TopicRegistry.Registry.FilterTree.Lemmas
import TopicRegistry.Registry.Index.Lemmas

/-!
# The three parts of an index agree

An index keeps what it holds by filter, by client and, as far as filters go, in a tree. `Routed`
ties the tree to the map of filters, `Consistent` ties both to the records of the clients. Taking
one client from one filter keeps `Routed` whatever the records say, so the two ways of removing,
which change records and filters in different orders, only have to end with equal maps.
-/

namespace TopicRegistry.Index

/-- What a client holds under a filter, found through the record of the client. -/
def sharesByClient? (index : Index) (client filter : String) : Option Shares :=
  index.clients[client]?.bind (·.filters[filter]?)

def sharesByFilter? (index : Index) (client filter : String) : Option Shares :=
  index.filters[filter]?.bind (·[client]?)

theorem find?_eq_bind (index : Index) (client filter share : String) :
    index.find? client filter share = (index.sharesByClient? client filter).bind (·[share]?) := rfl

/-- The tree leads to exactly the filters that have subscribers. -/
structure Routed (index : Index) : Prop where
  ending : ∀ levels filter, index.tree.endingAt levels = some filter ↔
    levels = TopicFilter.split filter ∧ filter ∈ index.filters
  shaped : index.tree.WellFormed
  attended : ∀ (filter : String) (subscribers : Subscribers),
    index.filters[filter]? = some subscribers → subscribers ≠ ∅

/-- The tree, the map of filters and the records of the clients say the same. -/
structure Consistent (index : Index) : Prop extends Routed index where
  mirrored : ∀ client filter,
    index.sharesByFilter? client filter = index.sharesByClient? client filter
  keyed : ∀ client filter (shares : Shares) (share : String) sub,
    index.sharesByClient? client filter = some shares → shares[share]? = some sub →
      sub.filter = filter ∧ sub.share = share
  shared : ∀ client filter shares, index.sharesByClient? client filter = some shares → shares ≠ ∅
  recorded : ∀ (client : String) (record : ClientRecord),
    index.clients[client]? = some record → record.filters ≠ ∅

/-- What holds of every held subscription holds if fewer are held. -/
theorem Consistent.of_fewer {index other : Index} (consistent : index.Consistent)
    (routed : other.Routed)
    (mirrored : ∀ client filter,
      other.sharesByFilter? client filter = other.sharesByClient? client filter)
    (fewer : ∀ client filter shares, other.sharesByClient? client filter = some shares →
      index.sharesByClient? client filter = some shares)
    (recorded : ∀ (client : String) (record : ClientRecord),
      other.clients[client]? = some record → record.filters ≠ ∅) : other.Consistent where
  toRouted := routed
  mirrored := mirrored
  keyed client filter shares share sub held :=
    consistent.keyed client filter shares share sub (fewer client filter shares held)
  shared client filter shares held :=
    consistent.shared client filter shares (fewer client filter shares held)
  recorded := recorded

theorem Routed.of_eq {index other : Index} (routed : index.Routed) (tree : other.tree = index.tree)
    (filters : other.filters = index.filters) : other.Routed where
  ending levels filter := by rw [tree, filters, routed.ending]
  shaped := tree ▸ routed.shaped
  attended filter subscribers h := routed.attended filter subscribers (filters ▸ h)

theorem split_ne_nil (filter : String) : TopicFilter.split filter ≠ [] := by
  simp [TopicFilter.split, Topic.segments_ne_nil]

theorem split_injective {filter other : String}
    (h : TopicFilter.split filter = TopicFilter.split other) : filter = other :=
  Topic.segments_injective ((List.map_inj_right fun _ _ => Level.ofText_injective).mp h)

theorem consistent_empty : Consistent {} where
  ending levels filter := by simp
  shaped := trivial
  attended filter subscribers h := by simp at h
  mirrored client filter := by simp [sharesByFilter?, sharesByClient?]
  keyed client filter shares share sub h := by simp [sharesByClient?] at h
  shared client filter shares h := by simp [sharesByClient?] at h
  recorded client record h := by simp at h

section Insert

variable (index : Index) (client : String) (sub : Subscription)

theorem sharesByClient?_insert (c f : String) :
    (index.insert client sub).2.sharesByClient? c f =
      if c = client ∧ f = sub.filter then
        some (((index.sharesByClient? client sub.filter).getD ∅).insert sub.share sub)
      else index.sharesByClient? c f := by
  by_cases hc : c = client
  · subst hc
    by_cases hf : f = sub.filter
    · subst hf
      cases hr : index.clients[c]? <;> simp [insert, sharesByClient?, hr]
    · have hf' : sub.filter ≠ f := Ne.symm hf
      cases hr : index.clients[c]? <;>
        simp [insert, sharesByClient?, hr, hf, hf', Std.ExtTreeMap.getElem?_insert]
  · have hc' : client ≠ c := Ne.symm hc
    simp [insert, sharesByClient?, hc, hc', Std.ExtTreeMap.getElem?_insert]

theorem sharesByFilter?_insert (c f : String) :
    (index.insert client sub).2.sharesByFilter? c f =
      if c = client ∧ f = sub.filter then
        some (((index.sharesByFilter? client sub.filter).getD ∅).insert sub.share sub)
      else index.sharesByFilter? c f := by
  by_cases hf : f = sub.filter
  · subst hf
    by_cases hc : c = client
    · subst hc
      cases hs : index.filters[sub.filter]? <;> simp [insert, sharesByFilter?, hs]
    · have hc' : client ≠ c := Ne.symm hc
      cases hs : index.filters[sub.filter]? <;>
        simp [insert, sharesByFilter?, hs, hc, hc', Std.ExtTreeMap.getElem?_insert]
  · have hf' : sub.filter ≠ f := Ne.symm hf
    simp [insert, sharesByFilter?, hf, hf', Std.ExtTreeMap.getElem?_insert]

theorem existed_insert :
    (index.insert client sub).1 =
      ((index.sharesByFilter? client sub.filter).getD ∅).contains sub.share := by
  cases hs : index.filters[sub.filter]? <;> simp [insert, sharesByFilter?, hs]

variable {index}

theorem mem_filters_insert {filter : String} :
    filter ∈ (index.insert client sub).2.filters ↔ filter = sub.filter ∨ filter ∈ index.filters := by
  rw [insert, Std.ExtTreeMap.mem_insert, Std.LawfulEqCmp.compare_eq_iff_eq, eq_comm]

theorem routed_insert (routed : index.Routed) : (index.insert client sub).2.Routed where
  ending levels filter := by
    rw [mem_filters_insert]
    by_cases known : index.filters.contains sub.filter = true
    · have hmem : sub.filter ∈ index.filters := known
      have htree : (index.insert client sub).2.tree = index.tree := by simp [insert, hmem]
      rw [htree, routed.ending]
      constructor
      · rintro ⟨hlevels, hfilter⟩
        exact ⟨hlevels, Or.inr hfilter⟩
      · rintro ⟨hlevels, rfl | hfilter⟩
        · exact ⟨hlevels, hmem⟩
        · exact ⟨hlevels, hfilter⟩
    · have hmem : sub.filter ∉ index.filters := known
      have htree : (index.insert client sub).2.tree =
          index.tree.graft sub.filter (TopicFilter.split sub.filter) := by simp [insert, hmem]
      rw [htree, FilterTree.endingAt_graft]
      by_cases hlevels : levels = TopicFilter.split sub.filter
      · rw [if_pos ⟨hlevels, split_ne_nil sub.filter⟩]
        constructor
        · rintro ⟨⟩
          exact ⟨hlevels, Or.inl rfl⟩
        · rintro ⟨hother, -⟩
          rw [split_injective (hlevels.symm.trans hother)]
      · rw [if_neg (fun h => hlevels h.1), routed.ending]
        constructor
        · rintro ⟨hother, hfilter⟩
          exact ⟨hother, Or.inr hfilter⟩
        · rintro ⟨hother, rfl | hfilter⟩
          · exact absurd hother hlevels
          · exact ⟨hother, hfilter⟩
  shaped := by
    by_cases known : sub.filter ∈ index.filters
    · simpa [insert, known] using routed.shaped
    · simpa [insert, known] using FilterTree.wellFormed_graft sub.filter routed.shaped _
  attended filter subscribers h := by
    by_cases hf : sub.filter = filter
    · subst hf
      rintro rfl
      simp [insert] at h
    · exact routed.attended filter subscribers
        (by simpa [insert, hf, Std.ExtTreeMap.getElem?_insert] using h)

/-- Inserting keeps the three parts in agreement. -/
theorem consistent_insert (consistent : index.Consistent) :
    (index.insert client sub).2.Consistent where
  toRouted := routed_insert client sub consistent.toRouted
  mirrored c f := by
    rw [sharesByFilter?_insert, sharesByClient?_insert, consistent.mirrored, consistent.mirrored]
  keyed c f shares share s hshares hsub := by
    rw [sharesByClient?_insert] at hshares
    split at hshares
    · next h =>
      obtain ⟨rfl, rfl⟩ := h
      cases hshares
      by_cases hs : sub.share = share
      · subst hs
        have same : sub = s := by simpa using hsub
        exact same ▸ ⟨rfl, rfl⟩
      · cases hold : index.sharesByClient? c sub.filter with
        | none => simp [hold, hs] at hsub
        | some old =>
          exact consistent.keyed c sub.filter old share s hold
            (by simpa [hold, hs, Std.ExtTreeMap.getElem?_insert] using hsub)
    · exact consistent.keyed c f shares share s hshares hsub
  shared c f shares hshares := by
    rw [sharesByClient?_insert] at hshares
    split at hshares
    · cases hshares
      simp
    · exact consistent.shared c f shares hshares
  recorded c record hrecord := by
    by_cases hc : client = c
    · subst hc
      have held := sharesByClient?_insert index client sub client sub.filter
      rw [sharesByClient?, hrecord, if_pos ⟨rfl, rfl⟩] at held
      intro hnone
      simp [hnone] at held
    · exact consistent.recorded c record
        (by simpa [insert, hc, Std.ExtTreeMap.getElem?_insert] using hrecord)

end Insert

section Detach

variable (index : Index) (client filter : String)

variable {index client filter}

theorem detach_unknown (unknown : index.filters[filter]? = none) :
    index.detach client filter = index := by
  simp [detach, unknown]

theorem detach_last {subscribers : Subscribers} (known : index.filters[filter]? = some subscribers)
    (last : (subscribers.erase client).isEmpty = true) :
    index.detach client filter =
      { index with
        tree := index.tree.prune (TopicFilter.split filter)
        filters := index.filters.erase filter } := by
  simp [detach, known, last]

theorem detach_others {subscribers : Subscribers}
    (known : index.filters[filter]? = some subscribers)
    (others : (subscribers.erase client).isEmpty = false) :
    index.detach client filter =
      { index with filters := index.filters.insert filter (subscribers.erase client) } := by
  simp [detach, known, others]

variable (index client filter)

theorem sharesByFilter?_detach (c f : String) :
    (index.detach client filter).sharesByFilter? c f =
      if c = client ∧ f = filter then none else index.sharesByFilter? c f := by
  cases hs : index.filters[filter]? with
  | none =>
    rw [detach_unknown hs]
    split
    · next h => simp [sharesByFilter?, h.2, hs]
    · rfl
  | some subscribers =>
    by_cases hf : f = filter
    · subst hf
      have held : (index.detach client f).sharesByFilter? c f = (subscribers.erase client)[c]? := by
        cases hempty : (subscribers.erase client).isEmpty with
        | true =>
          rw [detach_last hs hempty, Std.ExtTreeMap.isEmpty_iff.mp hempty]
          simp [sharesByFilter?]
        | false =>
          rw [detach_others hs hempty]
          simp [sharesByFilter?]
      rw [held, Std.ExtTreeMap.getElem?_erase]
      by_cases hc : c = client
      · simp [hc]
      · simp [sharesByFilter?, hs, hc, Ne.symm hc]
    · have hf' : filter ≠ f := Ne.symm hf
      rw [if_neg (fun h => hf h.2)]
      cases hempty : (subscribers.erase client).isEmpty with
      | true =>
        rw [detach_last hs hempty]
        simp [sharesByFilter?, hf', Std.ExtTreeMap.getElem?_erase]
      | false =>
        rw [detach_others hs hempty]
        simp [sharesByFilter?, hf', Std.ExtTreeMap.getElem?_insert]

variable {index}

/-- A filter that loses its last subscriber leaves the tree and the map together. -/
theorem routed_dropped (routed : index.Routed) :
    Routed { index with
      tree := index.tree.prune (TopicFilter.split filter)
      filters := index.filters.erase filter } where
  ending levels f := by
    rw [FilterTree.endingAt_prune routed.shaped, Std.ExtTreeMap.mem_erase, Ne,
      Std.LawfulEqCmp.compare_eq_iff_eq]
    by_cases hlevels : levels = TopicFilter.split filter
    · rw [if_pos hlevels]
      constructor
      · exact fun h => by cases h
      · rintro ⟨hother, hne, -⟩
        exact absurd (split_injective (hlevels.symm.trans hother)) hne
    · rw [if_neg hlevels, routed.ending]
      constructor
      · rintro ⟨hother, hmem⟩
        exact ⟨hother, fun h => hlevels (h ▸ hother), hmem⟩
      · rintro ⟨hother, -, hmem⟩
        exact ⟨hother, hmem⟩
  shaped := FilterTree.wellFormed_prune routed.shaped _
  attended f subscribers h := by
    rw [Std.ExtTreeMap.getElem?_erase] at h
    split at h
    · cases h
    · exact routed.attended f subscribers h

/-- A filter that keeps some subscribers stays in the tree and in the map. -/
theorem routed_updated (routed : index.Routed) (known : filter ∈ index.filters)
    {subscribers : Subscribers} (others : subscribers.isEmpty = false) :
    Routed { index with filters := index.filters.insert filter subscribers } where
  ending levels f := by
    rw [routed.ending, Std.ExtTreeMap.mem_insert, Std.LawfulEqCmp.compare_eq_iff_eq]
    constructor
    · rintro ⟨hlevels, hmem⟩
      exact ⟨hlevels, Or.inr hmem⟩
    · rintro ⟨hlevels, rfl | hmem⟩
      · exact ⟨hlevels, known⟩
      · exact ⟨hlevels, hmem⟩
  shaped := routed.shaped
  attended f found h := by
    rw [Std.ExtTreeMap.getElem?_insert] at h
    split at h
    · cases h
      exact Std.ExtTreeMap.isEmpty_eq_false_iff.mp others
    · exact routed.attended f found h

/-- Taking a client from a filter keeps the tree and the map of filters in agreement. -/
theorem routed_detach (routed : index.Routed) : (index.detach client filter).Routed := by
  cases hs : index.filters[filter]? with
  | none => rwa [detach_unknown hs]
  | some subscribers =>
    cases hempty : (subscribers.erase client).isEmpty with
    | true =>
      rw [detach_last hs hempty]
      exact routed_dropped filter routed
    | false =>
      have known : filter ∈ index.filters := by
        rw [Std.ExtTreeMap.mem_iff_isSome_getElem?, hs]
        rfl
      rw [detach_others hs hempty]
      exact routed_updated filter routed known hempty

def detachAll (index : Index) (client : String) (filters : List String) : Index :=
  filters.foldl (·.detach client ·) index

theorem routed_detachAll (routed : index.Routed) (filters : List String) :
    (index.detachAll client filters).Routed := by
  induction filters generalizing index with
  | nil => exact routed
  | cons filter filters ih => exact ih (routed_detach client filter routed)

theorem sharesByFilter?_detachAll (filters : List String) (c f : String) :
    (index.detachAll client filters).sharesByFilter? c f =
      if c = client ∧ f ∈ filters then none else index.sharesByFilter? c f := by
  induction filters generalizing index with
  | nil => simp [detachAll]
  | cons filter filters ih =>
    have first : index.detachAll client (filter :: filters) =
        (index.detach client filter).detachAll client filters := rfl
    rw [first, ih, sharesByFilter?_detach]
    by_cases hc : c = client
    · by_cases hf : f = filter
      · simp [hc, hf]
      · simp [hc, hf]
    · simp [hc]

end Detach

section Remove

variable {index : Index} (client filter : String)

theorem remove_unheld (unheld : index.sharesByClient? client filter = none) :
    index.remove client filter = (0, index) := by
  cases hr : index.clients[client]? with
  | none => simp [remove, hr]
  | some record =>
    have hk : record.filters[filter]? = none := by simpa [sharesByClient?, hr] using unheld
    simp [remove, hr, hk]

theorem count_remove (index : Index) :
    (index.remove client filter).1 = ((index.sharesByClient? client filter).getD ∅).size := by
  cases hr : index.clients[client]? with
  | none => simp [remove, sharesByClient?, hr]
  | some record =>
    cases hk : record.filters[filter]? <;> simp [remove, sharesByClient?, hr, hk]

theorem clients_remove {record : ClientRecord} {shares : Shares}
    (known : index.clients[client]? = some record) (held : record.filters[filter]? = some shares) :
    (index.remove client filter).2.clients =
      if (record.filters.erase filter).isEmpty then index.clients.erase client
      else index.clients.insert client
        { filters := record.filters.erase filter
          tally := record.tally.remove (UInt64.ofNat shares.size) } := by
  simp only [remove, known, held, detach_clients]

theorem sharesByClient?_remove (c f : String) :
    (index.remove client filter).2.sharesByClient? c f =
      if c = client ∧ f = filter then none else index.sharesByClient? c f := by
  cases held : index.sharesByClient? client filter with
  | none =>
    rw [remove_unheld client filter held]
    split
    · next h => rw [h.1, h.2, held]
    · rfl
  | some shares =>
    obtain ⟨record, hr, hk⟩ := Option.bind_eq_some_iff.mp held
    rw [sharesByClient?, clients_remove client filter hr hk]
    by_cases hc : c = client
    · subst hc
      have left : (if (record.filters.erase filter).isEmpty then index.clients.erase c
          else index.clients.insert c
            { filters := record.filters.erase filter
              tally := record.tally.remove (UInt64.ofNat shares.size) })[c]?.bind
            (·.filters[f]?) = (record.filters.erase filter)[f]? := by
        split
        · next hempty =>
          rw [Std.ExtTreeMap.isEmpty_iff.mp hempty]
          simp
        · simp
      rw [left, Std.ExtTreeMap.getElem?_erase]
      by_cases hf : f = filter
      · simp [hf]
      · simp [sharesByClient?, hr, hf, Ne.symm hf]
    · have hc' : client ≠ c := Ne.symm hc
      split <;> simp [sharesByClient?, hc, hc', Std.ExtTreeMap.getElem?_erase,
        Std.ExtTreeMap.getElem?_insert]

/-- Removing is taking the client from the filter, as far as tree and filters go. -/
theorem remove_held {shares : Shares} (held : index.sharesByClient? client filter = some shares) :
    (index.remove client filter).2.tree = (index.detach client filter).tree ∧
      (index.remove client filter).2.filters = (index.detach client filter).filters := by
  obtain ⟨record, hr, hk⟩ := Option.bind_eq_some_iff.mp held
  cases hs : index.filters[filter]? with
  | none => simp [remove, hr, hk, detach, hs]
  | some subscribers =>
    cases hempty : (subscribers.erase client).isEmpty <;>
      simp [remove, hr, hk, detach, hs, hempty]

theorem recorded_remove (consistent : index.Consistent) {c : String} {record : ClientRecord}
    (known : (index.remove client filter).2.clients[c]? = some record) : record.filters ≠ ∅ := by
  cases held : index.sharesByClient? client filter with
  | none =>
    rw [remove_unheld client filter held] at known
    exact consistent.recorded c record known
  | some shares =>
    obtain ⟨old, hr, hk⟩ := Option.bind_eq_some_iff.mp held
    rw [clients_remove client filter hr hk] at known
    split at known
    · rw [Std.ExtTreeMap.getElem?_erase] at known
      split at known
      · cases known
      · exact consistent.recorded c record known
    · next hempty =>
      rw [Std.ExtTreeMap.getElem?_insert] at known
      split at known
      · cases known
        exact fun h => hempty (Std.ExtTreeMap.isEmpty_iff.mpr h)
      · exact consistent.recorded c record known

/-- Removing a filter of a client keeps the three parts in agreement. -/
theorem consistent_remove (consistent : index.Consistent) :
    (index.remove client filter).2.Consistent := by
  cases held : index.sharesByClient? client filter with
  | none => rwa [remove_unheld client filter held]
  | some shares =>
    obtain ⟨htree, hfilters⟩ := remove_held client filter held
    have routed := (routed_detach client filter consistent.toRouted).of_eq htree hfilters
    apply consistent.of_fewer routed
    · intro c f
      rw [sharesByFilter?, hfilters, ← sharesByFilter?, sharesByFilter?_detach,
        sharesByClient?_remove, consistent.mirrored]
    · intro c f found hfound
      rw [sharesByClient?_remove] at hfound
      split at hfound
      · cases hfound
      · exact hfound
    · intro c record known
      exact recorded_remove client filter consistent known

end Remove

section RemoveClient

variable {index : Index} (client : String)

theorem removeClient_unknown (unknown : index.clients[client]? = none) :
    index.removeClient client = (0, index) := by
  simp [removeClient, unknown]

theorem sharesByClient?_removeClient (c f : String) :
    (index.removeClient client).2.sharesByClient? c f =
      if c = client then none else index.sharesByClient? c f := by
  cases hr : index.clients[client]? with
  | none =>
    rw [removeClient_unknown client hr]
    split
    · next h => simp [sharesByClient?, h, hr]
    · rfl
  | some record =>
    by_cases hc : c = client
    · simp [removeClient, sharesByClient?, hr, foldl_detach_clients, hc]
    · have hc' : client ≠ c := Ne.symm hc
      simp [removeClient, sharesByClient?, hr, foldl_detach_clients, hc, hc',
        Std.ExtTreeMap.getElem?_erase]

/-- A client that leaves is taken from each of its filters. -/
theorem removeClient_known {record : ClientRecord}
    (known : index.clients[client]? = some record) :
    (index.removeClient client).2.tree =
        (detachAll { index with clients := index.clients.erase client } client
          record.filters.keys).tree ∧
      (index.removeClient client).2.filters =
        (detachAll { index with clients := index.clients.erase client } client
          record.filters.keys).filters ∧
      (index.removeClient client).2.clients = index.clients.erase client := by
  simp [removeClient, known, detachAll, foldl_detach_clients]

/-- Removing a client keeps the three parts in agreement. -/
theorem consistent_removeClient (consistent : index.Consistent) :
    (index.removeClient client).2.Consistent := by
  cases hr : index.clients[client]? with
  | none => rwa [removeClient_unknown client hr]
  | some record =>
    obtain ⟨htree, hfilters, hclients⟩ := removeClient_known client hr
    have started : Routed { index with clients := index.clients.erase client } :=
      consistent.toRouted.of_eq rfl rfl
    have routed := (routed_detachAll client started _).of_eq htree hfilters
    apply consistent.of_fewer routed
    · intro c f
      rw [sharesByFilter?, hfilters, ← sharesByFilter?, sharesByFilter?_detachAll,
        sharesByClient?_removeClient]
      by_cases hc : c = client
      · rw [if_pos hc]
        split
        · rfl
        · next hf =>
          have unheld : record.filters[f]? = none := by
            rw [Std.ExtTreeMap.mem_keys, Std.ExtTreeMap.mem_iff_isSome_getElem?] at hf
            simpa [hc] using hf
          have mirrored := consistent.mirrored c f
          rw [sharesByClient?, hc, hr] at mirrored
          exact (hc ▸ mirrored).trans unheld
      · have apart : ¬(c = client ∧ f ∈ record.filters.keys) := fun h => hc h.1
        rw [if_neg hc, if_neg apart]
        exact consistent.mirrored c f
    · intro c f found hfound
      rw [sharesByClient?_removeClient] at hfound
      split at hfound
      · cases hfound
      · exact hfound
    · intro c other known
      rw [hclients, Std.ExtTreeMap.getElem?_erase] at known
      split at known
      · cases known
      · exact consistent.recorded c other known

end RemoveClient

end TopicRegistry.Index
