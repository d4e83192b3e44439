import TopicRegistry.Proofs.FilterTree.Search
import TopicRegistry.Proofs.Index.Consistent
import TopicRegistry.Registry.Query

/-!
# What the walks of an index show

Each walk of an index shows its visitor a list of clients with subscriptions, until the visitor
stops it. In a consistent index none of the lists has an entry twice, and what is in them is said
by `Holds` alone: the record of a client, the subscribers of a filter and the filters that a topic
leads to are views of one set of held subscriptions.
-/

namespace TopicRegistry

open Std (ExtTreeMap)

abbrev Holdings := List (String × Subscription)

def Visitor.over {σ : Type} (visitor : Visitor σ) (holdings : Holdings) (state : σ) :
    ForInStep σ :=
  Walk.each (fun state entry => visitor state entry.1 entry.2) holdings state

def Shares.holdings (shares : Shares) (client : String) : Holdings :=
  shares.toList.map fun entry => (client, entry.2)

def ClientRecord.holdings (record : ClientRecord) (client : String) : Holdings :=
  record.filters.toList.flatMap fun entry => Shares.holdings entry.2 client

def Subscribers.holdings (subscribers : Subscribers) : Holdings :=
  subscribers.toList.flatMap fun entry => Shares.holdings entry.2 entry.1

namespace Index

/-- A client holds a subscription, under the filter and the share group that it names. -/
def Holds (index : Index) (client : String) (sub : Subscription) : Prop :=
  index.find? client sub.filter sub.share = some sub

def holdings (index : Index) : Holdings :=
  index.clients.toList.flatMap fun entry => entry.2.holdings entry.1

def holdingsOf (index : Index) (client : String) : Holdings :=
  index.clients[client]?.elim [] (·.holdings client)

def holdingsUnder (index : Index) (filter : String) : Holdings :=
  index.filters[filter]?.elim [] (Subscribers.holdings ·)

def holdingsCovering (index : Index) (topic : List String) : Holdings :=
  (FilterTree.found topic (!topic.head?.any Topic.isSystem) (none, index.tree)).flatMap
    index.holdingsUnder

end Index

section Walks

variable {σ : Type} (visitor : Visitor σ)

theorem overShares_eq (client : String) (shares : Shares) (state : σ) :
    visitor.overShares client shares state = visitor.over (shares.holdings client) state := by
  rw [Visitor.overShares, Visitor.over, Shares.holdings, Walk.each_map]

theorem overRecord_eq (client : String) (record : ClientRecord) (state : σ) :
    visitor.overRecord client record state = visitor.over (record.holdings client) state := by
  rw [Visitor.overRecord, Visitor.over, ClientRecord.holdings, Walk.each_flatMap]
  simp only [overShares_eq, Visitor.over]

theorem overSubscribers_eq (subscribers : Subscribers) (state : σ) :
    visitor.overSubscribers subscribers state = visitor.over subscribers.holdings state := by
  rw [Visitor.overSubscribers, Visitor.over, Subscribers.holdings, Walk.each_flatMap]
  simp only [overShares_eq, Visitor.over]

theorem walkClient_eq (index : Index) (client : String) (state : σ) :
    index.walkClient visitor client state = visitor.over (index.holdingsOf client) state := by
  rw [Index.walkClient, Index.holdingsOf]
  cases index.clients[client]? with
  | none => rfl
  | some record => exact overRecord_eq visitor client record state

theorem walkAll_eq (index : Index) (state : σ) :
    index.walkAll visitor state = visitor.over index.holdings state := by
  rw [Index.walkAll, Visitor.over, Index.holdings, Walk.each_flatMap]
  simp only [overRecord_eq, Visitor.over]

theorem walkFilter_eq (index : Index) (filter : String) (state : σ) :
    index.walkFilter visitor state filter = visitor.over (index.holdingsUnder filter) state := by
  rw [Index.walkFilter, Index.holdingsUnder]
  cases index.filters[filter]? with
  | none => rfl
  | some subscribers => exact overSubscribers_eq visitor subscribers state

theorem walkCovering_eq (index : Index) (topic : List String) (state : σ) :
    index.walkCovering visitor topic state =
      visitor.over (index.holdingsCovering topic) state := by
  rw [Index.walkCovering, FilterTree.walk_eq_each, Visitor.over, Index.holdingsCovering,
    Walk.each_flatMap]
  simp only [funext fun state => funext fun filter => walkFilter_eq visitor index filter state,
    Visitor.over]

/-- Passing over what is not selected is walking over the selection. -/
theorem over_only (selected : Subscription → Bool) (holdings : Holdings) (state : σ) :
    (visitor.only selected).over holdings state =
      visitor.over (holdings.filter fun entry => selected entry.2) state := by
  rw [Visitor.over, Visitor.over, Walk.each_filter]
  rfl

end Walks

/-- A list of parts has no entry twice if no part has and an entry tells which part it is from. -/
theorem nodup_flatMap_of_keyed {α γ κ : Type} {list : List α} {label : α → κ} (key : γ → κ)
    {part : α → List γ} (distinct : list.Pairwise fun a b => label a ≠ label b)
    (nodup : ∀ a ∈ list, (part a).Nodup) (keyed : ∀ a ∈ list, ∀ x ∈ part a, key x = label a) :
    (list.flatMap part).Nodup := by
  refine List.pairwise_flatMap.mpr ⟨nodup, distinct.imp_of_mem ?_⟩
  rintro a b ha hb hlabel x hx y hy rfl
  exact hlabel ((keyed a ha x hx).symm.trans (keyed b hb x hy))

/-- The entries of a map have different keys. -/
theorem distinct_toList {α β : Type} [Ord α] [Std.TransOrd α] [Std.LawfulEqOrd α]
    (map : ExtTreeMap α β) : map.toList.Pairwise fun a b => a.1 ≠ b.1 := by
  apply ExtTreeMap.distinct_keys_toList.imp
  intro a b different same
  exact different (Std.LawfulEqCmp.compare_eq_iff_eq.mpr same)

/-- A map that is not empty has an entry. -/
theorem exists_entry {β : Type} {map : ExtTreeMap String β} (nonempty : map ≠ ∅) :
    ∃ (k : String) (v : β), map[k]? = some v := by
  apply Classical.byContradiction
  intro none
  apply nonempty
  apply ExtTreeMap.eq_empty_iff_forall_not_mem.mpr
  intro k hk
  obtain ⟨v, hv⟩ := Option.isSome_iff_exists.mp (ExtTreeMap.mem_iff_isSome_getElem?.mp hk)
  exact none ⟨k, v, hv⟩

theorem nodup_flatMap_toList {β γ : Type} {map : ExtTreeMap String β} (key : γ → String)
    {part : String × β → List γ} (nodup : ∀ k v, map[k]? = some v → (part (k, v)).Nodup)
    (keyed : ∀ k v, map[k]? = some v → ∀ x ∈ part (k, v), key x = k) :
    (map.toList.flatMap part).Nodup := by
  apply nodup_flatMap_of_keyed key (distinct_toList map)
  · rintro ⟨k, v⟩ h
    exact nodup k v (ExtTreeMap.mem_toList_iff_getElem?_eq_some.mp h)
  · rintro ⟨k, v⟩ h
    exact keyed k v (ExtTreeMap.mem_toList_iff_getElem?_eq_some.mp h)

theorem mem_shares_holdings {shares : Shares} {client c : String} {sub : Subscription} :
    (c, sub) ∈ shares.holdings client ↔
      c = client ∧ ∃ share : String, shares[share]? = some sub := by
  simp only [Shares.holdings, List.mem_map, Prod.exists, Prod.mk.injEq,
    ExtTreeMap.mem_toList_iff_getElem?_eq_some]
  constructor
  · rintro ⟨share, _, h, rfl, rfl⟩
    exact ⟨rfl, share, h⟩
  · rintro ⟨rfl, share, h⟩
    exact ⟨share, sub, h, rfl, rfl⟩

theorem mem_record_holdings {record : ClientRecord} {client c : String} {sub : Subscription} :
    (c, sub) ∈ record.holdings client ↔
      c = client ∧ ∃ (filter : String) (shares : Shares) (share : String),
        record.filters[filter]? = some shares ∧ shares[share]? = some sub := by
  simp only [ClientRecord.holdings, List.mem_flatMap, Prod.exists, mem_shares_holdings,
    ExtTreeMap.mem_toList_iff_getElem?_eq_some]
  constructor
  · rintro ⟨filter, shares, h, rfl, share, hsub⟩
    exact ⟨rfl, filter, shares, share, h, hsub⟩
  · rintro ⟨rfl, filter, shares, share, h, hsub⟩
    exact ⟨filter, shares, h, rfl, share, hsub⟩

theorem mem_subscribers_holdings {subscribers : Subscribers} {c : String} {sub : Subscription} :
    (c, sub) ∈ subscribers.holdings ↔
      ∃ (shares : Shares) (share : String),
        subscribers[c]? = some shares ∧ shares[share]? = some sub := by
  simp only [Subscribers.holdings, List.mem_flatMap, Prod.exists, mem_shares_holdings,
    ExtTreeMap.mem_toList_iff_getElem?_eq_some]
  constructor
  · rintro ⟨_, shares, h, rfl, share, hsub⟩
    exact ⟨shares, share, h, hsub⟩
  · rintro ⟨shares, share, h, hsub⟩
    exact ⟨c, shares, h, rfl, share, hsub⟩

namespace Index

variable {index : Index}

/-- A client holds what stands under some filter and some share group of its record. -/
theorem holds_iff (consistent : index.Consistent) {client : String} {sub : Subscription} :
    index.Holds client sub ↔ ∃ (filter : String) (shares : Shares) (share : String),
      index.sharesByClient? client filter = some shares ∧ shares[share]? = some sub := by
  rw [Holds, find?_eq_bind, Option.bind_eq_some_iff]
  constructor
  · rintro ⟨shares, hshares, hsub⟩
    exact ⟨sub.filter, shares, sub.share, hshares, hsub⟩
  · rintro ⟨filter, shares, share, hshares, hsub⟩
    obtain ⟨rfl, rfl⟩ := consistent.keyed client filter shares share sub hshares hsub
    exact ⟨shares, hshares, hsub⟩

theorem mem_holdingsOf (consistent : index.Consistent) {client c : String} {sub : Subscription} :
    (c, sub) ∈ index.holdingsOf client ↔ c = client ∧ index.Holds c sub := by
  rw [holds_iff consistent, holdingsOf]
  cases hr : index.clients[client]? with
  | none =>
    constructor
    · intro h
      cases h
    · rintro ⟨rfl, filter, shares, share, hshares, -⟩
      simp [sharesByClient?, hr] at hshares
  | some record =>
    rw [Option.elim_some, mem_record_holdings]
    refine and_congr_right ?_
    rintro rfl
    simp [sharesByClient?, hr]

theorem mem_holdings (consistent : index.Consistent) {c : String} {sub : Subscription} :
    (c, sub) ∈ index.holdings ↔ index.Holds c sub := by
  have part : (c, sub) ∈ index.holdings ↔ (c, sub) ∈ index.holdingsOf c := by
    simp only [holdings, List.mem_flatMap, Prod.exists, ExtTreeMap.mem_toList_iff_getElem?_eq_some,
      holdingsOf]
    constructor
    · rintro ⟨client, record, hr, h⟩
      obtain ⟨rfl, -⟩ := mem_record_holdings.mp h
      rwa [hr]
    · intro h
      cases hr : index.clients[c]? with
      | none => simp [hr] at h
      | some record => exact ⟨c, record, hr, by simpa [hr] using h⟩
  rw [part, mem_holdingsOf consistent]
  exact and_iff_right rfl

theorem mem_holdingsUnder (consistent : index.Consistent) {filter c : String}
    {sub : Subscription} :
    (c, sub) ∈ index.holdingsUnder filter ↔ sub.filter = filter ∧ index.Holds c sub := by
  have part : (c, sub) ∈ index.holdingsUnder filter ↔ ∃ (shares : Shares) (share : String),
      index.sharesByFilter? c filter = some shares ∧ shares[share]? = some sub := by
    rw [holdingsUnder, sharesByFilter?]
    cases hs : index.filters[filter]? with
    | none => simp
    | some subscribers => exact mem_subscribers_holdings
  rw [part, holds_iff consistent, consistent.mirrored]
  constructor
  · rintro ⟨shares, share, hshares, hsub⟩
    exact ⟨(consistent.keyed c filter shares share sub hshares hsub).1,
      filter, shares, share, hshares, hsub⟩
  · rintro ⟨rfl, filter, shares, share, hshares, hsub⟩
    obtain ⟨rfl, -⟩ := consistent.keyed c filter shares share sub hshares hsub
    exact ⟨shares, share, hshares, hsub⟩

/-- Where the descent may begin is what hides topics of the system namespace. -/
theorem leads_eq_cover (levels : List Level) (topic : List String) :
    FilterTree.leads levels topic (!topic.head?.any Topic.isSystem) =
      Level.cover levels topic := by
  rw [FilterTree.leads, Level.cover, Bool.and_comm]
  cases levels with
  | nil => cases topic <;> simp [Level.hides]
  | cons level levels =>
    cases topic with
    | nil => simp [Level.hides]
    | cons t ts => cases hw : level.isWildcard <;> simp [Level.hides, hw]

theorem mem_holdingsCovering (consistent : index.Consistent) {topic : List String}
    (plain : Topic.Plain topic) {c : String} {sub : Subscription} :
    (c, sub) ∈ index.holdingsCovering topic ↔
      index.Holds c sub ∧ Level.cover (TopicFilter.split sub.filter) topic = true := by
  simp only [holdingsCovering, List.mem_flatMap, mem_holdingsUnder consistent,
    FilterTree.mem_found_iff plain, FilterTree.endingAt_top, leads_eq_cover]
  constructor
  · rintro ⟨filter, ⟨levels, hend, hcover⟩, rfl, holds⟩
    obtain ⟨rfl, -⟩ := (consistent.ending levels sub.filter).mp hend
    exact ⟨holds, hcover⟩
  · rintro ⟨holds, hcover⟩
    have stored : sub.filter ∈ index.filters := by
      obtain ⟨filter, shares, share, hshares, hsub⟩ := (holds_iff consistent).mp holds
      obtain ⟨rfl, -⟩ := consistent.keyed c filter shares share sub hshares hsub
      rw [← consistent.mirrored, sharesByFilter?, Option.bind_eq_some_iff] at hshares
      obtain ⟨subscribers, hs, -⟩ := hshares
      exact ExtTreeMap.mem_iff_isSome_getElem?.mpr (by rw [hs]; rfl)
    have hend := (consistent.ending _ sub.filter).mpr ⟨rfl, stored⟩
    exact ⟨sub.filter, ⟨_, hend, hcover⟩, rfl, holds⟩

/-- The share groups of one client and one filter hold different subscriptions. -/
theorem nodup_shares (consistent : index.Consistent) {client filter : String} {shares : Shares}
    (held : index.sharesByClient? client filter = some shares) :
    (shares.holdings client).Nodup := by
  rw [Shares.holdings, List.map_eq_flatMap]
  refine nodup_flatMap_toList (fun entry => entry.2.share)
    (fun _ _ _ => List.pairwise_singleton _ _) ?_
  intro share sub hsub entry hentry
  rw [List.mem_singleton.mp hentry]
  exact (consistent.keyed client filter shares share sub held hsub).2

theorem nodup_record (consistent : index.Consistent) {client : String} {record : ClientRecord}
    (known : index.clients[client]? = some record) : (record.holdings client).Nodup := by
  have held : ∀ (filter : String) (shares : Shares), record.filters[filter]? = some shares →
      index.sharesByClient? client filter = some shares := by
    intro filter shares h
    rw [sharesByClient?, known, Option.bind_some, h]
  refine nodup_flatMap_toList (fun entry => entry.2.filter) ?_ ?_
  · intro filter shares h
    exact nodup_shares consistent (held filter shares h)
  · rintro filter shares h ⟨c, sub⟩ hentry
    obtain ⟨-, share, hsub⟩ := mem_shares_holdings.mp hentry
    exact (consistent.keyed client filter shares share sub (held filter shares h) hsub).1

theorem nodup_holdingsOf (consistent : index.Consistent) (client : String) :
    (index.holdingsOf client).Nodup := by
  rw [holdingsOf]
  cases known : index.clients[client]? with
  | none => exact List.nodup_nil
  | some record => exact nodup_record consistent known

theorem nodup_holdings (consistent : index.Consistent) : index.holdings.Nodup := by
  refine nodup_flatMap_toList Prod.fst ?_ ?_
  · intro client record known
    exact nodup_record consistent known
  · rintro client record - ⟨c, sub⟩ hentry
    exact (mem_record_holdings.mp hentry).1

theorem nodup_holdingsUnder (consistent : index.Consistent) (filter : String) :
    (index.holdingsUnder filter).Nodup := by
  rw [holdingsUnder]
  cases hs : index.filters[filter]? with
  | none => exact List.nodup_nil
  | some subscribers =>
    refine nodup_flatMap_toList Prod.fst ?_ ?_
    · intro client shares hshares
      have held := consistent.mirrored client filter
      rw [sharesByFilter?, hs, Option.bind_some, hshares] at held
      exact nodup_shares consistent held.symm
    · rintro client shares - ⟨c, sub⟩ hentry
      exact (mem_shares_holdings.mp hentry).1

/-- A plain topic leads to no subscription twice, whichever branches of the tree lead on. -/
theorem nodup_holdingsCovering (consistent : index.Consistent) {topic : List String}
    (plain : Topic.Plain topic) : (index.holdingsCovering topic).Nodup := by
  have once : FilterTree.Node.Once (none, index.tree) := by
    intro levels others filter hlevels hothers
    rw [FilterTree.endingAt_top] at hlevels hothers
    obtain ⟨rfl, -⟩ := (consistent.ending levels filter).mp hlevels
    obtain ⟨rfl, -⟩ := (consistent.ending others filter).mp hothers
    rfl
  refine nodup_flatMap_of_keyed (fun entry => entry.2.filter)
    (FilterTree.nodup_found plain once) ?_ ?_
  · intro filter _
    exact nodup_holdingsUnder consistent filter
  · rintro filter - ⟨c, sub⟩ hentry
    exact ((mem_holdingsUnder consistent).mp hentry).1

/-- There is no record of a client that holds nothing. -/
theorem holdingsOf_eq_nil_iff (consistent : index.Consistent) {client : String} :
    index.holdingsOf client = [] ↔ index.clients[client]? = none := by
  rw [holdingsOf]
  cases known : index.clients[client]? with
  | none => simp
  | some record =>
    obtain ⟨filter, shares, hshares⟩ := exists_entry (consistent.recorded client record known)
    have held : index.sharesByClient? client filter = some shares := by
      rw [sharesByClient?, known, Option.bind_some, hshares]
    obtain ⟨share, sub, hsub⟩ := exists_entry (consistent.shared client filter shares held)
    have shown : (client, sub) ∈ record.holdings client :=
      mem_record_holdings.mpr ⟨rfl, filter, shares, share, hshares, hsub⟩
    constructor
    · intro nothing
      rw [Option.elim_some] at nothing
      rw [nothing] at shown
      cases shown
    · intro unknown
      cases unknown

end Index

end TopicRegistry
