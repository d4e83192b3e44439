import TopicRegistry.Proofs.FilterTree.Retain
import TopicRegistry.Proofs.Index.Tallies

/-!
# What removals leave

A client gives its filters up one after the other, or it leaves with all of them at once. The two
prune the tree, empty the maps and lower the counters in different orders. Yet what they leave is
told by what the client still holds: the tree leads to the filters that are left, the maps have no
empty parts, and each counter is lowered by what is gone, to zero if need be, at once or in parts.
-/

namespace TopicRegistry

open Std (ExtTreeMap)

namespace Tally

/-- The tally with its current number lowered, but not below zero. -/
def lower (tally : Tally) (count : Nat) : Tally :=
  { tally with current := UInt64.ofNat (tally.current.toNat - count) }

theorem toNat_current_lower (tally : Tally) (count : Nat) :
    (tally.lower count).current.toNat = tally.current.toNat - count :=
  UInt64.toNat_ofNat_of_lt' (Nat.lt_of_le_of_lt (Nat.sub_le ..) tally.current.toNat_lt)

theorem lower_zero (tally : Tally) : tally.lower 0 = tally := by
  simp [lower]

theorem lower_lower (tally : Tally) (a b : Nat) :
    (tally.lower a).lower b = tally.lower (a + b) := by
  rw [lower, toNat_current_lower, Nat.sub_sub]
  rfl

theorem remove_eq_lower (tally : Tally) (count : UInt64) :
    tally.remove count = tally.lower count.toNat := by
  have current : (tally.remove count).current = (tally.lower count.toNat).current := by
    rw [← UInt64.toNat_inj, toNat_current_remove, toNat_current_lower]
  exact congrArg (Tally.mk tally.total) current

end Tally

/-- Maps that are there only if they are not empty are told by their look-ups. -/
theorem eq_of_getElem?_bind {β : Type} {map other : Option (ExtTreeMap String β)}
    (filled : ∀ m ∈ map, m ≠ ∅) (filledToo : ∀ m ∈ other, m ≠ ∅)
    (same : ∀ key : String, map.bind (·[key]?) = other.bind (·[key]?)) : map = other := by
  have some_of_filled : ∀ {m : ExtTreeMap String β}, m ≠ ∅ →
      ¬∀ key : String, m[key]? = none := by
    intro m nonempty nothing
    obtain ⟨key, value, found⟩ := exists_entry nonempty
    rw [nothing key] at found
    cases found
  cases map with
  | none =>
    cases other with
    | none => rfl
    | some m => exact absurd (fun key => (same key).symm) (some_of_filled (filledToo m rfl))
  | some m =>
    cases other with
    | none => exact absurd same (some_of_filled (filled m rfl))
    | some n => exact congrArg some (ExtTreeMap.ext_getElem? fun key => same key)

/-- A map has the entries that it has without a key, and the one at the key. -/
theorem toList_perm_erase {β : Type} {map : ExtTreeMap String β} {key : String} {value : β}
    (found : map[key]? = some value) :
    map.toList.Perm ((key, value) :: (map.erase key).toList) := by
  have nodup : ∀ m : ExtTreeMap String β, m.toList.Nodup := fun m =>
    (distinct_toList m).imp fun different same => different (congrArg Prod.fst same)
  have gone : (key, value) ∉ (map.erase key).toList := by
    simp [ExtTreeMap.mem_toList_iff_getElem?_eq_some]
  rw [List.perm_ext_iff_of_nodup (nodup map) (List.nodup_cons.mpr ⟨gone, nodup _⟩)]
  rintro ⟨k, v⟩
  rw [List.mem_cons, ExtTreeMap.mem_toList_iff_getElem?_eq_some,
    ExtTreeMap.mem_toList_iff_getElem?_eq_some, Prod.mk.injEq, ExtTreeMap.getElem?_erase]
  by_cases hk : key = k
  · subst hk
    simp [found, eq_comm]
  · simp [hk, Ne.symm hk]

namespace Index

section Cut

/-- The tree leads to the filters that are left, and to nothing else than before. -/
structure Cut (index other : Index) : Prop where
  tree : other.tree = index.tree.retain other.filters.contains
  fewer : ∀ filter ∈ other.filters, filter ∈ index.filters

variable {index other last : Index}

theorem Cut.refl (routed : index.Routed) : Cut index index where
  tree := by
    symm
    apply FilterTree.retain_eq_self routed.shaped
    intro levels filter hend
    exact ExtTreeMap.contains_iff_mem.mpr ((routed.ending levels filter).mp hend).2
  fewer _ held := held

theorem Cut.trans (first : index.Cut other) (second : other.Cut last) : index.Cut last where
  tree := by
    rw [second.tree, first.tree, FilterTree.retain_retain]
    congr 1
    funext filter
    cases left : last.filters.contains filter with
    | false => exact Bool.and_false _
    | true =>
      have before := second.fewer filter (ExtTreeMap.contains_iff_mem.mp left)
      rw [ExtTreeMap.contains_iff_mem.mpr before]
      rfl
  fewer filter left := first.fewer filter (second.fewer filter left)

theorem Cut.of_eq (cut : index.Cut other) (tree : last.tree = other.tree)
    (filters : last.filters = other.filters) : index.Cut last where
  tree := by rw [tree, filters, cut.tree]
  fewer := by rw [filters]; exact cut.fewer

theorem cut_detach (routed : index.Routed) (client filter : String) :
    index.Cut (index.detach client filter) := by
  cases known : index.filters[filter]? with
  | none =>
    rw [detach_unknown known]
    exact Cut.refl routed
  | some subscribers =>
    cases empty : (subscribers.erase client).isEmpty with
    | true =>
      rw [detach_last known empty]
      have only : ∀ others other, index.tree.endingAt others = some other →
          (others = TopicFilter.split filter ↔ other = filter) := by
        intro others other hend
        obtain ⟨rfl, -⟩ := (routed.ending others other).mp hend
        exact ⟨split_injective, congrArg _⟩
      refine ⟨(FilterTree.prune_eq_retain routed.shaped only).trans ?_, ?_⟩
      · apply FilterTree.retain_congr routed.shaped
        intro levels other hend
        have held := ((routed.ending levels other).mp hend).2
        rw [Bool.eq_iff_iff, bne_iff_ne, ExtTreeMap.contains_iff_mem, ExtTreeMap.mem_erase, Ne, Ne,
          Std.LawfulEqCmp.compare_eq_iff_eq]
        exact ⟨fun differs => ⟨Ne.symm differs, held⟩, fun left => Ne.symm left.1⟩
      · intro other left
        exact (ExtTreeMap.mem_erase.mp left).2
    | false =>
      rw [detach_others known empty]
      have held : filter ∈ index.filters := by
        rw [ExtTreeMap.mem_iff_isSome_getElem?, known]
        rfl
      have same : ∀ other, other ∈ index.filters.insert filter (subscribers.erase client) ↔
          other ∈ index.filters := by
        intro other
        rw [ExtTreeMap.mem_insert, Std.LawfulEqCmp.compare_eq_iff_eq]
        exact or_iff_right_of_imp fun h => h ▸ held
      refine ⟨?_, fun other => (same other).mp⟩
      symm
      apply FilterTree.retain_eq_self routed.shaped
      intro levels other hend
      exact ExtTreeMap.contains_iff_mem.mpr
        ((same other).mpr ((routed.ending levels other).mp hend).2)

theorem cut_detachAll (routed : index.Routed) (client : String) (filters : List String) :
    index.Cut (index.detachAll client filters) := by
  induction filters generalizing index with
  | nil => exact Cut.refl routed
  | cons filter filters ih =>
    exact (cut_detach routed client filter).trans (ih (routed_detach client filter routed))

theorem cut_remove (routed : index.Routed) (client filter : String) :
    index.Cut (index.remove client filter).2 := by
  cases held : index.sharesByClient? client filter with
  | none =>
    rw [remove_unheld client filter held]
    exact Cut.refl routed
  | some shares =>
    obtain ⟨tree, filters⟩ := remove_held client filter held
    exact (cut_detach routed client filter).of_eq tree filters

theorem cut_removeClient (routed : index.Routed) (client : String) :
    index.Cut (index.removeClient client).2 := by
  cases known : index.clients[client]? with
  | none =>
    rw [removeClient_unknown client known]
    exact Cut.refl routed
  | some record =>
    obtain ⟨tree, filters, -⟩ := removeClient_known client known
    have started : Routed { index with clients := index.clients.erase client } :=
      routed.of_eq rfl rfl
    have cut := (cut_detachAll started client record.filters.keys).of_eq tree filters
    exact ⟨cut.tree, cut.fewer⟩

end Cut

section Weight

def sizes (index : Index) (client : String) : List Nat :=
  index.clients[client]?.elim [] fun record => record.filters.toList.map fun entry => entry.2.size

/-- What a client holds, if a filter counts by some weight of its number of share groups. -/
def weigh (index : Index) (weight : Nat → Nat) (client : String) : Nat :=
  ((index.sizes client).map weight).sum

theorem weigh_of_unknown {index : Index} {client : String} (unknown : index.clients[client]? = none)
    (weight : Nat → Nat) : index.weigh weight client = 0 := by
  rw [weigh, sizes, unknown]
  rfl

theorem weigh_id (index : Index) (client : String) :
    index.weigh id client = (index.holdingsOf client).length := by
  rw [weigh, List.map_id, sizes, holdingsOf]
  cases index.clients[client]? with
  | none => rfl
  | some record =>
    simp only [Option.elim_some, ClientRecord.holdings, List.length_flatMap,
      length_shares_holdings]

/-- A removal takes the filter from the weight of its client. -/
theorem weigh_remove (index : Index) (client filter : String) {weight : Nat → Nat}
    (nothing : weight 0 = 0) :
    weight (index.remove client filter).1 + (index.remove client filter).2.weigh weight client =
      index.weigh weight client := by
  cases held : index.sharesByClient? client filter with
  | none => rw [remove_unheld client filter held, nothing, Nat.zero_add]
  | some shares =>
    obtain ⟨record, known, found⟩ := Option.bind_eq_some_iff.mp held
    have left : (index.remove client filter).2.sizes client =
        (record.filters.erase filter).toList.map fun entry => entry.2.size := by
      rw [sizes, clients_remove client filter known found]
      split
      · next empty =>
        rw [ExtTreeMap.toList_eq_nil_iff.mpr (ExtTreeMap.isEmpty_iff.mp empty)]
        simp
      · simp
    have before := ((toList_perm_erase found).map fun entry => entry.2.size).map weight
    rw [weigh, left, count_remove, held, weigh, sizes, known]
    exact before.sum_nat.symm

def inWord (count : Nat) : Nat :=
  (UInt64.ofNat count).toNat

theorem inWord_of_lt {count : Nat} (small : count < 2 ^ 64) : inWord count = count :=
  UInt64.toNat_ofNat_of_lt' small

/-- What fits into a word is counted right by words. -/
theorem weigh_inWord {index : Index} {client : String} (small : index.weigh id client < 2 ^ 64) :
    index.weigh inWord client = index.weigh id client := by
  rw [weigh] at small ⊢
  rw [weigh]
  generalize index.sizes client = sizes at small ⊢
  induction sizes with
  | nil => rfl
  | cons size sizes ih =>
    simp only [List.map_cons, List.sum_cons, id_eq] at small ⊢
    rw [inWord_of_lt (by omega), ih (by omega)]

end Weight

/-- Take from a client, one after the other, what it holds under some filters; say how many
subscriptions that were. -/
def releaseAll (index : Index) (client : String) : List String → Nat × Index
  | [] => (0, index)
  | filter :: filters =>
    let (count, next) := index.remove client filter
    let (more, last) := next.releaseAll client filters
    (count + more, last)

section Lighter

/-- An index has come from another one by removals from a client, which took some subscriptions:
the tree leads to the filters that are left, other clients are as they were, and the counters are
lowered by what the client has lost. -/
structure Lighter (client : String) (index : Index) (count : Nat) (other : Index) : Prop where
  cut : index.Cut other
  apart : ∀ c, c ≠ client → other.clients[c]? = index.clients[c]?
  counted : count + other.weigh id client = index.weigh id client
  less : other.weigh inWord client ≤ index.weigh inWord client
  tallied : other.tally =
    index.tally.lower (index.weigh inWord client - other.weigh inWord client)
  own : ∀ tally, other.clientTally? client = some tally →
    ∃ before, index.clientTally? client = some before ∧
      tally = before.lower (index.weigh inWord client - other.weigh inWord client)

variable {client : String} {index other last : Index} {count more : Nat}

theorem Lighter.refl (routed : index.Routed) (client : String) :
    Lighter client index 0 index where
  cut := Cut.refl routed
  apart _ _ := rfl
  counted := Nat.zero_add _
  less := Nat.le_refl _
  tallied := by rw [Nat.sub_self, Tally.lower_zero]
  own tally known := ⟨tally, known, by rw [Nat.sub_self, Tally.lower_zero]⟩

theorem Lighter.trans (first : Lighter client index count other)
    (second : Lighter client other more last) : Lighter client index (count + more) last := by
  have less := first.less
  have lessAgain := second.less
  have lost : (index.weigh inWord client - other.weigh inWord client) +
      (other.weigh inWord client - last.weigh inWord client) =
        index.weigh inWord client - last.weigh inWord client := by omega
  refine
    { cut := first.cut.trans second.cut
      apart := fun c hc => (second.apart c hc).trans (first.apart c hc)
      counted := by rw [Nat.add_assoc, second.counted, first.counted]
      less := Nat.le_trans lessAgain less
      tallied := by rw [second.tallied, first.tallied, Tally.lower_lower, lost]
      own := ?_ }
  intro tally known
  obtain ⟨between, knownBetween, rfl⟩ := second.own tally known
  obtain ⟨before, knownBefore, rfl⟩ := first.own between knownBetween
  exact ⟨before, knownBefore, by rw [Tally.lower_lower, lost]⟩

theorem lighter_remove (routed : index.Routed) (client filter : String) :
    Lighter client index (index.remove client filter).1 (index.remove client filter).2 := by
  have counted : id (index.remove client filter).1 + _ = index.weigh id client :=
    weigh_remove index client filter rfl
  have words : inWord (index.remove client filter).1 + _ = index.weigh inWord client :=
    weigh_remove index client filter rfl
  have lost : index.weigh inWord client - (index.remove client filter).2.weigh inWord client =
      inWord (index.remove client filter).1 := by omega
  refine
    { cut := cut_remove routed client filter
      apart := fun c hc => getElem?_clients_remove_of_ne index hc filter
      counted := counted
      less := by omega
      tallied := by rw [tally_remove, Tally.remove_eq_lower, lost, inWord]
      own := ?_ }
  intro tally known
  obtain ⟨before, knownBefore, rfl⟩ := clientTally?_remove index client filter known
  exact ⟨before, knownBefore, by rw [Tally.remove_eq_lower, lost, inWord]⟩

theorem lighter_releaseAll (consistent : index.Consistent) (client : String)
    (filters : List String) :
    Lighter client index (index.releaseAll client filters).1
      (index.releaseAll client filters).2 := by
  induction filters generalizing index with
  | nil => exact Lighter.refl consistent.toRouted client
  | cons filter filters ih =>
    exact (lighter_remove consistent.toRouted client filter).trans
      (ih (consistent_remove client filter consistent))

theorem consistent_releaseAll (consistent : index.Consistent) (client : String)
    (filters : List String) : (index.releaseAll client filters).2.Consistent := by
  induction filters generalizing index with
  | nil => exact consistent
  | cons filter filters ih => exact ih (consistent_remove client filter consistent)

theorem sharesByClient?_releaseAll (index : Index) (client : String) (filters : List String)
    (c f : String) :
    (index.releaseAll client filters).2.sharesByClient? c f =
      if c = client ∧ f ∈ filters then none else index.sharesByClient? c f := by
  induction filters generalizing index with
  | nil => simp [releaseAll]
  | cons filter filters ih =>
    have first : (index.releaseAll client (filter :: filters)).2 =
        ((index.remove client filter).2.releaseAll client filters).2 := rfl
    rw [first, ih, sharesByClient?_remove]
    by_cases hc : c = client
    · by_cases hf : f = filter <;> simp [hc, hf]
    · simp [hc]

/-- After giving up some filters a client holds what it held under the others. -/
theorem holds_releaseAll_iff {filters : List String} {c : String} {sub : Subscription} :
    (index.releaseAll client filters).2.Holds c sub ↔
      index.Holds c sub ∧ ¬(c = client ∧ sub.filter ∈ filters) := by
  rw [Holds, Holds, find?_eq_bind, find?_eq_bind, sharesByClient?_releaseAll]
  by_cases taken : c = client ∧ sub.filter ∈ filters
  · simp [taken]
  · simp [taken]

end Lighter

section Same

variable {client : String} {index other : Index}

/-- A client that holds nothing has no record. -/
theorem getElem?_clients_eq_none (consistent : index.Consistent)
    (nothing : ∀ f, index.sharesByClient? client f = none) : index.clients[client]? = none := by
  cases known : index.clients[client]? with
  | none => rfl
  | some record =>
    obtain ⟨f, shares, found⟩ := exists_entry (consistent.recorded client record known)
    have held := nothing f
    rw [sharesByClient?, known, Option.bind_some, found] at held
    cases held

/-- The filters in the map are those that some client subscribes to. -/
theorem mem_filters_iff (consistent : index.Consistent) {filter : String} :
    filter ∈ index.filters ↔ ∃ other, (index.sharesByFilter? other filter).isSome := by
  rw [ExtTreeMap.mem_iff_isSome_getElem?, Option.isSome_iff_exists]
  constructor
  · rintro ⟨subscribers, known⟩
    obtain ⟨other, shares, found⟩ := exists_entry (consistent.attended filter subscribers known)
    exact ⟨other, by rw [sharesByFilter?, known, Option.bind_some, found]; rfl⟩
  · rintro ⟨other, held⟩
    obtain ⟨shares, hshares⟩ := Option.isSome_iff_exists.mp held
    obtain ⟨subscribers, known, -⟩ := Option.bind_eq_some_iff.mp hshares
    exact ⟨subscribers, known⟩

/-- The map of filters is told by what the clients hold. -/
theorem filters_eq (consistent : index.Consistent) (mirrored : other.Consistent)
    (same : ∀ c f, index.sharesByClient? c f = other.sharesByClient? c f) :
    index.filters = other.filters := by
  apply ExtTreeMap.ext_getElem?
  intro filter
  apply eq_of_getElem?_bind
  · exact fun subscribers found => consistent.attended filter subscribers found
  · exact fun subscribers found => mirrored.attended filter subscribers found
  · intro c
    exact ((consistent.mirrored c filter).trans (same c filter)).trans
      (mirrored.mirrored c filter).symm

/-- The filters in the record of a client are told by what the client holds. -/
theorem recordedFilters_eq (consistent : index.Consistent) (mirrored : other.Consistent)
    (same : ∀ f, index.sharesByClient? client f = other.sharesByClient? client f) :
    index.clients[client]?.map (·.filters) = other.clients[client]?.map (·.filters) := by
  have filled : ∀ {index : Index}, index.Consistent →
      ∀ filters ∈ index.clients[client]?.map (·.filters), filters ≠ ∅ := by
    intro index consistent filters found
    obtain ⟨record, known, rfl⟩ := Option.map_eq_some_iff.mp found
    exact consistent.recorded client record known
  apply eq_of_getElem?_bind (filled consistent) (filled mirrored)
  intro f
  rw [Option.bind_map, Option.bind_map]
  exact same f

theorem weigh_congr
    (same : index.clients[client]?.map (·.filters) = other.clients[client]?.map (·.filters))
    (weight : Nat → Nat) : index.weigh weight client = other.weigh weight client := by
  have through : ∀ index : Index, index.sizes client =
      (index.clients[client]?.map (·.filters)).elim [] fun filters =>
        filters.toList.map fun entry => entry.2.size := by
    intro index
    rw [sizes]
    cases index.clients[client]? <;> rfl
  rw [weigh, weigh, through, through, same]

/-- A record has two parts. -/
theorem record_eq_of_parts {record other : Option ClientRecord}
    (filters : record.map (·.filters) = other.map (·.filters))
    (tallies : ∀ r o, record = some r → other = some o → r.tally = o.tally) : record = other := by
  cases record with
  | none => exact (Option.map_eq_none_iff.mp filters.symm).symm
  | some r =>
    obtain ⟨o, rfl, same⟩ := Option.map_eq_some_iff.mp filters.symm
    have tally := tallies r o rfl rfl
    cases r
    cases o
    cases same
    cases tally
    rfl

/-- Removals from a client that leave it the same have taken as many subscriptions and leave the
same index. -/
theorem eq_of_lighter {start : Index} {count more : Nat}
    (lighter : Lighter client start count index) (lighterToo : Lighter client start more other)
    (consistent : index.Consistent) (mirrored : other.Consistent)
    (same : ∀ f, index.sharesByClient? client f = other.sharesByClient? client f) :
    count = more ∧ index = other := by
  have recorded := recordedFilters_eq consistent mirrored same
  have weights := weigh_congr recorded
  have filters : index.filters = other.filters := by
    apply filters_eq consistent mirrored
    intro c f
    by_cases hc : c = client
    · exact hc ▸ same f
    · rw [sharesByClient?, sharesByClient?, lighter.apart c hc, lighterToo.apart c hc]
  have tree : index.tree = other.tree := by
    rw [lighter.cut.tree, lighterToo.cut.tree, filters]
  have tally : index.tally = other.tally := by
    rw [lighter.tallied, lighterToo.tallied, weights inWord]
  have tallies : ∀ record record', index.clients[client]? = some record →
      other.clients[client]? = some record' → record.tally = record'.tally := by
    intro record record' known known'
    obtain ⟨before, knownBefore, tally⟩ := lighter.own record.tally (by
      rw [clientTally?, known]
      rfl)
    obtain ⟨before', knownBefore', tally'⟩ := lighterToo.own record'.tally (by
      rw [clientTally?, known']
      rfl)
    have same : before = before' := Option.some.inj (knownBefore.symm.trans knownBefore')
    rw [tally, tally', weights inWord, same]
  have clients : index.clients = other.clients := by
    apply ExtTreeMap.ext_getElem?
    intro c
    by_cases hc : c = client
    · subst hc
      exact record_eq_of_parts recorded tallies
    · rw [lighter.apart c hc, lighterToo.apart c hc]
  have counted := lighter.counted
  have countedToo := lighterToo.counted
  rw [weights id] at counted
  refine ⟨by omega, ?_⟩
  cases index
  cases other
  cases tree
  cases filters
  cases clients
  cases tally
  rfl

end Same

end Index

end TopicRegistry
