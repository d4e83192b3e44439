import TopicRegistry.Proofs.Index.Contents
import TopicRegistry.Proofs.Ledger.Basic

/-!
# Indexes that show a ledger

An index shows a ledger if it finds, under every client, filter and share group, what stands at
the key in the ledger. What the walks of a consistent index show is then a permutation of entries
of the ledger, and the three ways of changing an index do to the ledger what they ought to do and
answer from it: an insertion whether the key was there, a removal how many keys it takes away.
-/

namespace TopicRegistry

open Std (ExtTreeMap)

namespace Ledger

def holdings (ledger : Ledger) (p : Key → Bool) : Holdings :=
  (ledger.toList.filter fun entry => p entry.1).map fun entry => (entry.1.client, entry.2)

/-- Every subscription stands at the key made of its client, its filter and its share group. -/
def Keyed (ledger : Ledger) : Prop :=
  ∀ (key : Key) sub, ledger[key]? = some sub → key = Key.of key.client sub

variable {ledger : Ledger}

theorem length_holdings (p : Key → Bool) : (ledger.holdings p).length = ledger.count p := by
  have keys : ledger.keys = ledger.toList.map Prod.fst := ExtTreeMap.map_fst_toList_eq_keys.symm
  rw [holdings, List.length_map, count, keys, List.countP_map, List.countP_eq_length_filter]
  rfl

theorem mem_holdings (keyed : ledger.Keyed) {p : Key → Bool} {client : String}
    {sub : Subscription} :
    (client, sub) ∈ ledger.holdings p ↔
      ledger[Key.of client sub]? = some sub ∧ p (Key.of client sub) = true := by
  simp only [holdings, List.mem_map, List.mem_filter, Prod.exists, Prod.mk.injEq,
    ExtTreeMap.mem_toList_iff_getElem?_eq_some]
  constructor
  · rintro ⟨key, _, ⟨hsub, hp⟩, rfl, rfl⟩
    have hkey := keyed key _ hsub
    rw [← hkey]
    exact ⟨hsub, hp⟩
  · rintro ⟨hsub, hp⟩
    exact ⟨Key.of client sub, sub, ⟨hsub, hp⟩, rfl, rfl⟩

theorem nodup_holdings (keyed : ledger.Keyed) (p : Key → Bool) : (ledger.holdings p).Nodup := by
  have distinct : (ledger.toList.filter fun entry => p entry.1).Pairwise fun a b => a.1 ≠ b.1 :=
    (distinct_toList ledger).filter _
  rw [holdings, List.map_eq_flatMap]
  refine nodup_flatMap_of_keyed (fun entry => Key.of entry.1 entry.2) distinct
    (fun _ _ => List.pairwise_singleton _ _) ?_
  rintro ⟨key, sub⟩ hentry x hx
  rw [List.mem_singleton.mp hx]
  have hsub := ExtTreeMap.mem_toList_iff_getElem?_eq_some.mp (List.mem_filter.mp hentry).1
  exact (keyed key sub hsub).symm

/-- A list without repetition that has just the entries with a property is a permutation of
them. -/
theorem perm_holdings (keyed : ledger.Keyed) {p : Key → Bool} {list : Holdings}
    (nodup : list.Nodup)
    (same : ∀ client sub, (client, sub) ∈ list ↔
      ledger[Key.of client sub]? = some sub ∧ p (Key.of client sub) = true) :
    list.Perm (ledger.holdings p) := by
  rw [List.perm_ext_iff_of_nodup nodup (nodup_holdings keyed p)]
  rintro ⟨client, sub⟩
  rw [same, mem_holdings keyed]

end Ledger

namespace Index

/-- Under every client, filter and share group the index finds what the ledger has there. -/
def Shows (index : Index) (ledger : Ledger) : Prop :=
  ∀ client filter share,
    index.find? client filter share = ledger[(⟨client, filter, share⟩ : Key)]?

theorem shows_empty : Shows {} ∅ := by
  intro client filter share
  simp [find?]

variable {index : Index} {ledger : Ledger}

theorem holds_iff_of_shows (shows : index.Shows ledger) {client : String} {sub : Subscription} :
    index.Holds client sub ↔ ledger[Key.of client sub]? = some sub := by
  rw [Holds, shows, Key.of]

theorem keyed_of_shows (consistent : index.Consistent) (shows : index.Shows ledger) :
    ledger.Keyed := by
  rintro ⟨client, filter, share⟩ sub hsub
  rw [← shows, find?_eq_bind, Option.bind_eq_some_iff] at hsub
  obtain ⟨shares, hshares, hsub⟩ := hsub
  obtain ⟨rfl, rfl⟩ := consistent.keyed client filter shares share sub hshares hsub
  rfl

section Walks

theorem holdings_perm (consistent : index.Consistent) (shows : index.Shows ledger) :
    index.holdings.Perm (ledger.holdings fun _ => true) := by
  refine Ledger.perm_holdings (keyed_of_shows consistent shows) (nodup_holdings consistent) ?_
  intro client sub
  rw [mem_holdings consistent, holds_iff_of_shows shows]
  exact (and_iff_left rfl).symm

theorem holdingsOf_perm (consistent : index.Consistent) (shows : index.Shows ledger)
    (client : String) : (index.holdingsOf client).Perm (ledger.holdings (Key.isOf client)) := by
  refine Ledger.perm_holdings (keyed_of_shows consistent shows)
    (nodup_holdingsOf consistent client) ?_
  intro c sub
  rw [mem_holdingsOf consistent, holds_iff_of_shows shows, Key.isOf_iff, and_comm]
  rfl

theorem shares_perm (consistent : index.Consistent) (shows : index.Shows ledger)
    {client filter : String} {shares : Shares}
    (held : index.sharesByClient? client filter = some shares) :
    (shares.holdings client).Perm (ledger.holdings (Key.isUnder client filter)) := by
  refine Ledger.perm_holdings (keyed_of_shows consistent shows) (nodup_shares consistent held) ?_
  intro c sub
  rw [mem_shares_holdings, Key.isUnder_iff, ← holds_iff_of_shows shows, holds_iff consistent]
  constructor
  · rintro ⟨rfl, share, hsub⟩
    obtain ⟨rfl, -⟩ := consistent.keyed c filter shares share sub held hsub
    exact ⟨⟨sub.filter, shares, share, held, hsub⟩, rfl, rfl⟩
  · rintro ⟨⟨other, found, share, hfound, hsub⟩, rfl, rfl⟩
    obtain ⟨hfilter, -⟩ := consistent.keyed _ other found share sub hfound hsub
    have same : found = shares :=
      Option.some.inj (hfound.symm.trans (hfilter ▸ held))
    exact ⟨rfl, share, same ▸ hsub⟩

end Walks

section Changes

/-- An insertion answers whether the key was there. -/
theorem existed_insert_eq (consistent : index.Consistent) (shows : index.Shows ledger)
    (client : String) (sub : Subscription) :
    (index.insert client sub).1 = ledger.contains (Key.of client sub) := by
  have found : ledger.contains (Key.of client sub) =
      (index.find? client sub.filter sub.share).isSome := by
    rw [shows, ExtTreeMap.contains_eq_isSome_getElem?]
    rfl
  rw [existed_insert, consistent.mirrored, found, find?_eq_bind]
  cases index.sharesByClient? client sub.filter with
  | none => simp
  | some shares => exact ExtTreeMap.contains_eq_isSome_getElem?

theorem shows_insert (shows : index.Shows ledger) (client : String) (sub : Subscription) :
    (index.insert client sub).2.Shows (ledger.write client sub) := by
  intro c f s
  rw [find?_insert, Ledger.getElem?_write, shows]
  simp only [Key.of, Key.mk.injEq]

theorem length_shares_holdings (shares : Shares) (client : String) :
    (shares.holdings client).length = shares.size := by
  rw [Shares.holdings, List.length_map, ExtTreeMap.length_toList]

/-- A removal answers how many keys it takes away. -/
theorem count_remove_eq (consistent : index.Consistent) (shows : index.Shows ledger)
    (client filter : String) :
    (index.remove client filter).1 = ledger.count (Key.isUnder client filter) := by
  rw [count_remove]
  cases held : index.sharesByClient? client filter with
  | none =>
    symm
    apply Ledger.count_eq_zero_iff.mpr
    rintro ⟨c, f, s⟩ hkey
    have found : (index.find? c f s).isSome := by
      rw [shows]
      exact ExtTreeMap.mem_iff_isSome_getElem?.mp hkey
    apply Bool.eq_false_iff.mpr
    intro hunder
    obtain ⟨rfl, rfl⟩ := Key.isUnder_iff.mp hunder
    simp [find?_eq_bind, held] at found
  | some shares =>
    have perm := shares_perm consistent shows held
    have counted := perm.length_eq.trans (Ledger.length_holdings _)
    exact (length_shares_holdings shares client).symm.trans counted

theorem shows_remove (shows : index.Shows ledger) (client filter : String) :
    (index.remove client filter).2.Shows (ledger.without (Key.isUnder client filter)) := by
  intro c f s
  rw [find?_remove, Ledger.getElem?_without, shows]
  simp only [Key.isUnder_iff]

theorem length_record_holdings (record : ClientRecord) (client : String) :
    record.filters.foldl (fun count _ shares => count + shares.size) 0 =
      (record.holdings client).length := by
  have counted : ∀ (entries : List (String × Shares)) (count : Nat),
      entries.foldl (fun count entry => count + entry.2.size) count =
        count + (entries.flatMap fun entry => Shares.holdings entry.2 client).length := by
    intro entries
    induction entries with
    | nil => exact fun _ => rfl
    | cons entry entries ih =>
      intro count
      have here := length_shares_holdings entry.2 client
      have rest := ih (count + entry.2.size)
      rw [List.foldl_cons, List.flatMap_cons, List.length_append]
      omega
  rw [ExtTreeMap.foldl_eq_foldl_toList, counted, Nat.zero_add, ClientRecord.holdings]

theorem count_removeClient (index : Index) (client : String) :
    (index.removeClient client).1 = (index.holdingsOf client).length := by
  rw [holdingsOf]
  cases known : index.clients[client]? with
  | none =>
    rw [removeClient_unknown client known]
    rfl
  | some record =>
    rw [removeClient, known]
    exact length_record_holdings record client

/-- Leaving answers how many keys the client had. -/
theorem count_removeClient_eq (consistent : index.Consistent) (shows : index.Shows ledger)
    (client : String) : (index.removeClient client).1 = ledger.held client := by
  have perm := holdingsOf_perm consistent shows client
  have counted := perm.length_eq.trans (Ledger.length_holdings _)
  exact (count_removeClient index client).trans counted

theorem shows_removeClient (shows : index.Shows ledger) (client : String) :
    (index.removeClient client).2.Shows (ledger.without (Key.isOf client)) := by
  intro c f s
  rw [find?_removeClient, Ledger.getElem?_without, shows]
  simp only [Key.isOf_iff]

end Changes

end Index

end TopicRegistry
