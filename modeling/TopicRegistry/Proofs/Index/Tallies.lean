import TopicRegistry.Proofs.Index.Records

/-!
# Counters of an index

Each change of an index goes along with one change of its own tally and one of the tally of its
client. A client has a tally as long as it holds something. If the tallies of the clients are
exact before a removal, they are exact after it; an insertion needs room for one more in a word.
-/

namespace TopicRegistry.Index

open Std (ExtTreeMap)

theorem tally_detach (index : Index) (client filter : String) :
    (index.detach client filter).tally = index.tally := by
  rw [detach]
  split
  · rfl
  · dsimp only
    split <;> rfl

theorem tally_detachAll (index : Index) (client : String) (filters : List String) :
    (index.detachAll client filters).tally = index.tally := by
  induction filters generalizing index with
  | nil => rfl
  | cons filter filters ih => exact (ih (index.detach client filter)).trans (tally_detach ..)

section Changes

variable (index : Index) (client filter : String) (sub : Subscription)

theorem tally_insert :
    (index.insert client sub).2.tally =
      if (index.insert client sub).1 then index.tally else index.tally.add := rfl

theorem clientTally?_insert (c : String) :
    (index.insert client sub).2.clientTally? c =
      if c = client then
        some (if (index.insert client sub).1 then (index.clientTally? client).getD {}
          else ((index.clientTally? client).getD {}).add)
      else index.clientTally? c := by
  by_cases hc : c = client
  · subst hc
    cases hr : index.clients[c]? <;> simp [clientTally?, insert, hr]
  · rw [if_neg hc, clientTally?, getElem?_clients_insert_of_ne index hc, clientTally?]

theorem tally_remove :
    (index.remove client filter).2.tally =
      index.tally.remove (UInt64.ofNat (index.remove client filter).1) := by
  cases held : index.sharesByClient? client filter with
  | none =>
    rw [remove_unheld client filter held]
    simp [Tally.remove]
  | some shares =>
    obtain ⟨record, hr, hk⟩ := Option.bind_eq_some_iff.mp held
    simp only [remove, hr, hk, tally_detach]

theorem clientTally?_remove_of_ne {c : String} (other : c ≠ client) :
    (index.remove client filter).2.clientTally? c = index.clientTally? c := by
  rw [clientTally?, getElem?_clients_remove_of_ne index other, clientTally?]

/-- The tally that a client has after a removal is the one it had, less what was removed. -/
theorem clientTally?_remove {tally : Tally}
    (after : (index.remove client filter).2.clientTally? client = some tally) :
    ∃ before, index.clientTally? client = some before ∧
      tally = before.remove (UInt64.ofNat (index.remove client filter).1) := by
  cases held : index.sharesByClient? client filter with
  | none =>
    rw [remove_unheld client filter held] at after ⊢
    exact ⟨tally, after, by simp [Tally.remove]⟩
  | some shares =>
    obtain ⟨record, hr, hk⟩ := Option.bind_eq_some_iff.mp held
    rw [clientTally?, clients_remove client filter hr hk] at after
    rw [count_remove, held]
    refine ⟨record.tally, by rw [clientTally?, hr]; rfl, ?_⟩
    split at after
    · simp at after
    · simpa using after.symm

theorem tally_removeClient :
    (index.removeClient client).2.tally =
      index.tally.remove (UInt64.ofNat (index.removeClient client).1) := by
  cases known : index.clients[client]? with
  | none =>
    rw [removeClient_unknown client known]
    simp [Tally.remove]
  | some record =>
    have kept := tally_detachAll { index with clients := index.clients.erase client } client
      record.filters.keys
    rw [detachAll] at kept
    simp only [removeClient, known, kept]

theorem clientTally?_removeClient (c : String) :
    (index.removeClient client).2.clientTally? c =
      if c = client then none else index.clientTally? c := by
  by_cases hc : c = client
  · rw [if_pos hc, hc, clientTally?, clients_removeClient_self]
    rfl
  · rw [if_neg hc, clientTally?, getElem?_clients_removeClient_of_ne index hc, clientTally?]

end Changes

/-- The tallies of the clients say how many keys of theirs a ledger has. -/
def Counts (index : Index) (ledger : Ledger) : Prop :=
  ∀ client tally, index.clientTally? client = some tally →
    tally.current.toNat = ledger.held client

section Exact

variable {index : Index} {ledger : Ledger}

theorem counts_empty : Counts {} ∅ := by
  intro client tally h
  simp [clientTally?] at h

/-- A client has a tally as long as it holds something. -/
theorem clientTally?_eq_none_iff (consistent : index.Consistent) (shows : index.Shows ledger)
    {client : String} : index.clientTally? client = none ↔ ledger.held client = 0 := by
  have perm := holdingsOf_perm consistent shows client
  have held : (index.holdingsOf client).length = ledger.held client :=
    perm.length_eq.trans (Ledger.length_holdings _)
  rw [clientTally?, Option.map_eq_none_iff, ← holdingsOf_eq_nil_iff consistent,
    ← List.length_eq_zero_iff, held]

/-- Without a record the number of keys is zero, as in an untouched tally. -/
theorem toNat_current_getD (consistent : index.Consistent) (shows : index.Shows ledger)
    (counts : index.Counts ledger) (client : String) :
    ((index.clientTally? client).getD {}).current.toNat = ledger.held client := by
  cases h : index.clientTally? client with
  | none => exact ((clientTally?_eq_none_iff consistent shows).mp h).symm
  | some tally => exact counts client tally h

theorem tally_insert_of_mem (consistent : index.Consistent) (shows : index.Shows ledger)
    {client : String} {sub : Subscription} (there : Key.of client sub ∈ ledger) :
    (index.insert client sub).2.tally = index.tally := by
  rw [tally_insert, existed_insert_eq consistent shows,
    if_pos (ExtTreeMap.contains_iff_mem.mpr there)]

theorem tally_insert_of_not_mem (consistent : index.Consistent) (shows : index.Shows ledger)
    {client : String} {sub : Subscription} (fresh : Key.of client sub ∉ ledger) :
    (index.insert client sub).2.tally = index.tally.add := by
  rw [tally_insert, existed_insert_eq consistent shows,
    if_neg fun there => fresh (ExtTreeMap.contains_iff_mem.mp there)]

theorem toNat_current_add {tally : Tally} (room : tally.current.toNat + 1 < 2 ^ 64) :
    tally.add.current.toNat = tally.current.toNat + 1 := by
  rw [Tally.add, UInt64.toNat_add]
  exact Nat.mod_eq_of_lt room

theorem toNat_current_remove_ofNat {tally : Tally} {count : Nat}
    (fits : count ≤ tally.current.toNat) :
    (tally.remove (UInt64.ofNat count)).current.toNat = tally.current.toNat - count := by
  have small : count < 2 ^ 64 := Nat.lt_of_le_of_lt fits tally.current.toNat_lt
  rw [Tally.toNat_current_remove, UInt64.toNat_ofNat_of_lt' small]

/-- A removal takes no more from an exact number than is there, so the number stays exact. -/
theorem current_remove (consistent : index.Consistent) (shows : index.Shows ledger)
    (exact : index.tally.current.toNat = ledger.size) (client filter : String) :
    (index.remove client filter).2.tally.current.toNat =
      (ledger.without (Key.isUnder client filter)).size := by
  have kept : _ = ledger.size := Ledger.size_without_add (Key.isUnder client filter)
  rw [tally_remove, count_remove_eq consistent shows, toNat_current_remove_ofNat (by omega)]
  omega

theorem current_removeClient (consistent : index.Consistent) (shows : index.Shows ledger)
    (exact : index.tally.current.toNat = ledger.size) (client : String) :
    (index.removeClient client).2.tally.current.toNat =
      (ledger.without (Key.isOf client)).size := by
  have kept : _ + ledger.held client = ledger.size := Ledger.size_without_add (Key.isOf client)
  rw [tally_removeClient, count_removeClient_eq consistent shows,
    toNat_current_remove_ofNat (by omega)]
  omega

theorem counts_insert (consistent : index.Consistent) (shows : index.Shows ledger)
    (counts : index.Counts ledger) {client : String} {sub : Subscription}
    (room : (ledger.write client sub).held client < 2 ^ 64) :
    (index.insert client sub).2.Counts (ledger.write client sub) := by
  intro c tally h
  have before := toNat_current_getD consistent shows counts client
  rw [clientTally?_insert, existed_insert_eq consistent shows] at h
  by_cases there : Key.of client sub ∈ ledger
  · rw [Ledger.held_write_of_mem there]
    split at h
    · next hc =>
      rw [if_pos (ExtTreeMap.contains_iff_mem.mpr there)] at h
      cases h
      rw [hc]
      exact before
    · exact counts c tally h
  · rw [Ledger.held_write_of_not_mem there] at room ⊢
    rw [if_pos rfl, ← before] at room
    split at h
    · next hc =>
      rw [if_neg (fun hmem => there (ExtTreeMap.contains_iff_mem.mp hmem))] at h
      cases h
      rw [toNat_current_add room, before, hc, if_pos rfl]
    · next hc =>
      rw [if_neg hc]
      exact counts c tally h

theorem counts_remove (consistent : index.Consistent) (shows : index.Shows ledger)
    (counts : index.Counts ledger) (client filter : String) :
    (index.remove client filter).2.Counts (ledger.without (Key.isUnder client filter)) := by
  intro c tally h
  have kept := ledger.held_without_isUnder client filter c
  by_cases hc : c = client
  · subst hc
    obtain ⟨before, hbefore, rfl⟩ := clientTally?_remove index c filter h
    have exact := counts c before hbefore
    rw [if_pos rfl] at kept
    rw [count_remove_eq consistent shows, toNat_current_remove_ofNat (by omega)]
    omega
  · rw [clientTally?_remove_of_ne index client filter hc] at h
    rw [if_neg hc] at kept
    rw [counts c tally h]
    omega

theorem counts_removeClient (counts : index.Counts ledger) (client : String) :
    (index.removeClient client).2.Counts (ledger.without (Key.isOf client)) := by
  intro c tally h
  rw [clientTally?_removeClient] at h
  split at h
  · cases h
  · next hc =>
    rw [Ledger.held_without_isOf, if_neg hc]
    exact counts c tally h

end Exact

end TopicRegistry.Index
