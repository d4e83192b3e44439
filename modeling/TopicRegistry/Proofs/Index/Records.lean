import TopicRegistry.Proofs.Index.Shows

/-!
# Records of the clients

What an index does for a client is decided by the record of this client alone, although it changes
maps that all clients share. Two indexes with the same record of a client answer its insertions
and removals alike and end with the same record of it, and they leave the records of all other
clients as they are.
-/

namespace TopicRegistry.Index

open Std (ExtTreeMap)

section Others

variable (index : Index) {client c : String} (other : c ≠ client)
include other

theorem getElem?_clients_insert_of_ne (sub : Subscription) :
    (index.insert client sub).2.clients[c]? = index.clients[c]? := by
  simp [insert, ExtTreeMap.getElem?_insert, Ne.symm other]

theorem getElem?_clients_remove_of_ne (filter : String) :
    (index.remove client filter).2.clients[c]? = index.clients[c]? := by
  cases held : index.sharesByClient? client filter with
  | none => rw [remove_unheld client filter held]
  | some shares =>
    obtain ⟨record, hr, hk⟩ := Option.bind_eq_some_iff.mp held
    rw [clients_remove client filter hr hk]
    split
    · simp [ExtTreeMap.getElem?_erase, Ne.symm other]
    · simp [ExtTreeMap.getElem?_insert, Ne.symm other]

theorem getElem?_clients_removeClient_of_ne :
    (index.removeClient client).2.clients[c]? = index.clients[c]? := by
  cases known : index.clients[client]? with
  | none => rw [removeClient_unknown client known]
  | some record =>
    rw [(removeClient_known client known).2.2]
    simp [ExtTreeMap.getElem?_erase, Ne.symm other]

end Others

section Own

variable {index other : Index} {client : String}
  (same : index.clients[client]? = other.clients[client]?)
include same

theorem sharesByClient?_congr (filter : String) :
    index.sharesByClient? client filter = other.sharesByClient? client filter := by
  rw [sharesByClient?, sharesByClient?, same]

theorem find?_congr (filter share : String) :
    index.find? client filter share = other.find? client filter share := by
  rw [find?, find?, same]

theorem clientTally?_congr : index.clientTally? client = other.clientTally? client := by
  rw [clientTally?, clientTally?, same]

theorem holdingsOf_congr : index.holdingsOf client = other.holdingsOf client := by
  rw [holdingsOf, holdingsOf, same]

/-- Whether a key was there is read among the subscribers of its filter, but the record tells the
same. -/
theorem existed_insert_congr (consistent : index.Consistent) (mirrored : other.Consistent)
    (sub : Subscription) : (index.insert client sub).1 = (other.insert client sub).1 := by
  rw [existed_insert, existed_insert, consistent.mirrored, mirrored.mirrored,
    sharesByClient?_congr same]

theorem clients_insert_congr (consistent : index.Consistent) (mirrored : other.Consistent)
    (sub : Subscription) :
    (index.insert client sub).2.clients[client]? =
      (other.insert client sub).2.clients[client]? := by
  have existed := existed_insert_congr same consistent mirrored sub
  simp only [insert] at existed
  simp only [insert, ExtTreeMap.getElem?_insert_self, same, existed]

theorem count_remove_congr (filter : String) :
    (index.remove client filter).1 = (other.remove client filter).1 := by
  rw [count_remove, count_remove, sharesByClient?_congr same]

theorem clients_remove_congr (filter : String) :
    (index.remove client filter).2.clients[client]? =
      (other.remove client filter).2.clients[client]? := by
  have shares := sharesByClient?_congr same filter
  cases held : index.sharesByClient? client filter with
  | none =>
    rw [remove_unheld client filter held, remove_unheld client filter (shares ▸ held)]
    exact same
  | some found =>
    obtain ⟨record, hr, hk⟩ := Option.bind_eq_some_iff.mp held
    rw [clients_remove client filter hr hk, clients_remove client filter (same ▸ hr) hk]
    split
    · simp
    · simp

theorem count_removeClient_congr :
    (index.removeClient client).1 = (other.removeClient client).1 := by
  rw [count_removeClient, count_removeClient, holdingsOf_congr same]

end Own

/-- No record of a client outlasts its leaving. -/
theorem clients_removeClient_self (index : Index) (client : String) :
    (index.removeClient client).2.clients[client]? = none := by
  cases known : index.clients[client]? with
  | none =>
    rw [removeClient_unknown client known]
    exact known
  | some record =>
    rw [(removeClient_known client known).2.2]
    simp

end TopicRegistry.Index
