import Std.Data.ExtTreeMap.Lemmas
import TopicRegistry.Registry.Index

/-!
# What an index holds

An index is observed through `find?`. Inserting a subscription changes what is found under its
client, filter and share group and nothing else; removing a filter of a client, or a client,
takes away exactly what was found under it, whatever the share groups.
-/

namespace TopicRegistry.Index

theorem detach_clients (index : Index) (client filter : String) :
    (index.detach client filter).clients = index.clients := by
  rw [detach]
  split
  · rfl
  · dsimp only
    split <;> rfl

theorem foldl_detach_clients (client : String) (filters : List String) (index : Index) :
    (filters.foldl (·.detach client ·) index).clients = index.clients := by
  induction filters generalizing index with
  | nil => rfl
  | cons filter filters ih => rw [List.foldl_cons, ih, detach_clients]

/-- Inserting changes what is found under the key of the subscription, and nothing else. -/
theorem find?_insert (index : Index) (client : String) (sub : Subscription) (c f s : String) :
    (index.insert client sub).2.find? c f s =
      if c = client ∧ f = sub.filter ∧ s = sub.share then some sub else index.find? c f s := by
  by_cases hc : c = client
  · subst hc
    by_cases hf : f = sub.filter
    · subst hf
      by_cases hs : s = sub.share
      · simp [insert, find?, hs]
      · have hs' : sub.share ≠ s := Ne.symm hs
        cases hr : index.clients[c]? with
        | none => simp [insert, find?, hr, hs, hs']
        | some record =>
          cases hk : record.filters[sub.filter]? <;>
            simp [insert, find?, hr, hk, hs, hs', Std.ExtTreeMap.getElem?_insert]
    · have hf' : sub.filter ≠ f := Ne.symm hf
      cases hr : index.clients[c]? <;>
        simp [insert, find?, hr, hf, hf', Std.ExtTreeMap.getElem?_insert]
  · have hc' : client ≠ c := Ne.symm hc
    simp [insert, find?, hc, hc', Std.ExtTreeMap.getElem?_insert]

/-- Removing a filter of a client takes away what was found under the two, and nothing else. -/
theorem find?_remove (index : Index) (client filter : String) (c f s : String) :
    (index.remove client filter).2.find? c f s =
      if c = client ∧ f = filter then none else index.find? c f s := by
  rw [remove]
  split
  · next hr =>
    split
    · next h => simp [find?, h.1, hr]
    · rfl
  · next record hr =>
    split
    · next hk =>
      split
      · next h => simp [find?, h.1, h.2, hr, hk]
      · rfl
    · next shares hk =>
      rw [find?, find?]
      simp only [detach_clients]
      by_cases hc : c = client
      · subst hc
        by_cases hf : f = filter
        · subst hf
          split <;> simp
        · have hf' : filter ≠ f := Ne.symm hf
          split
          · next hempty =>
            have gone : record.filters[f]? = none := by
              have := congrArg (·[f]?) (Std.ExtTreeMap.isEmpty_iff.mp hempty)
              simpa [Std.ExtTreeMap.getElem?_erase, hf'] using this
            simp [hf, hr, gone]
          · simp [hf, hf', hr, Std.ExtTreeMap.getElem?_erase]
      · have hc' : client ≠ c := Ne.symm hc
        split <;> simp [hc, hc', Std.ExtTreeMap.getElem?_erase, Std.ExtTreeMap.getElem?_insert]

/-- Removing a client takes away what was found under it, and nothing else. -/
theorem find?_removeClient (index : Index) (client : String) (c f s : String) :
    (index.removeClient client).2.find? c f s = if c = client then none else index.find? c f s := by
  rw [removeClient]
  split
  · next hr =>
    split
    · next h => simp [find?, h, hr]
    · rfl
  · next record hr =>
    rw [find?, find?]
    simp only [foldl_detach_clients]
    by_cases hc : c = client
    · simp [hc]
    · have hc' : client ≠ c := Ne.symm hc
      simp [hc, hc', Std.ExtTreeMap.getElem?_erase]

end TopicRegistry.Index
