import TopicRegistry.Proofs.Index.Contents

/-!
# What queries answer

A query that reads its topic walks over a list of held subscriptions, whatever the visitor is, and
shows the ones that its mask admits. The queries that collect their answer are walks that nobody
stops: they fold the list.
-/

namespace TopicRegistry

open Std (ExtTreeMap)

def KindMask.admitted (mask : KindMask) (holdings : Holdings) : Holdings :=
  holdings.filter fun entry => mask.admits entry.2.share entry.2.filter

theorem KindMask.all_admits (share filter : String) : KindMask.all.admits share filter = true := by
  by_cases h : share = "" <;> simp [KindMask.admits, KindMask.all, h]

theorem KindMask.admitted_all (holdings : Holdings) : KindMask.all.admitted holdings = holdings := by
  rw [KindMask.admitted, List.filter_eq_self]
  intro entry _
  exact KindMask.all_admits entry.2.share entry.2.filter

theorem KindMask.mem_admitted {mask : KindMask} {holdings : Holdings} {client : String}
    {sub : Subscription} :
    (client, sub) ∈ mask.admitted holdings ↔
      (client, sub) ∈ holdings ∧ mask.admits sub.share sub.filter = true :=
  List.mem_filter

section Collecting

variable {σ : Type}

/-- A walk that nobody stops folds over what it shows. -/
theorem over_yield (collect : σ → String → Subscription → σ) (holdings : Holdings) (state : σ) :
    Visitor.over (fun state client sub => .yield (collect state client sub)) holdings state =
      .yield (holdings.foldl (fun state entry => collect state entry.1 entry.2) state) := by
  induction holdings generalizing state with
  | nil => rfl
  | cons entry holdings ih => exact ih (collect state entry.1 entry.2)

def ownIn (client : String) (holdings : Holdings) : List Subscription :=
  (holdings.filter fun entry => entry.1 = client).map Prod.snd

def ByClient.push (grouped : ByClient) (entry : String × Subscription) : ByClient :=
  grouped.insert entry.1 (entry.2 :: grouped[entry.1]?.getD [])

/-- Grouping collects what a client has in a list, and has no entry for other clients. -/
theorem getElem?_foldl_push (holdings : Holdings) (grouped : ByClient) (client : String) :
    (holdings.foldl ByClient.push grouped)[client]? =
      if ownIn client holdings = [] then grouped[client]?
      else some ((ownIn client holdings).reverse ++ grouped[client]?.getD []) := by
  induction holdings generalizing grouped with
  | nil => rfl
  | cons entry holdings ih =>
    obtain ⟨c, sub⟩ := entry
    rw [List.foldl_cons, ih]
    by_cases hc : c = client
    · subst hc
      have pushed : (grouped.push (c, sub))[c]? = some (sub :: grouped[c]?.getD []) := by
        simp [ByClient.push]
      have own : ownIn c ((c, sub) :: holdings) = sub :: ownIn c holdings := by simp [ownIn]
      rw [pushed, own]
      by_cases hnil : ownIn c holdings = []
      · simp [hnil]
      · simp [hnil]
    · have pushed : (grouped.push (c, sub))[client]? = grouped[client]? := by
        simp [ByClient.push, ExtTreeMap.getElem?_insert, hc]
      have own : ownIn client ((c, sub) :: holdings) = ownIn client holdings := by
        simp [ownIn, hc]
      rw [pushed, own]

/-- What a client has in a list is grouped under it, and no group is empty. -/
theorem group_perm (holdings : Holdings) (client : String) :
    ((holdings.foldl ByClient.push ∅)[client]?.getD []).Perm (ownIn client holdings) ∧
      (holdings.foldl ByClient.push ∅)[client]? ≠ some [] := by
  rw [getElem?_foldl_push]
  by_cases nothing : ownIn client holdings = []
  · simp [nothing]
  · rw [if_neg nothing]
    exact ⟨by simp, by simpa using nothing⟩

end Collecting

namespace Registry

variable {σ : Type} (registry : Registry) (visitor : Visitor σ) (state : σ)

theorem visit_all (mask : KindMask) (comparison : Comparison) :
    registry.visit { mask, comparison } visitor state =
      (.ok (), (visitor.over (mask.admitted registry.index.holdings) state).value) := by
  rw [visit]
  simp only [Option.map_none]
  rw [walkAll_eq, over_only]
  rfl

/-- The entries of a registry, last shown first. -/
theorem entries_all : registry.entries {} = .ok registry.index.holdings.reverse := by
  rw [entries, collect, visit_all, KindMask.admitted_all,
    over_yield fun found client sub => (client, sub) :: found, List.foldl_flip_cons_eq_append,
    List.append_nil, List.map_id']
  rfl

/-- What one client holds, last shown first. -/
theorem ofClient_eq (client : String) (mask : KindMask) :
    registry.ofClient client mask =
      ((mask.admitted (registry.index.holdingsOf client)).map Prod.snd).reverse := by
  rw [ofClient, walkClient_eq, over_only, over_yield fun found _ sub => sub :: found,
    List.foldl_flip_cons_eq_append, List.append_nil]
  rfl

theorem length_ofClient (client : String) :
    (registry.ofClient client .all).length = (registry.index.holdingsOf client).length := by
  rw [ofClient_eq, KindMask.admitted_all, List.length_reverse, List.length_map]

end Registry

end TopicRegistry
