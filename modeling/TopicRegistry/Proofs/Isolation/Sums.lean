import Mathlib.Algebra.BigOperators.Group.List.Basic
import TopicRegistry.Proofs.Accounts.Fits
import TopicRegistry.Proofs.Isolation.Parts

/-!
# Sums over the clients

What is held altogether, and what was ever added, is what each client holds and added. So the
shared counters are the sums of the counters that the clients would reach alone: the total always,
as far as a word can count, and the current number as long as the history fits.
-/

namespace TopicRegistry

section Lists

variable {α : Type}

theorem sum_map_ite_of_mem {clients : List String} (distinct : clients.Nodup) {client : String}
    (h : client ∈ clients) (n : Nat) :
    (clients.map fun c => if client = c then n else 0).sum = n := by
  induction clients with
  | nil => cases h
  | cons c clients ih =>
    obtain ⟨fresh, rest⟩ := List.nodup_cons.mp distinct
    rw [List.map_cons, List.sum_cons]
    by_cases hc : client = c
    · subst hc
      have others : (clients.map fun c => if client = c then n else 0).sum = 0 := by
        apply List.sum_eq_zero
        intro m hm
        obtain ⟨other, hother, rfl⟩ := List.mem_map.mp hm
        exact if_neg fun (same : client = other) => fresh (same ▸ hother)
      rw [if_pos rfl, others]
      rfl
    · have later : client ∈ clients := (List.mem_cons.mp h).resolve_left hc
      rw [if_neg hc, ih rest later, Nat.zero_add]

/-- A sum over entries is the sum over the clients of the sums over their entries. -/
theorem sum_by_client {clients : List String} (distinct : clients.Nodup) (owner : α → String)
    (value : α → Nat) {entries : List α} (owned : ∀ entry ∈ entries, owner entry ∈ clients) :
    (entries.map value).sum = (clients.map fun client =>
      ((entries.filter fun entry => owner entry = client).map value).sum).sum := by
  induction entries with
  | nil => simp
  | cons entry entries ih =>
    obtain ⟨first, rest⟩ := List.forall_mem_cons.mp owned
    have parts : ∀ client,
        (((entry :: entries).filter fun e => owner e = client).map value).sum =
          (if owner entry = client then value entry else 0) +
            ((entries.filter fun e => owner e = client).map value).sum := by
      intro client
      by_cases own : owner entry = client
      · simp [own]
      · simp [own]
    simp only [parts]
    rw [List.map_cons, List.sum_cons, ih rest, List.sum_map_add,
      sum_map_ite_of_mem distinct first]

theorem length_by_client {clients : List String} (distinct : clients.Nodup) (owner : α → String)
    {entries : List α} (owned : ∀ entry ∈ entries, owner entry ∈ clients) :
    entries.length = (clients.map fun client =>
      (entries.filter fun entry => owner entry = client).length).sum := by
  have counted := sum_by_client distinct owner (fun _ => 1) owned
  simpa using counted

/-- Words may be added up as numbers, if the sum is cut to a word in the end. -/
theorem ofNat_sum (ns : List Nat) :
    UInt64.ofNat ns.sum = UInt64.ofNat (ns.map fun n => (UInt64.ofNat n).toNat).sum := by
  induction ns with
  | nil => rfl
  | cons n ns ih =>
    rw [List.sum_cons, List.map_cons, List.sum_cons, UInt64.ofNat_add, UInt64.ofNat_add, ih,
      UInt64.ofNat_toNat]

end Lists

/-- The new keys of all clients are the new keys of each. -/
theorem sum_newKeys_by_client {clients : List String} (distinct : clients.Nodup)
    {operations : List Operation} (staffed : ∀ operation ∈ operations, operation.client ∈ clients)
    {answers : List Answer} (answered : answers.length = operations.length) :
    (answers.map Answer.newKeys).sum = (clients.map fun client =>
      ((answersOf client operations answers).map Answer.newKeys).sum).sum := by
  have all : answers.map Answer.newKeys =
      (operations.zip answers).map fun entry => entry.2.newKeys := by
    have answersAlone := List.map_snd_zip (Nat.le_of_eq answered)
    calc answers.map Answer.newKeys
        = ((operations.zip answers).map Prod.snd).map Answer.newKeys := by rw [answersAlone]
      _ = (operations.zip answers).map fun entry => entry.2.newKeys := List.map_map
  have owned : ∀ entry ∈ operations.zip answers, entry.1.client ∈ clients := by
    rintro ⟨operation, answer⟩ h
    exact staffed operation (List.of_mem_zip h).1
  rw [all, sum_by_client distinct (fun entry => entry.1.client) _ owned]
  simp only [answersOf, List.map_map]
  rfl

namespace Registry

section Holding

variable {config : Config} {operations : List Operation}

theorem consistent_run (config : Config) (operations : List Operation) :
    (({ config } : Registry).run operations).2.index.Consistent :=
  (follows_run config operations).2.consistent

/-- Only a client that takes part holds something. -/
theorem ownOf_ne_nil_of_holds {client : String} {sub : Subscription}
    (holds : (({ config } : Registry).run operations).2.index.Holds client sub) :
    ownOf client operations ≠ [] := by
  intro absent
  have none := clients_run_eq_none config absent
  rw [Index.Holds, Index.find?, none] at holds
  cases holds

/-- What all clients hold is what each of them holds. -/
theorem length_holdings_by_client {clients : List String} (distinct : clients.Nodup)
    (staffed : ∀ operation ∈ operations, operation.client ∈ clients) :
    (({ config } : Registry).run operations).2.index.holdings.length =
      (clients.map fun client =>
        ((({ config } : Registry).run operations).2.index.holdingsOf client).length).sum := by
  have consistent := consistent_run config operations
  have owned : ∀ entry ∈ (({ config } : Registry).run operations).2.index.holdings,
      entry.1 ∈ clients := by
    rintro ⟨c, sub⟩ h
    have some := ownOf_ne_nil_of_holds ((Index.mem_holdings consistent).mp h)
    obtain ⟨operation, hoperation⟩ := List.exists_mem_of_ne_nil _ some
    obtain ⟨there, own⟩ := List.mem_filter.mp hoperation
    exact of_decide_eq_true own ▸ staffed operation there
  rw [length_by_client distinct Prod.fst owned]
  congr 1
  apply List.map_congr_left
  intro client _
  apply List.Perm.length_eq
  rw [List.perm_ext_iff_of_nodup ((Index.nodup_holdings consistent).filter _)
    (Index.nodup_holdingsOf consistent client)]
  rintro ⟨c, sub⟩
  rw [List.mem_filter, Index.mem_holdings consistent, Index.mem_holdingsOf consistent,
    decide_eq_true_iff, and_comm]

/-- Alone a client holds what it holds among others, and nobody else holds anything. -/
theorem length_holdings_ownOf (config : Config) (operations : List Operation) (client : String) :
    (({ config } : Registry).run (ownOf client operations)).2.index.holdings.length =
      ((({ config } : Registry).run operations).2.index.holdingsOf client).length := by
  have consistent := consistent_run config (ownOf client operations)
  rw [Index.holdingsOf_congr (alike_run config operations client).2.recorded]
  apply List.Perm.length_eq
  rw [List.perm_ext_iff_of_nodup (Index.nodup_holdings consistent)
    (Index.nodup_holdingsOf consistent client)]
  rintro ⟨c, sub⟩
  rw [Index.mem_holdings consistent, Index.mem_holdingsOf consistent]
  constructor
  · intro holds
    refine ⟨?_, holds⟩
    by_contra apart
    exact ownOf_ne_nil_of_holds holds (ownOf_ownOf_of_ne apart operations)
  · rintro ⟨-, holds⟩
    exact holds

end Holding

section Counters

variable {config : Config} {operations : List Operation} {clients : List String}

/-- The shared total is the sum of the totals that the clients reach alone, cut to a word. -/
theorem total_by_client (config : Config) (distinct : clients.Nodup)
    (staffed : ∀ operation ∈ operations, operation.client ∈ clients) :
    (({ config } : Registry).run operations).2.index.tally.total =
      UInt64.ofNat (clients.map fun client =>
        (({ config } : Registry).run (ownOf client operations)).2.index.tally.total.toNat).sum := by
  have total : ∀ operations, (({ config } : Registry).run operations).2.index.tally.total =
      UInt64.ofNat ((({ config } : Registry).run operations).1.map Answer.newKeys).sum := by
    intro operations
    obtain ⟨ledger, balanced⟩ := balanced_run config operations
    exact balanced.total
  have answered := length_run { config } operations
  rw [total, sum_newKeys_by_client distinct staffed answered, ofNat_sum, List.map_map]
  congr 2
  apply List.map_congr_left
  intro client _
  rw [total, Function.comp_apply, (alike_run config operations client).1]

/-- The part of a client in a history that fits does fit. -/
theorem fits_ownOf (fits : Fits config operations) (client : String) :
    Fits config (ownOf client operations) := by
  intro before rest split
  obtain ⟨earlier, later, rfl, rfl, -⟩ := List.filter_eq_append_iff.mp split
  have follows := (follows_run config earlier).2
  have whole := fits earlier later rfl
  have held := (Index.holdingsOf_perm follows.consistent follows.shows client).length_eq
  rw [length_holdings_of_follows follows] at whole
  rw [Ledger.length_holdings] at held
  calc (({ config } : Registry).run (ownOf client earlier)).2.index.holdings.length
      = (Ledger.run config earlier).2.held client := by rw [length_holdings_ownOf, held]; rfl
    _ ≤ (Ledger.run config earlier).2.size := Ledger.held_le_size client
    _ < 2 ^ 64 := whole

/-- The shared current number is the sum of those that the clients reach alone. -/
theorem current_by_client (fits : Fits config operations) (distinct : clients.Nodup)
    (staffed : ∀ operation ∈ operations, operation.client ∈ clients) :
    (({ config } : Registry).run operations).2.index.tally.current.toNat =
      (clients.map fun client =>
        (({ config } : Registry).run (ownOf client operations)).2.index.tally.current.toNat).sum := by
  rw [(countsExactly_run fits).current, length_holdings_by_client distinct staffed]
  congr 1
  apply List.map_congr_left
  intro client _
  rw [(countsExactly_run (fits_ownOf fits client)).current, length_holdings_ownOf]

end Counters

end Registry

end TopicRegistry
