import Std.Data.ExtTreeMap.Lemmas
import TopicRegistry.Proofs.Step

/-!
# Ledgers

A ledger is what a registry is about and nothing else: a finite map from client, filter and share
group to the subscription held there. It knows no second index, no tree and no counters. It is a
machine like a registry, with the outcomes that the steps of a history ought to have. Whether an
entry is refused is decided by the entry itself, by the configuration and by how many keys of the
client the map has.
-/

namespace TopicRegistry

open Std (ExtTreeMap)

structure Key where
  client : String
  filter : String
  share : String
  deriving DecidableEq

namespace Key

/-- Keys are ordered by client, then by filter, then by share group. -/
def order : Key → Key → Ordering :=
  compareLex (compareOn client) (compareLex (compareOn filter) (compareOn share))

instance : Ord Key := ⟨order⟩

instance : Std.TransOrd Key :=
  inferInstanceAs (Std.TransCmp
    (compareLex (compareOn client) (compareLex (compareOn filter) (compareOn share))))

instance : Std.LawfulEqOrd Key where
  eq_of_compare {a b} h := by
    have hlex : order a b = .eq := h
    simp only [order, compareLex, compareOn, Ordering.then_eq_eq, Std.LawfulEqCmp.compare_eq_iff_eq]
      at hlex
    obtain ⟨hclient, hfilter, hshare⟩ := hlex
    cases a
    cases b
    simp_all

def of (client : String) (sub : Subscription) : Key :=
  ⟨client, sub.filter, sub.share⟩

def isOf (client : String) (key : Key) : Bool :=
  key.client = client

def isUnder (client filter : String) (key : Key) : Bool :=
  key.client = client && key.filter = filter

theorem isOf_iff {client : String} {key : Key} : key.isOf client = true ↔ key.client = client := by
  simp [isOf]

theorem isUnder_iff {client filter : String} {key : Key} :
    key.isUnder client filter = true ↔ key.client = client ∧ key.filter = filter := by
  simp [isUnder]

theorem isOf_of_isUnder {client filter : String} {key : Key}
    (h : key.isUnder client filter = true) : key.isOf client = true :=
  isOf_iff.mpr (isUnder_iff.mp h).1

end Key

/-- The subscriptions that are held, by key. -/
abbrev Ledger := ExtTreeMap Key Subscription

namespace Ledger

def count (ledger : Ledger) (p : Key → Bool) : Nat :=
  ledger.keys.countP p

def held (ledger : Ledger) (client : String) : Nat :=
  ledger.count (Key.isOf client)

def write (ledger : Ledger) (client : String) (sub : Subscription) : Ledger :=
  ledger.insert (Key.of client sub) sub

def without (ledger : Ledger) (p : Key → Bool) : Ledger :=
  ledger.filter fun key _ => !p key

/-- What speaks against an entry, whoever submits it and whatever is held. -/
def entryRefusal? (config : Config) (sub : Subscription) : Option RegistryError :=
  Registry.filterRefusal? sub <|> Registry.prefixRefusal? sub <|> Registry.groupRefusal? sub <|>
    Registry.depthRefusal? config sub <|> Registry.capabilityRefusal? config sub

def quotaRefusal? (ledger : Ledger) (config : Config) (client : String) (sub : Subscription) :
    Option RegistryError :=
  if 0 < config.maxSubscriptions ∧ Key.of client sub ∉ ledger ∧
      config.maxSubscriptions.toNat ≤ ledger.held client then
    some (.quotaExceeded client config.maxSubscriptions)
  else none

def refusal? (ledger : Ledger) (config : Config) (client : String) (sub : Subscription) :
    Option RegistryError :=
  entryRefusal? config sub <|> ledger.quotaRefusal? config client sub

/-- An accepted entry is written at its key and answered with whether the key was there, a refused
one changes nothing; a released filter takes every key of the client and the filter away, a leaving
client every key of its own, and the answer says how many those were. -/
def step (config : Config) : Machine Ledger := fun ledger step =>
  match step with
  | .submit client sub =>
    match ledger.refusal? config client sub with
    | some e => (.judged (.error e), ledger)
    | none =>
      (.judged (.ok ⟨sub, ledger.contains (Key.of client sub)⟩), ledger.write client sub)
  | .release client filter =>
    (.removed (ledger.count (Key.isUnder client filter)), ledger.without (Key.isUnder client filter))
  | .leave client => (.removed (ledger.held client), ledger.without (Key.isOf client))

/-- The answers to a history that begins with nothing, and the ledger at its end. -/
def run (config : Config) (operations : List Operation) : List Answer × Ledger :=
  (step config).run ∅ operations

section Counting

variable {ledger : Ledger}

theorem getElem?_without (p : Key → Bool) (key : Key) :
    (ledger.without p)[key]? = if p key then none else ledger[key]? := by
  rw [without, ExtTreeMap.getElem?_filter']
  cases ledger[key]? <;> cases p key <;> simp

theorem size_eq_count : ledger.size = ledger.count fun _ => true := by
  rw [count, List.countP_true, ExtTreeMap.length_keys]

theorem count_le_count {p q : Key → Bool} (h : ∀ key, p key = true → q key = true) :
    ledger.count p ≤ ledger.count q :=
  List.countP_mono_left fun key _ => h key

theorem held_le_size (client : String) : ledger.held client ≤ ledger.size := by
  rw [size_eq_count]
  apply count_le_count
  intro _ _
  rfl

theorem held_empty (client : String) : (∅ : Ledger).held client = 0 := by
  have none : (∅ : Ledger).held client ≤ (∅ : Ledger).size := held_le_size client
  rw [Std.ExtTreeMap.size_empty] at none
  omega

theorem count_eq_zero_iff {p : Key → Bool} :
    ledger.count p = 0 ↔ ∀ key ∈ ledger, p key = false := by
  simp [count, List.countP_eq_zero]

theorem getElem?_write (client : String) (sub : Subscription) (key : Key) :
    (ledger.write client sub)[key]? = if key = Key.of client sub then some sub else ledger[key]? := by
  by_cases h : key = Key.of client sub
  · simp [write, h]
  · simp [write, h, Ne.symm h, ExtTreeMap.getElem?_insert]

theorem mem_write {client : String} {sub : Subscription} {key : Key} :
    key ∈ ledger.write client sub ↔ key = Key.of client sub ∨ key ∈ ledger := by
  rw [write, ExtTreeMap.mem_insert, Std.LawfulEqCmp.compare_eq_iff_eq, eq_comm]

/-- Writing at a new key adds this key to every count that it belongs to. -/
theorem count_write_of_not_mem {client : String} {sub : Subscription}
    (fresh : Key.of client sub ∉ ledger) (p : Key → Bool) :
    (ledger.write client sub).count p = ledger.count p + if p (Key.of client sub) then 1 else 0 := by
  have nodup : (Key.of client sub :: ledger.keys).Nodup :=
    List.nodup_cons.mpr ⟨fun h => fresh (ExtTreeMap.mem_keys.mp h), ExtTreeMap.nodup_keys⟩
  have perm : (ledger.write client sub).keys.Perm (Key.of client sub :: ledger.keys) := by
    rw [List.perm_ext_iff_of_nodup ExtTreeMap.nodup_keys nodup]
    intro key
    rw [ExtTreeMap.mem_keys, mem_write, List.mem_cons, ExtTreeMap.mem_keys]
  rw [count, perm.countP_eq, List.countP_cons]
  rfl

/-- Writing at a key that is there changes no count. -/
theorem count_write_of_mem {client : String} {sub : Subscription}
    (there : Key.of client sub ∈ ledger) (p : Key → Bool) :
    (ledger.write client sub).count p = ledger.count p := by
  have perm : (ledger.write client sub).keys.Perm ledger.keys := by
    rw [List.perm_ext_iff_of_nodup ExtTreeMap.nodup_keys ExtTreeMap.nodup_keys]
    intro key
    rw [ExtTreeMap.mem_keys, mem_write, ExtTreeMap.mem_keys]
    constructor
    · rintro (rfl | h)
      · exact there
      · exact h
    · exact Or.inr
  rw [count, perm.countP_eq, count]

/-- What is counted is taken away or stays. -/
theorem count_without (p q : Key → Bool) :
    (ledger.without p).count q + ledger.count (fun key => p key && q key) = ledger.count q := by
  rw [without, count, ExtTreeMap.keys_filter_key, count, count]
  induction ledger.keys with
  | nil => rfl
  | cons key keys ih =>
    cases hp : p key <;> cases hq : q key <;> simp [hp, hq] <;> omega

theorem size_write_of_not_mem {client : String} {sub : Subscription}
    (fresh : Key.of client sub ∉ ledger) : (ledger.write client sub).size = ledger.size + 1 := by
  rw [size_eq_count, count_write_of_not_mem fresh, ← size_eq_count, if_pos rfl]

theorem size_write_of_mem {client : String} {sub : Subscription}
    (there : Key.of client sub ∈ ledger) : (ledger.write client sub).size = ledger.size := by
  rw [size_eq_count, count_write_of_mem there, ← size_eq_count]

theorem size_without_add (p : Key → Bool) :
    (ledger.without p).size + ledger.count p = ledger.size := by
  have kept : (ledger.without p).count (fun _ => true) +
      ledger.count (fun key => p key && true) = ledger.count fun _ => true :=
    count_without p fun _ => true
  simp only [Bool.and_true] at kept
  rw [size_eq_count, size_eq_count]
  exact kept

/-- Writing a fresh key gives its client one key more; no other client gains any. -/
theorem held_write_of_not_mem {client : String} {sub : Subscription}
    (fresh : Key.of client sub ∉ ledger) (c : String) :
    (ledger.write client sub).held c = ledger.held c + if c = client then 1 else 0 := by
  have own : (Key.of client sub).isOf c = true ↔ c = client := Key.isOf_iff.trans eq_comm
  rw [held, count_write_of_not_mem fresh, held]
  simp only [own]

theorem held_write_of_mem {client : String} {sub : Subscription}
    (there : Key.of client sub ∈ ledger) (c : String) :
    (ledger.write client sub).held c = ledger.held c :=
  count_write_of_mem there (Key.isOf c)

theorem held_without_le (p : Key → Bool) (c : String) :
    (ledger.without p).held c ≤ ledger.held c := by
  have kept : (ledger.without p).held c + _ = ledger.held c := count_without p (Key.isOf c)
  omega

/-- Keys that all belong to one client count for this client only. -/
theorem count_and_isOf {p : Key → Bool} {client : String}
    (own : ∀ key, p key = true → key.client = client) (c : String) :
    ledger.count (fun key => p key && key.isOf c) = if c = client then ledger.count p else 0 := by
  by_cases hc : c = client
  · rw [if_pos hc]
    apply congrArg ledger.count
    funext key
    cases hp : p key with
    | false => rfl
    | true => exact Key.isOf_iff.mpr ((own key hp).trans hc.symm)
  · rw [if_neg hc]
    apply count_eq_zero_iff.mpr
    intro key _
    cases hp : p key with
    | false => rfl
    | true =>
      have other : key.client ≠ c := fun h => hc (h.symm.trans (own key hp))
      simpa [Key.isOf] using other

/-- A released filter costs its client the keys under it, and no other client any. -/
theorem held_without_isUnder (client filter c : String) :
    (ledger.without (Key.isUnder client filter)).held c +
      (if c = client then ledger.count (Key.isUnder client filter) else 0) = ledger.held c := by
  have own : ∀ key : Key, key.isUnder client filter = true → key.client = client := by
    intro key h
    exact (Key.isUnder_iff.mp h).1
  have kept : (ledger.without (Key.isUnder client filter)).held c + _ = ledger.held c :=
    count_without (Key.isUnder client filter) (Key.isOf c)
  rw [count_and_isOf own] at kept
  exact kept

/-- A client that leaves loses its keys, and no other client any. -/
theorem held_without_isOf (client c : String) :
    (ledger.without (Key.isOf client)).held c = if c = client then 0 else ledger.held c := by
  have own : ∀ key : Key, key.isOf client = true → key.client = client := by
    intro key h
    exact Key.isOf_iff.mp h
  have kept : (ledger.without (Key.isOf client)).held c + _ = ledger.held c :=
    count_without (Key.isOf client) (Key.isOf c)
  rw [count_and_isOf own] at kept
  by_cases hc : c = client
  · subst hc
    rw [if_pos rfl] at kept ⊢
    have all : ledger.count (Key.isOf c) = ledger.held c := rfl
    omega
  · rw [if_neg hc] at kept ⊢
    omega

end Counting

end Ledger

end TopicRegistry
