import TopicRegistry.Proofs.Accounts
import TopicRegistry.Proofs.Batches
import TopicRegistry.Proofs.Ledger.Admission

/-!
# Who is let in

Whether an entry is accepted depends on the entry, on the configuration and on how much its client
holds when the entry is reached, which may be in the middle of a batch. `Judged` says exactly when:
the entry conforms and there is room for it. A key that is held already needs no room. It follows
that whatever is held conforms and that no client holds more than it may.
-/

namespace TopicRegistry.Registry

/-- A client holds a subscription with the filter and the share group of another one. -/
def HasKey (registry : Registry) (client : String) (sub : Subscription) : Prop :=
  ∃ held ∈ registry.ofClient client .all, held.toTarget = sub.toTarget

/-- The limit of a configuration leaves room for a subscription of a client. -/
def HasRoom (config : Config) (registry : Registry) (client : String) (sub : Subscription) :
    Prop :=
  config.maxSubscriptions = 0 ∨ registry.HasKey client sub ∨
    (registry.ofClient client .all).length < config.maxSubscriptions.toNat

/-- What the answer to an entry of a client has to be when the registry comes to it. -/
structure Judged (config : Config) (registry : Registry) (client : String) (sub : Subscription)
    (answer : Except RegistryError Receipt) : Prop where
  /-- The entry is accepted just when it conforms and there is room for it. -/
  accepted : (∃ receipt, answer = .ok receipt) ↔
    sub.Conforms config ∧ HasRoom config registry client sub
  /-- An entry for a key that is held is not refused because of the quota. -/
  replacing : registry.HasKey client sub → ∀ c max, answer ≠ .error (.quotaExceeded c max)

section Judging

variable {config : Config} {registry : Registry} {ledger : Ledger} {client : String}
  {sub : Subscription}

theorem subscribe_eq_ok_iff :
    (∃ receipt, (registry.subscribe client sub).1 = .ok receipt) ↔
      registry.refusal? client sub = none := by
  rw [subscribe]
  cases registry.refusal? client sub <;> simp

theorem subscribe_eq_error_iff {e : RegistryError} :
    (registry.subscribe client sub).1 = .error e ↔ registry.refusal? client sub = some e := by
  rw [subscribe]
  cases registry.refusal? client sub <;> simp

theorem mem_ofClient (follows : Follows config registry ledger) :
    sub ∈ registry.ofClient client .all ↔ ledger[Key.of client sub]? = some sub := by
  rw [ofClient_eq, KindMask.admitted_all, List.mem_reverse, List.mem_map,
    ← Index.holds_iff_of_shows follows.shows]
  constructor
  · rintro ⟨⟨c, s⟩, hentry, rfl⟩
    obtain ⟨rfl, holds⟩ := (Index.mem_holdingsOf follows.consistent).mp hentry
    exact holds
  · intro holds
    exact ⟨(client, sub), (Index.mem_holdingsOf follows.consistent).mpr ⟨rfl, holds⟩, rfl⟩

/-- The keys of the ledger are those of the subscriptions that the clients are told. -/
theorem hasKey_iff (follows : Follows config registry ledger) :
    registry.HasKey client sub ↔ Key.of client sub ∈ ledger := by
  constructor
  · rintro ⟨held, hheld, same⟩
    have key : Key.of client held = Key.of client sub := by
      rw [Key.of, Key.of, same]
    rw [Std.ExtTreeMap.mem_iff_isSome_getElem?, ← key, (mem_ofClient follows).mp hheld]
    rfl
  · intro there
    obtain ⟨held, hheld⟩ :=
      Option.isSome_iff_exists.mp (Std.ExtTreeMap.mem_iff_isSome_getElem?.mp there)
    have key : Key.of client sub = Key.of client held :=
      Index.keyed_of_shows follows.consistent follows.shows _ held hheld
    obtain ⟨-, hfilter, hshare⟩ := Key.mk.inj key
    exact ⟨held, (mem_ofClient follows).mpr (key ▸ hheld),
      congrArg₂ Target.mk hshare.symm hfilter.symm⟩

/-- The quota does not speak against an entry exactly when there is room for it. -/
theorem quotaRefusal?_eq_none_iff (follows : Follows config registry ledger) :
    ledger.quotaRefusal? config client sub = none ↔ HasRoom config registry client sub := by
  have limited : 0 < config.maxSubscriptions ↔ config.maxSubscriptions ≠ 0 :=
    UInt64.pos_iff_ne_zero
  rw [Ledger.quotaRefusal?_eq_none_iff, HasRoom, hasKey_iff follows,
    length_ofClient_of_follows follows, limited, Decidable.or_iff_not_imp_left,
    Decidable.or_iff_not_imp_left]

/-- A registry judges each entry as it should. -/
theorem judged_subscribe (follows : Follows config registry ledger) (client : String)
    (sub : Subscription) :
    Judged config registry client sub (registry.subscribe client sub).1 where
  accepted := by
    rw [subscribe_eq_ok_iff, refusal?_eq follows, Ledger.refusal?_eq_none_iff,
      Ledger.entryRefusal?_eq_none_iff, quotaRefusal?_eq_none_iff follows]
  replacing there c max refused := by
    have room : ledger.quotaRefusal? config client sub = none :=
      (quotaRefusal?_eq_none_iff follows).mpr (Or.inr (Or.inl there))
    rw [subscribe_eq_error_iff, refusal?_eq follows, Ledger.refusal?, room] at refused
    apply Ledger.entryRefusal?_ne_quotaExceeded c max
    simpa using refused

/-- There is always room in a fresh registry without a quota. -/
theorem subscribe_fresh_iff (client : String) (sub : Subscription) :
    (∃ receipt, (({} : Registry).subscribe client sub).1 = .ok receipt) ↔ sub.Conforms {} := by
  rw [(judged_subscribe (follows_empty {}) client sub).accepted]
  exact and_iff_left (Or.inl rfl)

/-- What is accepted is written, and nothing else is changed. -/
theorem follows_subscribe (follows : Follows config registry ledger) {receipt : Receipt}
    (accepted : (registry.subscribe client sub).1 = .ok receipt) :
    Follows config (registry.subscribe client sub).2 (ledger.write client sub) := by
  have admitted := subscribe_eq_ok_iff.mp ⟨receipt, accepted⟩
  rw [subscribe, admitted]
  rw [refusal?_eq follows] at admitted
  exact follows_insert follows admitted

end Judging

/-- Whatever the clients did before, an entry is accepted just when it conforms and there is room
for it, also in the middle of a batch; so what is held conforms, and no client holds too much. -/
theorem run_admits (config : Config) (operations : List Operation) :
    let registry := (({ config } : Registry).run operations).2
    (∀ client before sub after, ∃ answer,
      (registry.subscribeAll client (before ++ sub :: after)).1[before.length]? = some answer ∧
        Judged config (registry.subscribeAll client before).2 client sub answer) ∧
      (∀ client, ∀ sub ∈ registry.ofClient client .all, sub.Conforms config) ∧
      (config.maxSubscriptions = 0 ∨ ∀ client,
        (registry.ofClient client .all).length ≤ config.maxSubscriptions.toNat) := by
  intro registry
  have follows : Follows config registry (Ledger.run config operations).2 :=
    (follows_run config operations).2
  refine ⟨?_, ?_, ?_⟩
  · intro client before sub after
    refine ⟨_, getElem?_subscribeAll registry client before sub after, ?_⟩
    -- The state in the middle of a batch is the one after a history that ends with its beginning.
    have between := (follows_run config (operations ++ [.subscribe client before])).2
    rw [run_append] at between
    exact judged_subscribe between client sub
  · intro client sub hsub
    have held := (mem_ofClient follows).mp hsub
    exact Ledger.entryRefusal?_eq_none_iff.mp (follows.sound.admitted _ sub held)
  · rw [Decidable.or_iff_not_imp_left]
    intro limited client
    rw [length_ofClient_of_follows follows]
    exact follows.sound.bounded (UInt64.pos_iff_ne_zero.mpr limited) client

end TopicRegistry.Registry
