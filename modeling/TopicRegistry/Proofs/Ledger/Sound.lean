import TopicRegistry.Proofs.Ledger.Basic

/-!
# What every ledger keeps

A ledger holds no subscription that would be refused for its own sake, and no client has more
keys than the configuration allows. Only a write can break either, and it writes what was judged;
what is taken away breaks neither.
-/

namespace TopicRegistry.Ledger

/-- No subscription is refused for its own sake, and no client has too many keys. -/
structure Sound (config : Config) (ledger : Ledger) : Prop where
  admitted : ∀ (key : Key) sub, ledger[key]? = some sub → entryRefusal? config sub = none
  bounded : 0 < config.maxSubscriptions →
    ∀ client, ledger.held client ≤ config.maxSubscriptions.toNat

variable {config : Config} {ledger : Ledger}

theorem sound_empty : Sound config ∅ where
  admitted key sub h := by simp at h
  bounded _ client := by
    rw [held_empty]
    exact Nat.zero_le _

/-- An entry is not refused if neither the entry nor the quota speaks against it. -/
theorem refusal?_eq_none_iff {client : String} {sub : Subscription} :
    ledger.refusal? config client sub = none ↔
      entryRefusal? config sub = none ∧ ledger.quotaRefusal? config client sub = none := by
  rw [refusal?]
  cases entryRefusal? config sub <;> simp

theorem quotaRefusal?_eq_none_iff {client : String} {sub : Subscription} :
    ledger.quotaRefusal? config client sub = none ↔
      (0 < config.maxSubscriptions → Key.of client sub ∉ ledger →
        ledger.held client < config.maxSubscriptions.toNat) := by
  simp only [quotaRefusal?, ite_eq_right_iff, reduceCtorEq, imp_false]
  constructor
  · intro h limited fresh
    exact Nat.lt_of_not_le fun full => h ⟨limited, fresh, full⟩
  · rintro h ⟨limited, fresh, full⟩
    exact Nat.not_lt_of_le full (h limited fresh)

theorem sound_write (sound : Sound config ledger) {client : String} {sub : Subscription}
    (accepted : ledger.refusal? config client sub = none) :
    Sound config (ledger.write client sub) where
  admitted key s h := by
    obtain ⟨entry, -⟩ := refusal?_eq_none_iff.mp accepted
    rw [getElem?_write] at h
    split at h
    · cases h
      exact entry
    · exact sound.admitted key s h
  bounded limited c := by
    have held := sound.bounded limited c
    by_cases there : Key.of client sub ∈ ledger
    · rw [held_write_of_mem there]
      exact held
    · obtain ⟨-, quota⟩ := refusal?_eq_none_iff.mp accepted
      have room := quotaRefusal?_eq_none_iff.mp quota limited there
      rw [held_write_of_not_mem there]
      split
      · next h =>
        rw [h]
        exact room
      · exact held

theorem sound_without (sound : Sound config ledger) (p : Key → Bool) :
    Sound config (ledger.without p) where
  admitted key s h := by
    rw [getElem?_without] at h
    split at h
    · cases h
    · exact sound.admitted key s h
  bounded limited c := Nat.le_trans (held_without_le p c) (sound.bounded limited c)

end TopicRegistry.Ledger
