import TopicRegistry.Proofs.Ledger.Sound
import TopicRegistry.Proofs.Levels
import TopicRegistry.Proofs.Target

/-!
# Entries that conform

An entry is judged by a row of refusals, each with a reason of its own, before the quota of its
client is looked at. `Conforms` names the conditions that an entry has to meet, in terms of its
texts and of the switches and limits of the configuration. An entry gets past the row exactly when
it meets them, and none of the reasons in the row is that of the quota.
-/

namespace TopicRegistry

/-- What an entry has to be like under a configuration, whoever submits it. -/
structure Subscription.Conforms (config : Config) (sub : Subscription) : Prop where
  /-- The filter is valid. -/
  valid : ∃ levels, TopicFilter.levels sub.filter = .ok levels
  /-- The filter has no share prefix. -/
  bare : ¬Topic.sharePrefix.toList <+: sub.filter.toList
  /-- The share group is absent or may be one. -/
  group : sub.share = "" ∨ Target.checkGroup sub.share = .ok ()
  /-- The filter is not too deep. -/
  depth : config.maxLevels = 0 ∨ (Topic.segments sub.filter).length ≤ config.maxLevels.toNat
  /-- There is no share group, or share groups are allowed. -/
  sharing : sub.share = "" ∨ config.sharedAvailable = true
  /-- No level is a wildcard, or wildcards are allowed. -/
  wildcards : (∀ level ∈ Topic.segments sub.filter,
    level ≠ Topic.singleWildcard ∧ level ≠ Topic.multiWildcard) ∨ config.wildcardAvailable = true
  /-- There is no identifier, or identifiers are allowed. -/
  identifier : sub.id = Subscription.noIdentifier ∨ config.identifierAvailable = true

/-- Where nothing is limited or switched off, only the texts of an entry matter. -/
theorem Subscription.conforms_default_iff {sub : Subscription} :
    sub.Conforms {} ↔ TopicFilter.fault? sub.filter = none ∧
      ¬Topic.sharePrefix.toList <+: sub.filter.toList ∧
        (sub.share = "" ∨ Target.groupFault? sub.share = none) := by
  constructor
  · intro conforms
    obtain ⟨levels, read⟩ := conforms.valid
    exact ⟨(TopicFilter.levels_eq_ok_iff.mp read).1, conforms.bare,
      conforms.group.imp_right Target.checkGroup_eq_ok_iff.mp⟩
  · rintro ⟨valid, bare, group⟩
    exact
      { valid := ⟨_, TopicFilter.levels_eq_ok_iff.mpr ⟨valid, rfl⟩⟩
        bare
        group := group.imp_right Target.checkGroup_eq_ok_iff.mpr
        depth := Or.inl rfl
        sharing := Or.inr rfl
        wildcards := Or.inr rfl
        identifier := Or.inr rfl }

namespace Registry

variable {config : Config} {sub : Subscription}

theorem filterRefusal?_eq_none_iff :
    filterRefusal? sub = none ↔ ∃ levels, TopicFilter.levels sub.filter = .ok levels := by
  simp [filterRefusal?, TopicFilter.levels_eq_ok_iff]

/-- Any share prefix in a filter is refused, well formed or not. -/
theorem prefixRefusal?_eq_none_iff :
    prefixRefusal? sub = none ↔ ¬Topic.sharePrefix.toList <+: sub.filter.toList := by
  rw [prefixRefusal?, Target.ofName, ← List.isPrefixOf_iff_prefix]
  by_cases prefixed : Topic.sharePrefix.toList.isPrefixOf sub.filter.toList = true
  · simp only [prefixed, if_true, not_true_eq_false, iff_false]
    cases taken : Target.ofShared (sub.filter.toList.drop Topic.sharePrefix.length) with
    | error fault => simp
    | ok target => simp [Target.isShared_of_ofShared taken]
  · simp [prefixed, Target.isShared]

theorem groupRefusal?_eq_none_iff :
    groupRefusal? sub = none ↔ sub.share = "" ∨ Target.checkGroup sub.share = .ok () := by
  rw [groupRefusal?, Target.checkGroup, Target.isShared]
  by_cases unshared : sub.share = ""
  · simp [unshared]
  · cases Target.groupFault? sub.share <;> simp [unshared]

theorem depthRefusal?_eq_none_iff :
    depthRefusal? config sub = none ↔
      config.maxLevels = 0 ∨ (Topic.segments sub.filter).length ≤ config.maxLevels.toNat := by
  have unlimited : 0 < config.maxLevels ↔ config.maxLevels ≠ 0 := UInt64.pos_iff_ne_zero
  rw [depthRefusal?, TopicFilter.split, List.length_map, refuse_eq_none_iff]
  simp only [unlimited, and_true, not_and, Nat.not_lt, Decidable.or_iff_not_imp_left]

theorem capabilityRefusal?_eq_none_iff :
    capabilityRefusal? config sub = none ↔
      (sub.share = "" ∨ config.sharedAvailable = true) ∧
      ((∀ level ∈ Topic.segments sub.filter,
          level ≠ Topic.singleWildcard ∧ level ≠ Topic.multiWildcard) ∨
        config.wildcardAvailable = true) ∧
      (sub.id = Subscription.noIdentifier ∨ config.identifierAvailable = true) := by
  have literal : (TopicFilter.split sub.filter).any Level.isWildcard = false ↔
      ∀ level ∈ Topic.segments sub.filter,
        level ≠ Topic.singleWildcard ∧ level ≠ Topic.multiWildcard := by
    simp only [TopicFilter.split, List.any_map, List.any_eq_false, Function.comp_apply,
      Level.isWildcard_ofText_iff, not_or]
  rw [← literal, capabilityRefusal?, refuse_eq_none_iff, refuse_eq_none_iff, refuse_eq_none_iff]
  refine and_congr ?_ (and_congr ?_ ?_)
  · simp [Target.isShared, Decidable.or_iff_not_imp_left]
  · simp [Decidable.or_iff_not_imp_right]
  · simp [Subscription.hasIdentifier, Decidable.or_iff_not_imp_left]

end Registry

namespace Ledger

variable {config : Config} {sub : Subscription}

/-- An entry is not refused for its own sake exactly when it conforms. -/
theorem entryRefusal?_eq_none_iff : entryRefusal? config sub = none ↔ sub.Conforms config := by
  rw [entryRefusal?]
  simp only [Option.orElse_eq_orElse, Option.orElse_eq_or, Option.or_eq_none_iff]
  rw [Registry.filterRefusal?_eq_none_iff, Registry.prefixRefusal?_eq_none_iff,
    Registry.groupRefusal?_eq_none_iff, Registry.depthRefusal?_eq_none_iff,
    Registry.capabilityRefusal?_eq_none_iff]
  constructor
  · rintro ⟨valid, bare, group, depth, sharing, wildcards, identifier⟩
    exact ⟨valid, bare, group, depth, sharing, wildcards, identifier⟩
  · rintro ⟨valid, bare, group, depth, sharing, wildcards, identifier⟩
    exact ⟨valid, bare, group, depth, sharing, wildcards, identifier⟩

/-- No entry is refused for its own sake with the reason of the quota. -/
theorem entryRefusal?_ne_quotaExceeded (client : String) (max : UInt64) :
    entryRefusal? config sub ≠ some (.quotaExceeded client max) := by
  intro refused
  rw [entryRefusal?] at refused
  simp only [Option.orElse_eq_orElse, Option.orElse_eq_or, Option.or_eq_some_iff] at refused
  rcases refused with h | ⟨-, h | ⟨-, h | ⟨-, h | ⟨-, h⟩⟩⟩⟩
  · simp [Registry.filterRefusal?, TopicFilter.Fault.on] at h
  · rw [Registry.prefixRefusal?] at h
    split at h
    · next taken =>
      obtain ⟨detail, rfl⟩ := Target.invalidFilter_of_ofName taken
      cases h
    · split at h <;> cases h
  · rw [Registry.groupRefusal?] at h
    split at h
    · simp [TopicFilter.Fault.on] at h
    · cases h
  · rw [Registry.depthRefusal?] at h
    split at h <;> cases h
  · rw [Registry.capabilityRefusal?] at h
    split at h
    · cases h
    · split at h
      · cases h
      · split at h <;> cases h

end Ledger

end TopicRegistry
