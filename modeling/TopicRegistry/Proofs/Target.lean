import Mathlib.Data.List.TakeWhile
import TopicRegistry.Subscription.Basic

/-!
# Targets and their names

`Target.ofName` takes a subscribed name apart and `Target.name` puts a target together. A target is
proper if its name can be taken apart again: a filter without a share group must not look as if it
had one, and in front of a share group the first separator after the prefix must be the one that
ends the group. Between names that can be taken apart and proper targets the two functions are
inverse to each other.
-/

namespace TopicRegistry

namespace Target

/-- What a target has to be like so that its name says what it is. -/
inductive Proper (target : Target) : Prop where
  | unshared (alone : target.share = "")
    (bare : ¬Topic.sharePrefix.toList <+: target.filter.toList)
  | shared (group : groupFault? target.share = none) (aimed : target.filter ≠ "")

theorem groupFault?_eq_none_iff {group : String} :
    groupFault? group = none ↔
      group ≠ "" ∧ Topic.separator ∉ group.toList ∧ '+' ∉ group.toList ∧ '#' ∉ group.toList := by
  rw [groupFault?, refuse_eq_none_iff, refuse_eq_none_iff, not_or, not_or]
  simp

theorem checkGroup_eq_ok_iff {group : String} :
    checkGroup group = .ok () ↔ groupFault? group = none := by
  rw [checkGroup]
  cases groupFault? group <;> simp

section Shared

variable {group filter : List Char}

theorem ofShared_of_not_mem {rest : List Char} (whole : Topic.separator ∉ rest) :
    ofShared rest = .error .missingFilter := by
  have before : ∀ c ∈ rest, decide (c ≠ Topic.separator) = true := by
    intro c hc
    exact decide_eq_true fun same => whole (same ▸ hc)
  rw [ofShared, List.dropWhile_eq_nil_iff.mpr before]

/-- The first separator ends the group. -/
theorem ofShared_append (inside : Topic.separator ∉ group) :
    ofShared (group ++ Topic.separator :: filter) =
      if (groupFault? (String.ofList group)).isSome then .error .badShareGroup
      else if filter.isEmpty then .error .missingFilter
      else .ok ⟨String.ofList group, String.ofList filter⟩ := by
  have before : ∀ c ∈ group, decide (c ≠ Topic.separator) = true := by
    intro c hc
    exact decide_eq_true fun same => inside (same ▸ hc)
  rw [ofShared, List.takeWhile_append_of_pos before, List.dropWhile_append_of_pos before,
    List.takeWhile_cons_of_neg (by simp), List.dropWhile_cons_of_neg (by simp), List.append_nil]

/-- What follows the share prefix is a group, a separator and a filter. -/
theorem ofShared_eq_ok_iff {rest : List Char} {target : Target} :
    ofShared rest = .ok target ↔
      groupFault? target.share = none ∧ target.filter ≠ "" ∧
        rest = target.share.toList ++ Topic.separator :: target.filter.toList := by
  constructor
  · intro taken
    by_cases cut : Topic.separator ∈ rest
    · obtain ⟨group, filter, rfl, inside⟩ := List.eq_append_cons_of_mem cut
      rw [ofShared_append inside] at taken
      split at taken
      · cases taken
      · next fits =>
        split at taken
        · cases taken
        · next aimed =>
          cases taken
          exact ⟨by simpa using fits, by simpa using aimed, by simp⟩
    · rw [ofShared_of_not_mem cut] at taken
      cases taken
  · rintro ⟨fits, aimed, rfl⟩
    obtain ⟨-, inside, -⟩ := groupFault?_eq_none_iff.mp fits
    rw [ofShared_append inside]
    simp [fits, aimed]

theorem isShared_of_ofShared {rest : List Char} {target : Target}
    (taken : ofShared rest = .ok target) : target.isShared = true := by
  have fits := (ofShared_eq_ok_iff.mp taken).1
  exact decide_eq_true (groupFault?_eq_none_iff.mp fits).1

end Shared

theorem name_of_unshared {target : Target} (alone : target.share = "") :
    target.name = target.filter := by
  rw [name, if_pos alone]

theorem toList_name_of_shared {target : Target} (grouped : target.share ≠ "") :
    target.name.toList = Topic.sharePrefix.toList ++
      (target.share.toList ++ Topic.separator :: target.filter.toList) := by
  rw [name, if_neg grouped]
  simp [Topic.separator]

/-- To take a name apart is to find the proper target that has it. -/
theorem ofName_eq_ok_iff {raw : String} {target : Target} :
    ofName raw = .ok target ↔ target.Proper ∧ target.name = raw := by
  rw [ofName]
  constructor
  · intro taken
    split at taken
    · next prefixed =>
      split at taken
      · cases taken
      · next shared found =>
        cases taken
        obtain ⟨fits, aimed, rest⟩ := ofShared_eq_ok_iff.mp found
        refine ⟨.shared fits aimed, String.toList_injective ?_⟩
        rw [toList_name_of_shared (groupFault?_eq_none_iff.mp fits).1, ← rest]
        exact List.prefix_iff_eq_append.mp (List.isPrefixOf_iff_prefix.mp prefixed)
    · next bare =>
      cases taken
      rw [List.isPrefixOf_iff_prefix] at bare
      exact ⟨.unshared rfl bare, name_of_unshared rfl⟩
  · rintro ⟨proper, rfl⟩
    cases proper with
    | unshared alone bare =>
      rw [name_of_unshared alone, if_neg (mt List.isPrefixOf_iff_prefix.mp bare), ← alone]
    | shared fits aimed =>
      have chars := toList_name_of_shared (groupFault?_eq_none_iff.mp fits).1
      have prefixed : Topic.sharePrefix.toList <+: target.name.toList := ⟨_, chars.symm⟩
      have rest : target.name.toList.drop Topic.sharePrefix.length =
          target.share.toList ++ Topic.separator :: target.filter.toList := by
        rw [chars]
        exact List.drop_left
      rw [if_pos (List.isPrefixOf_iff_prefix.mpr prefixed), rest,
        ofShared_eq_ok_iff.mpr ⟨fits, aimed, rfl⟩]

/-- Proper targets that have the same name are the same. -/
theorem eq_of_name_eq {target other : Target} (proper : target.Proper) (properOther : other.Proper)
    (same : target.name = other.name) : target = other := by
  have taken := ofName_eq_ok_iff.mpr ⟨proper, same⟩
  rw [ofName_eq_ok_iff.mpr ⟨properOther, rfl⟩] at taken
  exact (Except.ok.inj taken).symm

end Target

/-- To read a name is to find the proper target that has it, if its filter is valid. -/
theorem ParsedName.ofName_eq_ok_iff {raw : String} {parsed : ParsedName} :
    ofName raw = .ok parsed ↔
      (parsed.toTarget.Proper ∧ parsed.name = raw) ∧
        TopicFilter.fault? parsed.filter = none ∧ parsed.levels = TopicFilter.split parsed.filter := by
  rw [← Target.ofName_eq_ok_iff, ← TopicFilter.levels_eq_ok_iff]
  constructor
  · intro read
    have taken := ofName_toTarget read
    rw [ofName, taken] at read
    refine ⟨taken, ?_⟩
    cases valid : TopicFilter.levels parsed.filter with
    | error e => simp [valid] at read
    | ok levels =>
      simp only [valid] at read
      rw [← Except.ok.inj read]
  · rintro ⟨taken, valid⟩
    rw [ofName, taken]
    simp only [valid]

namespace Subscription

variable {request : TopicRequest} {id : UInt32} {sub : Subscription}

/-- A request is aimed at the target that its name is taken apart into. -/
theorem toTarget_of_ofRequest (read : ofRequest request id = .ok sub) :
    Target.ofName request.name = .ok sub.toTarget := by
  rw [ofRequest] at read
  split at read
  · cases read
  · next target taken =>
    cases read
    exact taken

/-- A subscription that is read from a request has the name of the request. -/
theorem name_of_ofRequest (read : ofRequest request id = .ok sub) : sub.name = request.name :=
  (Target.ofName_eq_ok_iff.mp (toTarget_of_ofRequest read)).2

end Subscription

end TopicRegistry
