import TopicRegistry.Proofs.Names

/-!
# Names as texts of the protocol

The protocol carries texts that are not too long and have no null character, and a name has to be
one of them as a whole, with its share prefix and its group. Of a shared subscription the registry
checks the filter for both and the group for neither. So it lets names through that no client could
have sent. Which ones they are is said exactly: without a share group all names are legal, and with
one it depends on the null characters of the group and on the size of the parts together.
-/

namespace TopicRegistry

/-- What the protocol asks of a name. -/
structure Topic.Legal (text : String) : Prop where
  filled : text ≠ ""
  bounded : text.utf8ByteSize ≤ maxBytes
  clean : '\x00' ∉ text.toList

namespace Target

/-- There is no share group, or it has no null character and leaves enough room for the filter. -/
def Fits (target : Target) : Prop :=
  target.share = "" ∨
    ('\x00' ∉ target.share.toList ∧
      Topic.sharePrefix.utf8ByteSize + target.share.utf8ByteSize + 1 +
        target.filter.utf8ByteSize ≤ Topic.maxBytes)

theorem utf8ByteSize_name_of_shared {target : Target} (grouped : target.share ≠ "") :
    target.name.utf8ByteSize =
      Topic.sharePrefix.utf8ByteSize + target.share.utf8ByteSize + 1 +
        target.filter.utf8ByteSize := by
  rw [name, if_neg grouped, String.utf8ByteSize_append, String.utf8ByteSize_append,
    String.utf8ByteSize_append]
  rfl

/-- Neither the share prefix nor a valid filter has a null character. -/
theorem null_mem_name_of_shared {target : Target} (grouped : target.share ≠ "")
    (clean : '\x00' ∉ target.filter.toList) :
    '\x00' ∈ target.name.toList ↔ '\x00' ∈ target.share.toList := by
  rw [toList_name_of_shared grouped, List.mem_append, List.mem_append, List.mem_cons]
  have prefixClean : '\x00' ∉ Topic.sharePrefix.toList := by decide
  have separatorClean : '\x00' ≠ Topic.separator := by decide
  simp [clean, prefixClean, separatorClean]

theorem name_ne_empty {target : Target} (aimed : target.filter ≠ "") : target.name ≠ "" := by
  by_cases alone : target.share = ""
  · rw [name_of_unshared alone]
    exact aimed
  · intro nothing
    have size := utf8ByteSize_name_of_shared alone
    rw [nothing, String.utf8ByteSize_empty] at size
    omega

/-- The name of a target with a valid filter is legal exactly if its share group fits. -/
theorem legal_name_iff {target : Target} (valid : TopicFilter.fault? target.filter = none) :
    Topic.Legal target.name ↔ target.Fits := by
  obtain ⟨aimed, bounded, clean, -⟩ := TopicFilter.fault?_eq_none_iff.mp valid
  by_cases alone : target.share = ""
  · have legal : Topic.Legal target.name := by
      rw [name_of_unshared alone]
      exact ⟨aimed, bounded, clean⟩
    exact ⟨fun _ => Or.inl alone, fun _ => legal⟩
  · have size := utf8ByteSize_name_of_shared alone
    have null := null_mem_name_of_shared alone clean
    constructor
    · intro legal
      exact Or.inr ⟨fun h => legal.clean (null.mpr h), size ▸ legal.bounded⟩
    · intro fits
      obtain ⟨groupClean, room⟩ := fits.resolve_left alone
      exact ⟨name_ne_empty aimed, size ▸ room, fun h => groupClean (null.mp h)⟩

end Target

namespace Registry

/-- A name that can be read, and the name of whatever is held at the end of a history, is not
empty; it is legal exactly if its share group fits. -/
theorem run_legal_iff_fits (config : Config) (operations : List Operation) :
    (∀ raw parsed, ParsedName.ofName raw = .ok parsed →
        raw ≠ "" ∧ (Topic.Legal raw ↔ parsed.Fits)) ∧
      let registry := (({ config } : Registry).run operations).2
      ∀ client, ∀ sub ∈ registry.ofClient client .all,
        sub.name ≠ "" ∧ (Topic.Legal sub.name ↔ sub.Fits) := by
  constructor
  · intro raw parsed read
    obtain ⟨⟨-, rfl⟩, valid, -⟩ := ParsedName.ofName_eq_ok_iff.mp read
    have aimed := (TopicFilter.fault?_eq_none_iff.mp valid).1
    exact ⟨Target.name_ne_empty aimed, Target.legal_name_iff valid⟩
  · intro registry client sub held
    have follows : Follows config registry (Ledger.run config operations).2 :=
      (follows_run config operations).2
    have valid := (proper_of_held follows ((mem_ofClient follows).mp held)).2
    have aimed := (TopicFilter.fault?_eq_none_iff.mp valid).1
    exact ⟨Target.name_ne_empty aimed, Target.legal_name_iff valid⟩

/-- A share group with a null character is read from a name that is not legal, and accepted. -/
theorem accepted_not_legal_nullGroup :
    ¬Topic.Legal "$share/g\x00/a" ∧
      (∃ parsed, ParsedName.ofName "$share/g\x00/a" = .ok parsed) ∧
      ∃ sub, Subscription.ofRequest { name := "$share/g\x00/a" } 0 = .ok sub ∧
        sub.name = "$share/g\x00/a" ∧
        sub ∈ (({} : Registry).run [.subscribe "ann" [sub]]).2.ofClient "ann" .all := by
  refine ⟨fun legal => legal.clean (by decide), ⟨_, rfl⟩, _, rfl, by decide, by decide⟩

end Registry

end TopicRegistry
