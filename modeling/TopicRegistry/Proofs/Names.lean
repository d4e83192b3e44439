import TopicRegistry.Proofs.AccessPaths
import TopicRegistry.Proofs.Admission
import TopicRegistry.Proofs.Target

/-!
# The names of what is held

What a registry accepts has a proper target, since it refuses any share prefix in a filter and
checks share groups on their own. So the name of a held subscription can be read again, into the
filter and the share group that it is held under, and asking for this name finds just what all
clients hold under the two.
-/

namespace TopicRegistry

/-- What conforms has a proper target and a valid filter, whatever the configuration is. -/
theorem Subscription.Conforms.proper {config : Config} {sub : Subscription}
    (conforms : sub.Conforms config) :
    sub.toTarget.Proper ∧ TopicFilter.fault? sub.filter = none := by
  obtain ⟨levels, read⟩ := conforms.valid
  have valid := (TopicFilter.levels_eq_ok_iff.mp read).1
  refine ⟨?_, valid⟩
  by_cases alone : sub.share = ""
  · exact .unshared alone conforms.bare
  · have group := conforms.group.resolve_left alone
    exact .shared (Target.checkGroup_eq_ok_iff.mp group) (TopicFilter.fault?_eq_none_iff.mp valid).1

namespace Registry

section Reading

variable {config : Config} {registry : Registry} {ledger : Ledger} {sub : Subscription}

/-- What is held has a proper target and a valid filter. -/
theorem proper_of_held (follows : Follows config registry ledger) {client : String}
    (held : ledger[Key.of client sub]? = some sub) :
    sub.toTarget.Proper ∧ TopicFilter.fault? sub.filter = none := by
  have admitted := follows.sound.admitted _ sub held
  exact (Ledger.entryRefusal?_eq_none_iff.mp admitted).proper

/-- Asking for a target finds what each client holds under it, and no other client. -/
theorem named_lists (follows : Follows config registry ledger) {name : String} {target : Target}
    (read : Subject.ofText name .exactName = .ok (.exactName target)) :
    ∃ grouped, registry.named name .all = .ok grouped ∧ ∀ client,
      (grouped[client]?.getD []).Perm
        ((registry.ofClient client .all).filter fun other => other.toTarget = target) ∧
      grouped[client]? ≠ some [] := by
  have answered : registry.named name .all =
      .ok ((KindMask.all.admitted
        (registry.index.reached none (some (.exactName target)))).foldl ByClient.push ∅) := by
    rw [named, grouped_text, read]
    rfl
  refine ⟨_, answered, ?_⟩
  intro client
  obtain ⟨listed, occupied⟩ := group_perm
    (KindMask.all.admitted (registry.index.reached none (some (.exactName target)))) client
  refine ⟨listed.trans ?_, occupied⟩
  -- The map of the filter is read here, the record of the client in `ofClient`.
  have own := (selected_client_perm follows .all (Subject.plain_of_ofText read) client).map Prod.snd
  refine own.symm.trans ?_
  rw [ofClient_eq, KindMask.admitted_all, KindMask.admitted_all, List.filter_reverse,
    List.filter_map]
  exact (List.reverse_perm _).symm

end Reading

/-- What the name of a held subscription tells about it, and a registry about the name. The ledger
says what is held. -/
structure Identified (registry : Registry) (ledger : Ledger) (sub : Subscription) : Prop where
  /-- The name is read as the target of the subscription, with the levels of its filter. -/
  read : ∃ parsed, ParsedName.ofName sub.name = .ok parsed ∧
    parsed.share = sub.share ∧ parsed.filter = sub.filter ∧
    parsed.levels.map Level.text = Topic.segments sub.filter ∧ parsed.isShared = sub.isShared
  /-- No other filter and share group under which something is held have the same name. -/
  apart : ∀ client other, ledger[Key.of client other]? = some other →
    other.name = sub.name → other.toTarget = sub.toTarget
  /-- Asking for the name finds what each client holds under the filter and the share group. -/
  found : ∃ grouped, registry.named sub.name .all = .ok grouped ∧ ∀ client,
    (grouped[client]?.getD []).Perm
      (((ledger.toList.filter fun entry => entry.1.client = client).map Prod.snd).filter
        fun other => other.toTarget = sub.toTarget) ∧
    grouped[client]? ≠ some []

/-- A subscription that was read from a name has this name, and what is held at the end of a
history is identified by its name. What is held is in the ledger, and each client is told its own
part of it. -/
theorem run_identifies (config : Config) (operations : List Operation) :
    (∀ request id sub, Subscription.ofRequest request id = .ok sub → sub.name = request.name) ∧
      let registry := (({ config } : Registry).run operations).2
      let ledger := (Ledger.run config operations).2
      (∀ client sub, ledger[Key.of client sub]? = some sub → registry.Identified ledger sub) ∧
        ∀ client,
          (∀ sub, sub ∈ registry.ofClient client .all ↔ ledger[Key.of client sub]? = some sub) ∧
          (registry.ofClient client .all).Perm
            ((ledger.toList.filter fun entry => entry.1.client = client).map Prod.snd) := by
  refine ⟨fun _ _ _ => Subscription.name_of_ofRequest, ?_⟩
  intro registry ledger
  have follows : Follows config registry ledger := (follows_run config operations).2
  refine ⟨?_, fun client => ⟨fun _ => mem_ofClient follows, ofClient_of_follows follows client⟩⟩
  intro client sub held
  obtain ⟨proper, valid⟩ := proper_of_held follows held
  let parsed : ParsedName := { sub.toTarget with levels := TopicFilter.split sub.filter }
  have read : ParsedName.ofName sub.name = .ok parsed :=
    ParsedName.ofName_eq_ok_iff.mpr ⟨⟨proper, rfl⟩, valid, rfl⟩
  refine { read := ⟨parsed, read, rfl, rfl, ?levels, rfl⟩, apart := ?apart, found := ?found }
  case levels => exact TopicFilter.map_text_split sub.filter
  case apart =>
    intro owner other heldToo same
    exact Target.eq_of_name_eq (proper_of_held follows heldToo).1 proper same
  case found =>
    have asked : Subject.ofText sub.name .exactName = .ok (.exactName sub.toTarget) := by
      rw [Subject.ofText, read]
    obtain ⟨grouped, answered, lists⟩ := named_lists follows asked
    refine ⟨grouped, answered, fun owner => ⟨(lists owner).1.trans ?_, (lists owner).2⟩⟩
    exact (ofClient_of_follows follows owner).filter _

end Registry

end TopicRegistry
