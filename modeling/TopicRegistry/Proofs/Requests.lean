import TopicRegistry.Proofs.Names

/-!
# Subscribing by name

A subscribed name can be read as a whole, or it is taken apart for a request and the registry judges
the filter that is left. Both take the same prefix off and ask the same of the filter, but a
registry wants no share prefix in it, since it keeps share groups apart from filters. So of one
share prefix in front of another only the first is taken off: the name can be read, and the
subscription is refused. All other names are either accepted both ways or not at all.
-/

namespace TopicRegistry

namespace Subscription

theorem exists_ofRequest {request : TopicRequest} (id : UInt32) {target : Target}
    (taken : Target.ofName request.name = .ok target) :
    ∃ sub, ofRequest request id = .ok sub ∧ sub.toTarget = target := by
  simp only [ofRequest, taken]
  exact ⟨_, rfl, rfl⟩

/-- A proper target with a valid filter conforms, as long as the filter has no share prefix. -/
theorem conforms_default_of_proper {sub : Subscription} (proper : sub.toTarget.Proper)
    (valid : TopicFilter.fault? sub.filter = none)
    (bare : ¬Topic.sharePrefix.toList <+: sub.filter.toList) : sub.Conforms {} := by
  refine conforms_default_iff.mpr ⟨valid, bare, ?_⟩
  cases proper with
  | unshared alone _ => exact Or.inl alone
  | shared group _ => exact Or.inr group

end Subscription

namespace Registry

/-- A fresh registry accepts the subscription that a client requests and goes on to the next one. -/
def Grants (client : String) (request : TopicRequest) (id : UInt32) (sub : Subscription)
    (next : Registry) : Prop :=
  Subscription.ofRequest request id = .ok sub ∧
    ∃ receipt, ({} : Registry).subscribeAll client [sub] = ([.ok receipt], next)

section Granting

variable {client : String} {request : TopicRequest} {id : UInt32} {sub : Subscription}
  {next : Registry}

/-- A fresh registry holds what it has accepted, and nothing else. -/
theorem ofClient_subscribe_fresh {receipt : Receipt}
    (accepted : (({} : Registry).subscribe client sub).1 = .ok receipt) :
    (({} : Registry).subscribe client sub).2.ofClient client .all = [sub] := by
  have follows := follows_subscribe (follows_empty {}) accepted
  have held : sub ∈ (({} : Registry).subscribe client sub).2.ofClient client .all := by
    rw [mem_ofClient follows, Ledger.getElem?_write, if_pos rfl]
  have one : ((({} : Registry).subscribe client sub).2.ofClient client .all).length = 1 := by
    rw [length_ofClient_of_follows follows, Ledger.held_write_of_not_mem (by simp), if_pos rfl,
      Ledger.held_empty]
  obtain ⟨only, whole⟩ := List.length_eq_one_iff.mp one
  rw [whole] at held ⊢
  rw [List.mem_singleton.mp held]

theorem grants_iff :
    Grants client request id sub next ↔
      Subscription.ofRequest request id = .ok sub ∧ sub.Conforms {} ∧
        next = (({} : Registry).subscribe client sub).2 := by
  rw [Grants, ← subscribe_fresh_iff client sub]
  refine and_congr_right fun _ => ?_
  constructor
  · rintro ⟨receipt, submitted⟩
    obtain ⟨answers, rfl⟩ := Prod.mk.inj submitted
    exact ⟨⟨receipt, (List.cons.inj answers).1⟩, rfl⟩
  · rintro ⟨⟨receipt, accepted⟩, rfl⟩
    exact ⟨receipt, Prod.ext (congrArg ([·]) accepted) rfl⟩

/-- What is granted has a name that can be read, as the target that is held, and its filter has no
share prefix. -/
theorem exists_read_of_grants (granted : Grants client request id sub next) :
    ∃ parsed, ParsedName.ofName request.name = .ok parsed ∧ parsed.toTarget = sub.toTarget ∧
      ¬Topic.sharePrefix.toList <+: sub.filter.toList := by
  obtain ⟨asked, conforms, -⟩ := grants_iff.mp granted
  have named := Target.ofName_eq_ok_iff.mp (Subscription.toTarget_of_ofRequest asked)
  let parsed : ParsedName := { sub.toTarget with levels := TopicFilter.split sub.filter }
  exact ⟨parsed, ParsedName.ofName_eq_ok_iff.mpr ⟨named, conforms.proper.2, rfl⟩, rfl, conforms.bare⟩

/-- What can be read is granted if its filter has no share prefix. -/
theorem exists_grants_of_read {parsed : ParsedName}
    (read : ParsedName.ofName request.name = .ok parsed)
    (bare : ¬Topic.sharePrefix.toList <+: parsed.filter.toList) :
    ∃ sub next, Grants client request id sub next := by
  obtain ⟨named, valid, -⟩ := ParsedName.ofName_eq_ok_iff.mp read
  obtain ⟨sub, asked, aimed⟩ :=
    Subscription.exists_ofRequest id (Target.ofName_eq_ok_iff.mpr named)
  have conforms : sub.Conforms {} := by
    apply Subscription.conforms_default_of_proper <;> rw [aimed]
    · exact named.1
    · exact valid
    · exact bare
  exact ⟨sub, _, grants_iff.mpr ⟨asked, conforms, rfl⟩⟩

end Granting

/-- A request is granted just if its name can be read and no share prefix is left in the filter,
whoever makes it and with whatever options; and then what is held has the share group and the
filter that are read. -/
theorem grants_iff_read (client : String) (request : TopicRequest) (id : UInt32) :
    ((∃ sub next, Grants client request id sub next) ↔
      ∃ parsed, ParsedName.ofName request.name = .ok parsed ∧
        ¬Topic.sharePrefix.toList <+: parsed.filter.toList) ∧
    ∀ parsed sub next, ParsedName.ofName request.name = .ok parsed →
      Grants client request id sub next →
        next.ofClient client .all = [sub] ∧ sub.share = parsed.share ∧
          sub.filter = parsed.filter := by
  refine ⟨⟨?_, ?_⟩, ?_⟩
  · rintro ⟨sub, next, granted⟩
    obtain ⟨parsed, read, aimed, bare⟩ := exists_read_of_grants granted
    exact ⟨parsed, read, by rwa [aimed]⟩
  · rintro ⟨parsed, read, bare⟩
    exact exists_grants_of_read read bare
  · intro parsed sub next read granted
    obtain ⟨other, readToo, aimed, -⟩ := exists_read_of_grants granted
    obtain rfl := Except.ok.inj (read.symm.trans readToo)
    obtain ⟨-, conforms, rfl⟩ := grants_iff.mp granted
    obtain ⟨receipt, accepted⟩ := (subscribe_fresh_iff client sub).mpr conforms
    exact ⟨ofClient_subscribe_fresh accepted, congrArg Target.share aimed.symm,
      congrArg Target.filter aimed.symm⟩

/-- Of two share prefixes, one in front of the other, the second is read as levels of the filter,
but no request for such a name is granted. -/
theorem read_not_granted_nestedPrefix :
    (∃ parsed, ParsedName.ofName "$share/g/$share/h/a" = .ok parsed) ∧
      ¬∃ client request id sub next,
        request.name = "$share/g/$share/h/a" ∧ Grants client request id sub next := by
  have read : ParsedName.ofName "$share/g/$share/h/a" =
      .ok ⟨⟨"g", "$share/h/a"⟩, [.literal "$share", .literal "h", .literal "a"]⟩ := by
    decide
  refine ⟨⟨_, read⟩, ?_⟩
  rintro ⟨client, request, id, sub, next, named, granted⟩
  obtain ⟨parsed, readToo, aimed, bare⟩ := exists_read_of_grants granted
  rw [named, read] at readToo
  cases readToo
  rw [← aimed] at bare
  exact bare (by decide)

end Registry

end TopicRegistry
