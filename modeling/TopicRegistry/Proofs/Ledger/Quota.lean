import Mathlib.Algebra.Order.BigOperators.Group.List
import Mathlib.Algebra.Order.Group.Nat
import TopicRegistry.Proofs.Ledger.Sound

/-!
# Two quotas

Two ledgers take the same steps under configurations of which one has the larger quota. That the
tighter ledger is contained in the looser one is not kept by a step on its own: the looser ledger
also holds what the tighter one has refused, and nothing yet excludes that it is full where the
tighter one has room. So `Contained` bounds the surplus of every client, too. It grows only where
the tighter ledger is full, and there it stays within the difference of the two quotas.
-/

namespace TopicRegistry

/-- The two configurations differ in nothing but the quota, and the second has the larger one, no
quota at all being the largest. -/
structure Config.Raised (tight loose : Config) : Prop where
  otherwise : loose = { tight with maxSubscriptions := loose.maxSubscriptions }
  larger : loose.maxSubscriptions = 0 ∨
    (tight.maxSubscriptions ≠ 0 ∧ tight.maxSubscriptions ≤ loose.maxSubscriptions)

section Comparing

/-- Where the first judgement accepts an entry, the second does, and finds its key held if the
first one does. -/
def Concedes (less more : Except RegistryError Receipt) : Prop :=
  ∀ receipt, less = .ok receipt → ∃ other, more = .ok other ∧
    other.subscription = receipt.subscription ∧ (receipt.alreadyExisted → other.alreadyExisted)

/-- The first outcome accepts and removes no more than the second. -/
def Outcome.Within : Outcome → Outcome → Prop
  | judged less, judged more => Concedes less more
  | removed less, removed more => less ≤ more
  | _, _ => False

/-- The first answer accepts, entry by entry, and removes no more than the second. -/
def Answer.Within : Answer → Answer → Prop
  | receipts less, receipts more => List.Forall₂ Concedes less more
  | removed less, removed more => less ≤ more
  | _, _ => False

theorem concedes_of_error (e : RegistryError) (more : Except RegistryError Receipt) :
    Concedes (.error e) more := by
  intro receipt accepted
  cases accepted

theorem Outcome.judgements_within {less more : List Outcome}
    (within : List.Forall₂ Outcome.Within less more) :
    List.Forall₂ Concedes (less.filterMap judgement?) (more.filterMap judgement?) := by
  refine List.rel_filterMap ?_ within
  intro one other compared
  cases one <;> cases other
  case judged.judged => exact .some compared
  case removed.removed => exact .none
  case judged.removed => cases compared
  case removed.judged => cases compared

theorem Outcome.removals_within {less more : List Outcome}
    (within : List.Forall₂ Outcome.Within less more) :
    (less.map removals).sum ≤ (more.map removals).sum := by
  apply List.Forall₂.sum_le_sum
  rw [List.forall₂_map_left_iff, List.forall₂_map_right_iff]
  refine within.imp ?_
  intro one other compared
  cases one <;> cases other
  case judged.judged => exact Nat.le_refl 0
  case removed.removed => exact compared
  case judged.removed => cases compared
  case removed.judged => cases compared

/-- Outcomes that compare make answers that compare. -/
theorem Operation.answer_within (operation : Operation) (less more : List Outcome)
    (within : List.Forall₂ Outcome.Within less more) :
    Answer.Within (operation.answer less) (operation.answer more) := by
  cases operation with
  | subscribe client subs => exact Outcome.judgements_within within
  | unsubscribe client filters => exact Outcome.removals_within within
  | unsubscribeAll client => exact Outcome.removals_within within

end Comparing

namespace Ledger

/-- The looser ledger holds what the tighter one holds, and for no client more than the difference
of the quotas beyond that. -/
structure Contained (tight loose : Config) (less more : Ledger) : Prop where
  kept : ∀ (key : Key) (sub : Subscription), less[key]? = some sub → more[key]? = some sub
  surplus : 0 < loose.maxSubscriptions → ∀ client,
    more.held client + tight.maxSubscriptions.toNat ≤
      less.held client + loose.maxSubscriptions.toNat

variable {tight loose : Config} {less more : Ledger}

/-- The quota apart, the two configurations refuse the same entries. -/
theorem entryRefusal?_of_raised (raised : tight.Raised loose) (sub : Subscription) :
    entryRefusal? loose sub = entryRefusal? tight sub := by
  rw [raised.otherwise]
  rfl

/-- A quota that is raised to a quota was one. -/
theorem limited_of_raised (raised : tight.Raised loose) (limited : 0 < loose.maxSubscriptions) :
    0 < tight.maxSubscriptions ∧
      tight.maxSubscriptions.toNat ≤ loose.maxSubscriptions.toNat := by
  rcases raised.larger with unlimited | ⟨some, le⟩
  · exact absurd unlimited (UInt64.pos_iff_ne_zero.mp limited)
  · exact ⟨UInt64.pos_iff_ne_zero.mpr some, UInt64.le_iff_toNat_le.mp le⟩

theorem contained_empty (raised : tight.Raised loose) : Contained tight loose ∅ ∅ where
  kept key sub h := h
  surplus limited client := by
    obtain ⟨-, le⟩ := limited_of_raised raised limited
    omega

theorem Contained.mem (contained : Contained tight loose less more) {key : Key}
    (there : key ∈ less) : key ∈ more := by
  obtain ⟨sub, held⟩ :=
    Option.isSome_iff_exists.mp (Std.ExtTreeMap.mem_iff_isSome_getElem?.mp there)
  rw [Std.ExtTreeMap.mem_iff_isSome_getElem?, contained.kept key sub held]
  rfl

theorem Contained.count_le (contained : Contained tight loose less more) (p : Key → Bool) :
    less.count p ≤ more.count p := by
  refine List.Subperm.countP_le p (List.subperm_of_subset Std.ExtTreeMap.nodup_keys ?_)
  intro key there
  exact Std.ExtTreeMap.mem_keys.mpr (contained.mem (Std.ExtTreeMap.mem_keys.mp there))

section Submitting

variable {client : String} {sub : Subscription}

/-- What the tighter ledger accepts the looser one has room for. -/
theorem refusal?_of_contained (raised : tight.Raised loose)
    (contained : Contained tight loose less more)
    (accepted : less.refusal? tight client sub = none) :
    more.refusal? loose client sub = none := by
  obtain ⟨entry, quota⟩ := refusal?_eq_none_iff.mp accepted
  refine refusal?_eq_none_iff.mpr ⟨(entryRefusal?_of_raised raised sub).trans entry, ?_⟩
  rw [quotaRefusal?_eq_none_iff] at quota ⊢
  intro limited fresh
  have room := quota (limited_of_raised raised limited).1 fun there => fresh (contained.mem there)
  have surplus := contained.surplus limited client
  omega

/-- Only a quota that is used up makes the tighter ledger refuse what the looser one accepts. -/
theorem full_of_refused (raised : tight.Raised loose) {e : RegistryError}
    (refused : less.refusal? tight client sub = some e)
    (accepted : more.refusal? loose client sub = none) :
    Key.of client sub ∉ less ∧ tight.maxSubscriptions.toNat ≤ less.held client := by
  have entry := (refusal?_eq_none_iff.mp accepted).1
  rw [entryRefusal?_of_raised raised] at entry
  have quota : less.quotaRefusal? tight client sub ≠ none := by
    intro none
    rw [refusal?_eq_none_iff.mpr ⟨entry, none⟩] at refused
    cases refused
  rw [Ne, quotaRefusal?_eq_none_iff] at quota
  push Not at quota
  exact quota.2

/-- Both ledgers accept: the surplus stays, or shrinks by a key that the looser one had already. -/
theorem contained_write (contained : Contained tight loose less more) :
    Contained tight loose (less.write client sub) (more.write client sub) where
  kept key s h := by
    rw [getElem?_write] at h ⊢
    split at h
    · next own => rw [if_pos own, h]
    · next other => rw [if_neg other, contained.kept key s h]
  surplus limited c := by
    have surplus := contained.surplus limited c
    by_cases there : Key.of client sub ∈ less
    · rw [held_write_of_mem there, held_write_of_mem (contained.mem there)]
      exact surplus
    · rw [held_write_of_not_mem there]
      -- The key is new to the tighter ledger, but the looser one may have kept it.
      by_cases surplusKey : Key.of client sub ∈ more
      · rw [held_write_of_mem surplusKey]
        omega
      · rw [held_write_of_not_mem surplusKey]
        omega

/-- Only the looser ledger accepts: the surplus may grow, since the tighter one is full. -/
theorem contained_write_more (raised : tight.Raised loose)
    (contained : Contained tight loose less more) {e : RegistryError}
    (refused : less.refusal? tight client sub = some e)
    (accepted : more.refusal? loose client sub = none) :
    Contained tight loose less (more.write client sub) where
  kept key s h := by
    obtain ⟨fresh, -⟩ := full_of_refused raised refused accepted
    have other : key ≠ Key.of client sub := by
      rintro rfl
      apply fresh
      rw [Std.ExtTreeMap.mem_iff_isSome_getElem?, h]
      rfl
    rw [getElem?_write, if_neg other, contained.kept key s h]
  surplus limited c := by
    have surplus := contained.surplus limited c
    obtain ⟨-, full⟩ := full_of_refused raised refused accepted
    by_cases surplusKey : Key.of client sub ∈ more
    · rw [held_write_of_mem surplusKey]
      exact surplus
    · have quota := (refusal?_eq_none_iff.mp accepted).2
      have room := quotaRefusal?_eq_none_iff.mp quota limited surplusKey
      rw [held_write_of_not_mem surplusKey]
      split
      · next own =>
        -- Before the write the looser ledger was below its quota and the tighter one at its own.
        subst own
        omega
      · exact surplus

end Submitting

/-- The looser ledger loses at least as many keys as the tighter one. -/
theorem contained_without (contained : Contained tight loose less more) (p : Key → Bool) :
    Contained tight loose (less.without p) (more.without p) where
  kept key sub h := by
    rw [getElem?_without] at h ⊢
    split at h
    · cases h
    · next stays => rw [if_neg stays, contained.kept key sub h]
  surplus limited c := by
    have surplus := contained.surplus limited c
    have lost := contained.count_le fun key => p key && key.isOf c
    have keptLess : (less.without p).held c + _ = less.held c := count_without p (Key.isOf c)
    have keptMore : (more.without p).held c + _ = more.held c := count_without p (Key.isOf c)
    omega

/-- A step of the tighter ledger is within the same step of the looser one, which goes on to
contain it. -/
theorem contained_step (raised : tight.Raised loose) (contained : Contained tight loose less more)
    (operation : Step) :
    Outcome.Within (step tight less operation).1 (step loose more operation).1 ∧
      Contained tight loose (step tight less operation).2 (step loose more operation).2 := by
  cases operation with
  | submit client sub =>
    cases judged : less.refusal? tight client sub with
    | none =>
      have accepted := refusal?_of_contained raised contained judged
      simp only [step, judged, accepted]
      refine ⟨?_, contained_write contained⟩
      intro receipt answered
      cases answered
      refine ⟨_, rfl, rfl, ?_⟩
      intro there
      exact Std.ExtTreeMap.mem_iff_contains.mp
        (contained.mem (Std.ExtTreeMap.mem_iff_contains.mpr there))
    | some e =>
      cases other : more.refusal? loose client sub with
      | none =>
        simp only [step, judged, other]
        exact ⟨concedes_of_error e _, contained_write_more raised contained judged other⟩
      | some d =>
        simp only [step, judged, other]
        exact ⟨concedes_of_error e _, contained⟩
  | release client filter =>
    exact ⟨contained.count_le (Key.isUnder client filter), contained_without contained _⟩
  | leave client => exact ⟨contained.count_le (Key.isOf client), contained_without contained _⟩

/-- The same history has answers that compare, and ends with a ledger that contains the other. -/
theorem contained_run (raised : tight.Raised loose) (operations : List Operation) :
    List.Forall₂ Answer.Within (run tight operations).1 (run loose operations).1 ∧
      Contained tight loose (run tight operations).2 (run loose operations).2 :=
  Machine.run_relates (R := Contained tight loose) Operation.answer_within
    (fun _ _ operation contained => contained_step raised contained operation)
    (contained_empty raised) operations

end Ledger

end TopicRegistry
