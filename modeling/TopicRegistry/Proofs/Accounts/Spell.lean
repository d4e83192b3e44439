import TopicRegistry.Proofs.Accounts.Balance

/-!
# Spells of a client

The tally of a client goes when the client holds nothing any more, and begins again at zero. A
spell is a part of a history: before it the client holds nothing, and from its first operation on
it always holds something. The total of a client is the number of its new keys in the spell that
lasts. No operation takes everything from a client and then gives it something, so it is enough to
look at the client between operations.
-/

namespace TopicRegistry

def Operation.client : Operation → String
  | subscribe client _ => client
  | unsubscribe client _ => client
  | unsubscribeAll client => client

/-- How many new keys of a client the answers to some operations report. -/
def newKeysOf (client : String) (operations : List Operation) (answers : List Answer) : Nat :=
  ((operations.zip answers).map fun entry =>
    if entry.1.client = client then entry.2.newKeys else 0).sum

theorem newKeysOf_append (client : String) {operations : List Operation} {answers : List Answer}
    (answered : operations.length = answers.length) (more : List Operation)
    (others : List Answer) :
    newKeysOf client (operations ++ more) (answers ++ others) =
      newKeysOf client operations answers + newKeysOf client more others := by
  rw [newKeysOf, List.zip_append answered, List.map_append, List.sum_append, newKeysOf, newKeysOf]

theorem newKeysOf_le (client : String) (operations : List Operation) (answers : List Answer) :
    newKeysOf client operations answers ≤ (answers.map Answer.newKeys).sum := by
  induction operations generalizing answers with
  | nil => exact Nat.zero_le _
  | cons operation operations ih =>
    cases answers with
    | nil => exact Nat.zero_le _
    | cons answer answers =>
      have rest := ih answers
      rw [newKeysOf] at rest ⊢
      rw [List.zip_cons_cons, List.map_cons, List.sum_cons, List.map_cons, List.sum_cons]
      dsimp only
      split <;> omega

def Index.totalOf (index : Index) (client : String) : UInt64 :=
  ((index.clientTally? client).getD {}).total

theorem Index.totalOf_insert (index : Index) (client : String) (sub : Subscription) (c : String) :
    (index.insert client sub).2.totalOf c = index.totalOf c +
      UInt64.ofNat (if client = c then (if (index.insert client sub).1 then 0 else 1) else 0) := by
  rw [totalOf, clientTally?_insert, totalOf]
  by_cases hc : client = c
  · subst hc
    rw [if_pos rfl, if_pos rfl, Option.getD_some]
    cases (index.insert client sub).1 with
    | true => simp
    | false => simp [Tally.add]
  · rw [if_neg (Ne.symm hc), if_neg hc]
    simp

namespace Registry

section Totals

variable {registry : Registry} {client : String} {tally : Tally}

theorem totalOf_subscribe (registry : Registry) (client : String) (sub : Subscription)
    (c : String) :
    (registry.subscribe client sub).2.index.totalOf c = registry.index.totalOf c +
      UInt64.ofNat (if client = c then
        (if isNewKey (registry.subscribe client sub).1 then 1 else 0) else 0) := by
  rw [subscribe]
  cases registry.refusal? client sub with
  | some e => simp [isNewKey]
  | none =>
    have inserted := Index.totalOf_insert registry.index client sub c
    cases existed : (registry.index.insert client sub).1 <;>
      simpa [isNewKey, existed] using inserted

/-- A batch adds the new keys that its answer reports to the total of its client. -/
theorem totalOf_subscribeAll (registry : Registry) (client : String) (subs : List Subscription)
    (c : String) :
    (registry.subscribeAll client subs).2.index.totalOf c = registry.index.totalOf c +
      UInt64.ofNat (if client = c then
        (registry.subscribeAll client subs).1.countP isNewKey else 0) := by
  induction subs generalizing registry with
  | nil => simp [subscribeAll]
  | cons sub subs ih =>
    have answers : (registry.subscribeAll client (sub :: subs)).1 =
        (registry.subscribe client sub).1 ::
          ((registry.subscribe client sub).2.subscribeAll client subs).1 := rfl
    have next := ih (registry.subscribe client sub).2
    rw [totalOf_subscribe] at next
    rw [answers, List.countP_cons]
    refine next.trans ?_
    by_cases hc : client = c
    · rw [if_pos hc, if_pos hc, if_pos hc, UInt64.ofNat_add, UInt64.add_assoc,
        UInt64.add_comm (UInt64.ofNat _)]
    · simp [hc]

theorem total_remove (index : Index) {client filter c : String} {tally : Tally}
    (after : (index.remove client filter).2.clientTally? c = some tally) :
    ∃ before, index.clientTally? c = some before ∧ tally.total = before.total := by
  by_cases hc : c = client
  · subst hc
    obtain ⟨before, hbefore, rfl⟩ := Index.clientTally?_remove index c filter after
    exact ⟨before, hbefore, Tally.total_remove _ _⟩
  · rw [Index.clientTally?_remove_of_ne index client filter hc] at after
    exact ⟨tally, after, rfl⟩

/-- A client that still has a tally after some removals had it before, with the same total. -/
theorem total_unsubscribe {filters : List String} {c : String}
    (after : (registry.unsubscribe client filters).2.index.clientTally? c = some tally) :
    ∃ before, registry.index.clientTally? c = some before ∧ tally.total = before.total := by
  induction filters generalizing registry with
  | nil => exact ⟨tally, after, rfl⟩
  | cons filter filters ih =>
    have rest : ({ registry with index := (registry.index.remove client filter).2 } :
        Registry).unsubscribe client filters |>.2.index.clientTally? c = some tally := after
    obtain ⟨between, hbetween, hrest⟩ := ih rest
    obtain ⟨before, hbefore, hfirst⟩ := total_remove registry.index hbetween
    exact ⟨before, hbefore, hrest.trans hfirst⟩

/-- What an operation adds to the total of a client that has a tally after it. -/
theorem total_perform {operation : Operation}
    (after : (registry.perform operation).2.index.clientTally? client = some tally) :
    tally.total = registry.index.totalOf client + UInt64.ofNat
      (if operation.client = client then (registry.perform operation).1.newKeys else 0) := by
  have kept : ∀ before, registry.index.clientTally? client = some before →
      tally.total = before.total → tally.total = registry.index.totalOf client +
        UInt64.ofNat (if operation.client = client then 0 else 0) := by
    intro before hbefore same
    rw [Index.totalOf, hbefore, same]
    simp
  cases operation with
  | subscribe c subs =>
    have grown := totalOf_subscribeAll registry c subs client
    have held : (registry.subscribeAll c subs).2.index.clientTally? client = some tally := after
    rw [Index.totalOf, held] at grown
    exact grown
  | unsubscribe c filters =>
    obtain ⟨before, hbefore, same⟩ := total_unsubscribe after
    exact kept before hbefore same
  | unsubscribeAll c =>
    have left := Index.clientTally?_removeClient registry.index c client
    have held : (registry.index.removeClient c).2.clientTally? client = some tally := after
    rw [held] at left
    split at left
    · cases left
    · exact kept tally left.symm rfl

end Totals

theorem newKeysOf_concat (client : String) (registry : Registry) (operations : List Operation)
    (operation : Operation) :
    newKeysOf client (operations ++ [operation]) (registry.run (operations ++ [operation])).1 =
      newKeysOf client operations (registry.run operations).1 +
        if operation.client = client then
          ((registry.run operations).2.perform operation).1.newKeys else 0 := by
  rw [run_append, newKeysOf_append client (length_run registry operations).symm]
  simp [newKeysOf, run]

/-- A client has no tally just when there is nothing to tell it of. -/
theorem ofClient_eq_nil_iff {config : Config} {registry : Registry} {ledger : Ledger}
    (follows : Follows config registry ledger) {client : String} :
    registry.ofClient client .all = [] ↔ registry.index.clientTally? client = none := by
  rw [ofClient_eq, KindMask.admitted_all, List.reverse_eq_nil_iff, List.map_eq_nil_iff,
    Index.holdingsOf_eq_nil_iff follows.consistent, Index.clientTally?, Option.map_eq_none_iff]

/-- After some operations a client holds nothing, and something as long as others follow. -/
structure Spell (config : Config) (client : String) (before after : List Operation) : Prop where
  begins : (({ config } : Registry).run before).2.ofClient client .all = []
  lasts : ∀ more rest, after = more ++ rest → more ≠ [] →
    (({ config } : Registry).run (before ++ more)).2.ofClient client .all ≠ []

section Spells

variable {config : Config} {client : String} {before after : List Operation}
  {operation : Operation}

/-- A client that holds nothing and then something has begun a spell. -/
theorem Spell.start
    (nothing : (({ config } : Registry).run before).2.ofClient client .all = [])
    (something :
      (({ config } : Registry).run (before ++ [operation])).2.ofClient client .all ≠ []) :
    Spell config client before [operation] where
  begins := nothing
  lasts more rest split hmore := by
    have whole : more = [operation] := by
      cases more with
      | nil => exact absurd rfl hmore
      | cons first more =>
        obtain ⟨rfl, hrest⟩ := List.cons.inj split
        rw [(List.append_eq_nil_iff.mp hrest.symm).1]
    rw [whole]
    exact something

/-- A spell goes on as long as the client holds something. -/
theorem Spell.extend (spell : Spell config client before after)
    (something :
      (({ config } : Registry).run (before ++ (after ++ [operation]))).2.ofClient client .all ≠
        []) : Spell config client before (after ++ [operation]) where
  begins := spell.begins
  lasts more rest split hmore := by
    rcases List.eq_nil_or_concat rest with rfl | ⟨others, last, rfl⟩
    · rw [List.append_nil] at split
      rw [← split]
      exact something
    · rw [List.concat_eq_append, ← List.append_assoc] at split
      exact spell.lasts more others (List.append_inj_left' split rfl) hmore

/-- A client with a tally is in a spell, and its total is the number of its new keys in it. -/
theorem exists_spell (config : Config) (client : String) (operations : List Operation)
    {tally : Tally}
    (held : (({ config } : Registry).run operations).2.index.clientTally? client = some tally) :
    ∃ before after, operations = before ++ after ∧ Spell config client before after ∧
      tally.total = UInt64.ofNat
        (newKeysOf client after ((({ config } : Registry).run before).2.run after).1) := by
  have follows := fun operations => (follows_run config operations).2
  -- The induction takes the last operation off, since a spell grows at its end.
  induction hlength : operations.length generalizing operations tally with
  | zero =>
    rw [List.length_eq_zero_iff.mp hlength] at held
    simp [run, Index.clientTally?] at held
  | succ length ih =>
    rcases List.eq_nil_or_concat operations with rfl | ⟨earlier, operation, rfl⟩
    · cases hlength
    · rw [List.concat_eq_append] at held hlength ⊢
      have shorter : earlier.length = length := by simpa using hlength
      have something : (({ config } : Registry).run (earlier ++ [operation])).2.ofClient
          client .all ≠ [] := by
        rw [Ne, ofClient_eq_nil_iff (follows _), held]
        exact Option.some_ne_none tally
      rw [run_append] at held
      have grown := total_perform held
      cases known : (({ config } : Registry).run earlier).2.index.clientTally? client with
      | none =>
        have nothing := (ofClient_eq_nil_iff (follows earlier)).mpr known
        refine ⟨earlier, [operation], rfl, .start nothing something, ?_⟩
        rw [grown, Index.totalOf, known]
        simp [newKeysOf, run]
      | some old =>
        obtain ⟨before, after, rfl, spell, total⟩ := ih earlier known shorter
        rw [List.append_assoc] at something
        refine ⟨before, after ++ [operation], List.append_assoc _ _ _, spell.extend something, ?_⟩
        rw [grown, Index.totalOf, known, newKeysOf_concat, UInt64.ofNat_add, ← total, run_append]
        rfl

end Spells

end Registry

end TopicRegistry
