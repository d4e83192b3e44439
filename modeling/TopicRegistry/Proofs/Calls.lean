import TopicRegistry.Proofs.AccessPaths

/-!
# The calls of a visitor

A query calls its visitor until the visitor stops the walk. `Visitor.calls` are the calls when
the entries of a list are shown, `Visitor.logged` is the visitor that keeps a log of its calls and
is otherwise the same. The log of a query is exact: the calls show entries that are selected, each
at most once, the first call that stops the walk is the last one, and without such a call every
selected entry is shown. What is not selected, because of its kind or, for one client, because of
the topic, is no call and stops nothing. The order of the calls is not claimed to be any.
-/

namespace TopicRegistry

/-- A call of a visitor: the entry it was shown, and whether it let the walk go on. -/
structure Call where
  entry : String × Subscription
  goesOn : Bool
  deriving DecidableEq

namespace Visitor

variable {σ : Type} (visitor : Visitor σ)

/-- The calls of a visitor that is shown the entries of a list until it stops. -/
def calls : Holdings → σ → List Call
  | [], _ => []
  | entry :: rest, state =>
    match visitor state entry.1 entry.2 with
    | .yield next => ⟨entry, true⟩ :: calls rest next
    | .done _ => [⟨entry, false⟩]

def logged : Visitor (List Call × σ) := fun (log, state) client sub =>
  match visitor state client sub with
  | .yield next => .yield (log ++ [⟨(client, sub), true⟩], next)
  | .done next => .done (log ++ [⟨(client, sub), false⟩], next)

/-- The visitor that counts its calls and goes on as long as there were fewer than `limit`. -/
def counting (limit : Nat) : Visitor Nat := fun calls _ _ =>
  if calls + 1 < limit then .yield (calls + 1) else .done (calls + 1)

end Visitor

/-- The calls are exact for a list of entries: they show its members in turn, none follows a call
that stopped the walk, and only such a call keeps an entry from being shown. -/
structure ExactCalls (calls : List Call) (selected : Holdings) : Prop where
  shown : calls.map Call.entry <+: selected
  stopped : ∀ (k : Nat) (call : Call), calls[k]? = some call → call.goesOn = false →
    calls.length = k + 1
  complete : (∀ call ∈ calls, call.goesOn = true) → calls.map Call.entry = selected

section Calling

variable {σ : Type} (visitor : Visitor σ)

theorem over_cons (entry : String × Subscription) (rest : Holdings) (state : σ) :
    visitor.over (entry :: rest) state =
      Walk.andThen (visitor state entry.1 entry.2) (visitor.over rest) := rfl

/-- The log has the calls of the visitor, and the log does not change what the visitor does. -/
theorem over_logged (holdings : Holdings) (log : List Call) (state : σ) :
    (visitor.logged.over holdings (log, state)).value =
      (log ++ visitor.calls holdings state, (visitor.over holdings state).value) := by
  induction holdings generalizing log state with
  | nil => simp [Visitor.over, Visitor.calls, ForInStep.value]
  | cons entry rest ih =>
    rw [over_cons, over_cons, Visitor.calls, Visitor.logged]
    cases visitor state entry.1 entry.2 with
    | yield next =>
      simp only [Walk.andThen_yield]
      rw [ih, List.append_assoc, List.singleton_append]
    | done next => rfl

theorem exactCalls_calls (holdings : Holdings) (state : σ) :
    ExactCalls (visitor.calls holdings state) holdings := by
  induction holdings generalizing state with
  | nil => exact ⟨List.prefix_rfl, by simp [Visitor.calls], fun _ => rfl⟩
  | cons entry rest ih =>
    rw [Visitor.calls]
    cases visitor state entry.1 entry.2 with
    | yield next =>
      have later := ih next
      refine ⟨?_, ?_, ?_⟩
      · exact (List.prefix_cons_inj entry).mpr later.shown
      · intro k call at_k stops
        cases k with
        | zero =>
          cases at_k
          cases stops
        | succ k => exact congrArg (· + 1) (later.stopped k call at_k stops)
      · intro on
        exact congrArg (entry :: ·) (later.complete (List.forall_mem_cons.mp on).2)
    | done next =>
      refine ⟨?_, ?_, ?_⟩
      · exact (List.prefix_cons_inj entry).mpr (List.nil_prefix)
      · intro k call at_k _
        cases k with
        | zero => rfl
        | succ k => cases at_k
      · intro on
        cases on _ List.mem_cons_self

/-- A count stops at its limit or with the list, but not before the first call. -/
theorem over_counting (limit : Nat) (holdings : Holdings) (calls : Nat)
    (under : calls < max limit 1) :
    ((Visitor.counting limit).over holdings calls).value =
      min (max limit 1) (calls + holdings.length) := by
  induction holdings generalizing calls with
  | nil =>
    have unstopped : ((Visitor.counting limit).over [] calls).value = calls := rfl
    rw [unstopped, List.length_nil]
    omega
  | cons entry rest ih =>
    have called : Visitor.counting limit calls entry.1 entry.2 =
        if calls + 1 < limit then .yield (calls + 1) else .done (calls + 1) := rfl
    rw [over_cons, called, List.length_cons]
    by_cases more : calls + 1 < limit
    · rw [if_pos more, Walk.andThen_yield, ih (calls + 1) (by omega)]
      omega
    · rw [if_neg more, Walk.andThen_done]
      have last : (ForInStep.done (calls + 1)).value = calls + 1 := rfl
      omega

end Calling

namespace Registry

section Selecting

variable {config : Config} {registry : Registry} {ledger : Ledger}

/-- What a query selects is told by the ledger alone, with or without a client and a topic. -/
theorem mem_admitted_iff (follows : Follows config registry ledger) {comparison : Comparison}
    {topic : Option String} {subject : Option Subject}
    (read : comparison.read topic = .ok subject) (mask : KindMask) (client : Option String)
    {c : String} {sub : Subscription} :
    (c, sub) ∈ mask.admitted (registry.index.reached client subject) ↔
      ledger[Key.of c sub]? = some sub ∧ (∀ own ∈ client, c = own) ∧
        (∀ text ∈ topic, comparison.selects text sub = true) ∧
        mask.admits sub.share sub.filter = true := by
  rw [← Index.holds_iff_of_shows follows.shows]
  cases topic with
  | none =>
    cases read
    have plain : ∀ s ∈ (none : Option Subject), s.Plain := by simp
    simp [KindMask.mem_admitted, Index.mem_reached follows.consistent plain, and_assoc]
  | some text =>
    rw [Comparison.read] at read
    cases reading : Subject.ofText text comparison with
    | error e => simp [reading, Except.map] at read
    | ok found =>
      rw [reading] at read
      cases read
      simp [mem_selected_iff follows reading]

end Selecting

/-- A query whose topic cannot be read calls no visitor, so the state of the visitor, which its log
may be part of, comes back as it was. Otherwise its calls are exact for the entries of the ledger
that it selects, whatever the visitor is and does; a visitor that counts its calls up to a limit
is called that often, at least once, if there are enough entries. -/
theorem run_calls_exactly (config : Config) (operations : List Operation) (query : Query) :
    let registry := (({ config } : Registry).run operations).2
    let ledger := (Ledger.run config operations).2
    match query.comparison.read query.topic with
    | .error e => registry.Rejects query e
    | .ok _ =>
      ∃ selected : Holdings, selected.Nodup ∧
        (∀ client sub, (client, sub) ∈ selected ↔
          ledger[Key.of client sub]? = some sub ∧ (∀ own ∈ query.client, client = own) ∧
            (∀ text ∈ query.topic, query.comparison.selects text sub = true) ∧
            query.mask.admits sub.share sub.filter = true) ∧
        (∀ (σ : Type) (visitor : Visitor σ) (state : σ), ∃ calls last,
          registry.visit query visitor state = (.ok (), last) ∧
          registry.visit query visitor.logged ([], state) = (.ok (), calls, last) ∧
          ExactCalls calls selected) ∧
        ∀ limit, registry.visit query (Visitor.counting limit) 0 =
          (.ok (), min (max limit 1) selected.length) := by
  intro registry ledger
  have follows : Follows config registry ledger := (follows_run config operations).2
  cases read : query.comparison.read query.topic with
  | error e => exact rejects_of_read read
  | ok subject =>
    have displays : registry.Displays query _ := displays_of_read read
    have nodup := nodup_selected follows query.mask query.client (Comparison.plain_of_read read)
    refine ⟨_, nodup, ?_, ?_, ?_⟩
    · intro client sub
      exact mem_admitted_iff follows read query.mask query.client
    · intro σ visitor state
      refine ⟨visitor.calls _ state, _, displays σ visitor state, ?_, exactCalls_calls ..⟩
      rw [displays, over_logged]
      rfl
    · intro limit
      rw [displays, over_counting limit _ 0 (by omega), Nat.zero_add]

end Registry

end TopicRegistry
