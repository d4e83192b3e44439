import TopicRegistry.Proofs.Accounts.Spell
import TopicRegistry.Proofs.Index.Records

/-!
# The part of a client in a history

The operations of one client in a history make up a history of their own. `Alike` relates the
registry that all clients share to one that only this client uses: both have the same record of
the client. A step of the client has the same outcome on both, and a step of another client is not
seen by the record, so the client gets the same answers from both.
-/

namespace TopicRegistry

def Step.client : Step → String
  | submit client _ => client
  | release client _ => client
  | leave client => client

def ownOf (client : String) (operations : List Operation) : List Operation :=
  operations.filter fun operation => operation.client = client

def answersOf (client : String) (operations : List Operation) (answers : List Answer) :
    List Answer :=
  ((operations.zip answers).filter fun entry => entry.1.client = client).map Prod.snd

section Parts

variable {client : String} {operation : Operation} {operations : List Operation}
  {answer : Answer} {answers : List Answer}

theorem Operation.client_of_mem_steps {step : Step} (h : step ∈ operation.steps) :
    step.client = operation.client := by
  cases operation with
  | subscribe c subs =>
    obtain ⟨sub, -, rfl⟩ := List.mem_map.mp h
    rfl
  | unsubscribe c filters =>
    obtain ⟨filter, -, rfl⟩ := List.mem_map.mp h
    rfl
  | unsubscribeAll c =>
    rw [List.mem_singleton.mp h]
    rfl

theorem ownOf_cons_of_eq (own : operation.client = client) :
    ownOf client (operation :: operations) = operation :: ownOf client operations :=
  List.filter_cons_of_pos (decide_eq_true own)

theorem ownOf_cons_of_ne (other : operation.client ≠ client) :
    ownOf client (operation :: operations) = ownOf client operations :=
  List.filter_cons_of_neg (by simpa using other)

theorem answersOf_cons_of_eq (own : operation.client = client) :
    answersOf client (operation :: operations) (answer :: answers) =
      answer :: answersOf client operations answers := by
  simp [answersOf, own]

theorem answersOf_cons_of_ne (other : operation.client ≠ client) :
    answersOf client (operation :: operations) (answer :: answers) =
      answersOf client operations answers := by
  simp [answersOf, other]

/-- Nothing of another client is in the part of a client. -/
theorem ownOf_ownOf_of_ne {other : String} (apart : other ≠ client)
    (operations : List Operation) : ownOf other (ownOf client operations) = [] := by
  rw [ownOf, List.filter_eq_nil_iff]
  intro operation h
  have own : operation.client = client := of_decide_eq_true (List.mem_filter.mp h).2
  simpa [own] using Ne.symm apart

/-- A client that is not among those of a history has no part in it. -/
theorem ownOf_eq_nil_of_not_mem {clients : List String}
    (staffed : ∀ operation ∈ operations, operation.client ∈ clients) (foreign : client ∉ clients) :
    ownOf client operations = [] := by
  rw [ownOf, List.filter_eq_nil_iff]
  intro operation h own
  exact foreign (of_decide_eq_true own ▸ staffed operation h)

end Parts

namespace Machine

variable {S : Type} {machine : Machine S} {R : S → S → Prop} {client : String}

/-- The steps that a client takes go the same way on both sides. -/
theorem take_projects_own
    (own : ∀ s t step, step.client = client → R s t →
      (machine s step).1 = (machine t step).1 ∧ R (machine s step).2 (machine t step).2)
    {s t : S} (related : R s t) {steps : List Step} (all : ∀ step ∈ steps, step.client = client) :
    (machine.take s steps).1 = (machine.take t steps).1 ∧
      R (machine.take s steps).2 (machine.take t steps).2 := by
  induction steps generalizing s t with
  | nil => exact ⟨rfl, related⟩
  | cons step steps ih =>
    obtain ⟨first, rest⟩ := List.forall_mem_cons.mp all
    obtain ⟨same, next⟩ := own s t step first related
    obtain ⟨sameRest, last⟩ := ih next rest
    rw [take_cons, take_cons]
    exact ⟨by rw [same, sameRest], last⟩

/-- The steps that others take are taken on one side only. -/
theorem take_projects_other
    (other : ∀ s t step, step.client ≠ client → R s t → R (machine s step).2 t)
    {s t : S} (related : R s t) {steps : List Step} (all : ∀ step ∈ steps, step.client ≠ client) :
    R (machine.take s steps).2 t := by
  induction steps generalizing s with
  | nil => exact related
  | cons step steps ih =>
    obtain ⟨first, rest⟩ := List.forall_mem_cons.mp all
    exact ih (other s t step first related) rest

/-- A client gets the same answers if the operations of the others are left out. -/
theorem run_projects
    (own : ∀ s t step, step.client = client → R s t →
      (machine s step).1 = (machine t step).1 ∧ R (machine s step).2 (machine t step).2)
    (other : ∀ s t step, step.client ≠ client → R s t → R (machine s step).2 t)
    {s t : S} (related : R s t) (operations : List Operation) :
    answersOf client operations (machine.run s operations).1 =
        (machine.run t (ownOf client operations)).1 ∧
      R (machine.run s operations).2 (machine.run t (ownOf client operations)).2 := by
  induction operations generalizing s t with
  | nil => exact ⟨rfl, related⟩
  | cons operation operations ih =>
    have steps : ∀ step ∈ operation.steps, step.client = operation.client :=
      fun step h => Operation.client_of_mem_steps h
    by_cases mine : operation.client = client
    · obtain ⟨same, next⟩ :=
        take_projects_own own related fun step h => (steps step h).trans mine
      obtain ⟨sameRest, last⟩ := ih next
      rw [ownOf_cons_of_eq mine, run_cons, run_cons, answersOf_cons_of_eq mine]
      exact ⟨by rw [same, sameRest], last⟩
    · obtain ⟨sameRest, last⟩ :=
        ih (take_projects_other other related fun step h => steps step h ▸ mine)
      rw [ownOf_cons_of_ne mine, run_cons, answersOf_cons_of_ne mine]
      exact ⟨sameRest, last⟩

end Machine

namespace Registry

/-- Two registries under one configuration have the same record of a client. -/
structure Alike (client : String) (registry other : Registry) : Prop where
  configured : registry.config = other.config
  consistent : registry.index.Consistent
  mirrored : other.index.Consistent
  recorded : registry.index.clients[client]? = other.index.clients[client]?

section Steps

variable {client : String} {registry other : Registry}

theorem alike_empty (config : Config) (client : String) :
    Alike client { config } { config } where
  configured := rfl
  consistent := Index.consistent_empty
  mirrored := Index.consistent_empty
  recorded := rfl

/-- The quota looks at the record of the client only. -/
theorem refusal?_congr (alike : Alike client registry other) (sub : Subscription) :
    registry.refusal? client sub = other.refusal? client sub := by
  rw [refusal?, refusal?, quotaRefusal?, quotaRefusal?, alike.configured,
    Index.clientTally?_congr alike.recorded, Index.find?_congr alike.recorded]

/-- A step of the client is the same for both registries. -/
theorem alike_step_own (registry other : Registry) (operation : Step)
    (own : operation.client = client) (alike : Alike client registry other) :
    (step registry operation).1 = (step other operation).1 ∧
      Alike client (step registry operation).2 (step other operation).2 := by
  cases operation with
  | submit c sub =>
    obtain rfl : c = client := own
    have same := refusal?_congr alike sub
    simp only [step, subscribe, same]
    cases other.refusal? c sub with
    | some e => exact ⟨rfl, alike⟩
    | none =>
      have existed := Index.existed_insert_congr alike.recorded alike.consistent alike.mirrored sub
      refine ⟨by rw [existed], ?_⟩
      exact
        { configured := alike.configured
          consistent := Index.consistent_insert c sub alike.consistent
          mirrored := Index.consistent_insert c sub alike.mirrored
          recorded :=
            Index.clients_insert_congr alike.recorded alike.consistent alike.mirrored sub }
  | release c filter =>
    obtain rfl : c = client := own
    refine ⟨congrArg Outcome.removed (Index.count_remove_congr alike.recorded filter), ?_⟩
    exact
      { configured := alike.configured
        consistent := Index.consistent_remove c filter alike.consistent
        mirrored := Index.consistent_remove c filter alike.mirrored
        recorded := Index.clients_remove_congr alike.recorded filter }
  | leave c =>
    obtain rfl : c = client := own
    refine ⟨congrArg Outcome.removed (Index.count_removeClient_congr alike.recorded), ?_⟩
    exact
      { configured := alike.configured
        consistent := Index.consistent_removeClient c alike.consistent
        mirrored := Index.consistent_removeClient c alike.mirrored
        recorded := by
          rw [step, step, Index.clients_removeClient_self, Index.clients_removeClient_self] }

/-- A step of another client is not seen by the record. -/
theorem alike_step_other (registry other : Registry) (operation : Step)
    (foreign : operation.client ≠ client) (alike : Alike client registry other) :
    Alike client (step registry operation).2 other := by
  cases operation with
  | submit c sub =>
    have apart : client ≠ c := Ne.symm foreign
    simp only [step, subscribe]
    cases registry.refusal? c sub with
    | some e => exact alike
    | none =>
      exact
        { alike with
          consistent := Index.consistent_insert c sub alike.consistent
          recorded := (Index.getElem?_clients_insert_of_ne _ apart sub).trans alike.recorded }
  | release c filter =>
    have apart : client ≠ c := Ne.symm foreign
    exact
      { alike with
        consistent := Index.consistent_remove c filter alike.consistent
        recorded := (Index.getElem?_clients_remove_of_ne _ apart filter).trans alike.recorded }
  | leave c =>
    have apart : client ≠ c := Ne.symm foreign
    exact
      { alike with
        consistent := Index.consistent_removeClient c alike.consistent
        recorded := (Index.getElem?_clients_removeClient_of_ne _ apart).trans alike.recorded }

end Steps

/-- A client gets the answers, and is left with the record, that it would get and be left with if
it were alone. -/
theorem alike_run (config : Config) (operations : List Operation) (client : String) :
    answersOf client operations (({ config } : Registry).run operations).1 =
        (({ config } : Registry).run (ownOf client operations)).1 ∧
      Alike client (({ config } : Registry).run operations).2
        (({ config } : Registry).run (ownOf client operations)).2 := by
  rw [run_eq, run_eq]
  exact Machine.run_projects alike_step_own alike_step_other (alike_empty config client) operations

/-- A client that takes no part has no record. -/
theorem clients_run_eq_none (config : Config) {operations : List Operation} {client : String}
    (absent : ownOf client operations = []) :
    (({ config } : Registry).run operations).2.index.clients[client]? = none := by
  have recorded := (alike_run config operations client).2.recorded
  rw [absent] at recorded
  simpa [run] using recorded

end Registry

end TopicRegistry
