import Mathlib.Algebra.GroupWithZero.Nat
import Mathlib.Data.List.Forall2
import TopicRegistry.Registry.Basic

/-!
# Single steps of a history

An operation is a sequence of steps: a batch is submitted entry by entry, filters are given up one
after the other, and leaving is one step. A machine is a function that takes a state and a step to
an outcome and a state; the operations of a history run on every machine alike. A registry is one
such machine. Two machines whose steps agree give the same answers to every history, and what
each step of a machine keeps, every history keeps.
-/

namespace TopicRegistry

/-- What an operation does at once: submit one entry, give one filter up, leave. -/
inductive Step where
  | submit (client : String) (sub : Subscription)
  | release (client filter : String)
  | leave (client : String)

/-- What comes of a step: an entry is judged, or some subscriptions are removed. -/
inductive Outcome where
  | judged (answer : Except RegistryError Receipt)
  | removed (count : Nat)

namespace Outcome

def judgement? : Outcome → Option (Except RegistryError Receipt)
  | judged answer => some answer
  | removed _ => none

def removals : Outcome → Nat
  | judged _ => 0
  | removed count => count

theorem judgements_judged (answers : List (Except RegistryError Receipt)) :
    (answers.map judged).filterMap judgement? = answers := by
  induction answers with
  | nil => rfl
  | cons answer answers ih => exact congrArg (answer :: ·) ih

end Outcome

namespace Operation

def steps : Operation → List Step
  | subscribe client subs => subs.map (.submit client)
  | unsubscribe client filters => filters.map (.release client)
  | unsubscribeAll client => [.leave client]

/-- The answer to an operation, put together from the outcomes of its steps. -/
def answer : Operation → List Outcome → Answer
  | subscribe _ _, outcomes => .receipts (outcomes.filterMap Outcome.judgement?)
  | unsubscribe _ _, outcomes => .removed (outcomes.map Outcome.removals).sum
  | unsubscribeAll _, outcomes => .removed (outcomes.map Outcome.removals).sum

end Operation

abbrev Machine (S : Type) := S → Step → Outcome × S

namespace Machine

variable {S T : Type}

def take (machine : Machine S) (state : S) : List Step → List Outcome × S
  | [] => ([], state)
  | step :: steps =>
    let (outcome, next) := machine state step
    let (outcomes, last) := machine.take next steps
    (outcome :: outcomes, last)

def run (machine : Machine S) (state : S) : List Operation → List Answer × S
  | [] => ([], state)
  | operation :: operations =>
    let (outcomes, next) := machine.take state operation.steps
    let (answers, last) := machine.run next operations
    (operation.answer outcomes :: answers, last)

theorem take_cons (machine : Machine S) (state : S) (step : Step) (steps : List Step) :
    machine.take state (step :: steps) =
      ((machine state step).1 :: (machine.take (machine state step).2 steps).1,
        (machine.take (machine state step).2 steps).2) := rfl

theorem run_cons (machine : Machine S) (state : S) (operation : Operation)
    (operations : List Operation) :
    machine.run state (operation :: operations) =
      (operation.answer (machine.take state operation.steps).1 ::
          (machine.run (machine.take state operation.steps).2 operations).1,
        (machine.run (machine.take state operation.steps).2 operations).2) := rfl

/-- A history is run by running its beginning and then the rest. -/
theorem run_append (machine : Machine S) (state : S) (before rest : List Operation) :
    machine.run state (before ++ rest) =
      ((machine.run state before).1 ++ (machine.run (machine.run state before).2 rest).1,
        (machine.run (machine.run state before).2 rest).2) := by
  induction before generalizing state with
  | nil => rfl
  | cons operation before ih =>
    rw [List.cons_append, run_cons, run_cons, ih]
    rfl

section Simulation

variable {machine : Machine S} {other : Machine T} {R : S → T → Prop}

theorem take_relates {Q : Outcome → Outcome → Prop}
    (agrees : ∀ s t step, R s t → Q (machine s step).1 (other t step).1 ∧
      R (machine s step).2 (other t step).2)
    {s : S} {t : T} (related : R s t) (steps : List Step) :
    List.Forall₂ Q (machine.take s steps).1 (other.take t steps).1 ∧
      R (machine.take s steps).2 (other.take t steps).2 := by
  induction steps generalizing s t with
  | nil => exact ⟨.nil, related⟩
  | cons step steps ih =>
    obtain ⟨compared, next⟩ := agrees s t step related
    obtain ⟨comparedRest, last⟩ := ih next
    exact ⟨.cons compared comparedRest, last⟩

/-- Machines whose steps compare give answers that compare and stay related, if outcomes that
compare are put together to answers that compare. -/
theorem run_relates {Q : Outcome → Outcome → Prop} {A : Answer → Answer → Prop}
    (lifts : ∀ (operation : Operation) less more, List.Forall₂ Q less more →
      A (operation.answer less) (operation.answer more))
    (agrees : ∀ s t step, R s t → Q (machine s step).1 (other t step).1 ∧
      R (machine s step).2 (other t step).2)
    {s : S} {t : T} (related : R s t) (operations : List Operation) :
    List.Forall₂ A (machine.run s operations).1 (other.run t operations).1 ∧
      R (machine.run s operations).2 (other.run t operations).2 := by
  induction operations generalizing s t with
  | nil => exact ⟨.nil, related⟩
  | cons operation operations ih =>
    obtain ⟨compared, next⟩ := take_relates agrees related operation.steps
    obtain ⟨comparedRest, last⟩ := ih next
    exact ⟨.cons (lifts operation _ _ compared) comparedRest, last⟩

/-- Machines whose steps agree just if they are fine have the same outcomes just if all steps are
fine, and then stay related. -/
theorem take_agrees_iff {Fine : Step → Prop}
    (agrees : ∀ s t step, R s t → ((machine s step).1 = (other t step).1 ↔ Fine step) ∧
      (Fine step → R (machine s step).2 (other t step).2))
    {s : S} {t : T} (related : R s t) (steps : List Step) :
    ((machine.take s steps).1 = (other.take t steps).1 ↔ ∀ step ∈ steps, Fine step) ∧
      ((∀ step ∈ steps, Fine step) → R (machine.take s steps).2 (other.take t steps).2) := by
  induction steps generalizing s t with
  | nil => exact ⟨by simp [take], fun _ => related⟩
  | cons step steps ih =>
    obtain ⟨agree, next⟩ := agrees s t step related
    rw [take_cons, take_cons, List.cons.injEq, List.forall_mem_cons, agree]
    constructor
    · exact and_congr_right fun fine => (ih (next fine)).1
    · rintro ⟨fine, rest⟩
      exact (ih (next fine)).2 rest

/-- Machines whose steps agree give the same answers and stay related. -/
theorem run_simulates
    (agrees : ∀ s t step, R s t → (machine s step).1 = (other t step).1 ∧
      R (machine s step).2 (other t step).2)
    {s : S} {t : T} (related : R s t) (operations : List Operation) :
    (machine.run s operations).1 = (other.run t operations).1 ∧
      R (machine.run s operations).2 (other.run t operations).2 := by
  have lifts : ∀ (operation : Operation) less more, List.Forall₂ Eq less more →
      operation.answer less = operation.answer more := by
    intro operation less more same
    rw [List.forall₂_eq_eq_eq] at same
    rw [same]
  have compared := run_relates lifts agrees related operations
  rwa [List.forall₂_eq_eq_eq] at compared

end Simulation

end Machine

namespace Registry

def step : Machine Registry := fun registry step =>
  match step with
  | .submit client sub =>
    let (answer, next) := registry.subscribe client sub
    (.judged answer, next)
  | .release client filter =>
    let (count, index) := registry.index.remove client filter
    (.removed count, { registry with index })
  | .leave client =>
    let (count, index) := registry.index.removeClient client
    (.removed count, { registry with index })

theorem take_submit (registry : Registry) (client : String) (subs : List Subscription) :
    step.take registry (subs.map (.submit client)) =
      ((registry.subscribeAll client subs).1.map .judged,
        (registry.subscribeAll client subs).2) := by
  induction subs generalizing registry with
  | nil => rfl
  | cons sub subs ih =>
    rw [List.map_cons, Machine.take_cons, ih]
    rfl

theorem take_release (registry : Registry) (client : String) (filters : List String) :
    ((step.take registry (filters.map (.release client))).1.map Outcome.removals).sum =
        (registry.unsubscribe client filters).1 ∧
      (step.take registry (filters.map (.release client))).2 =
        (registry.unsubscribe client filters).2 := by
  induction filters generalizing registry with
  | nil => exact ⟨rfl, rfl⟩
  | cons filter filters ih =>
    obtain ⟨counts, last⟩ := ih { registry with index := (registry.index.remove client filter).2 }
    rw [List.map_cons, Machine.take_cons]
    exact ⟨congrArg ((registry.index.remove client filter).1 + ·) counts, last⟩

theorem perform_eq_take (registry : Registry) (operation : Operation) :
    registry.perform operation =
      (operation.answer (step.take registry operation.steps).1,
        (step.take registry operation.steps).2) := by
  cases operation with
  | subscribe client subs =>
    rw [Operation.steps, take_submit, Operation.answer, Outcome.judgements_judged]
    rfl
  | unsubscribe client filters =>
    obtain ⟨counts, last⟩ := take_release registry client filters
    rw [Operation.steps, Operation.answer, counts, last]
    rfl
  | unsubscribeAll client => rfl

/-- A registry runs histories step by step. -/
theorem run_eq (registry : Registry) (operations : List Operation) :
    registry.run operations = step.run registry operations := by
  induction operations generalizing registry with
  | nil => rfl
  | cons operation operations ih =>
    rw [Machine.run_cons, Registry.run, perform_eq_take]
    simp only [ih]

theorem run_append (registry : Registry) (before rest : List Operation) :
    registry.run (before ++ rest) =
      ((registry.run before).1 ++ ((registry.run before).2.run rest).1,
        ((registry.run before).2.run rest).2) := by
  simp only [run_eq, Machine.run_append]

/-- Each operation has an answer. -/
theorem length_run (registry : Registry) (operations : List Operation) :
    (registry.run operations).1.length = operations.length := by
  induction operations generalizing registry with
  | nil => rfl
  | cons operation operations ih => exact congrArg Nat.succ (ih (registry.perform operation).2)

end Registry

end TopicRegistry
