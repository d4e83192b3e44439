/-!
# Walks that can be stopped

A walk shows things to a visitor one after the other. The visitor has a state of its own, and
with every new state it says whether the walk goes on (`yield`) or is over (`done`). Walks are
made of walks over lists, and a walk over a list that is put together from parts is the walk over
its parts in turn.
-/

namespace TopicRegistry.Walk

variable {σ α β : Type}

/-- Go on with a walk unless it is over. -/
def andThen (step : ForInStep σ) (next : σ → ForInStep σ) : ForInStep σ :=
  match step with
  | .yield state => next state
  | .done state => .done state

def each (visit : σ → α → ForInStep σ) : List α → σ → ForInStep σ
  | [], state => .yield state
  | a :: as, state => andThen (visit state a) (each visit as)

@[simp] theorem andThen_yield (state : σ) (next : σ → ForInStep σ) :
    andThen (.yield state) next = next state := rfl

@[simp] theorem andThen_done (state : σ) (next : σ → ForInStep σ) :
    andThen (.done state) next = .done state := rfl

theorem andThen_assoc (step : ForInStep σ) (f g : σ → ForInStep σ) :
    andThen (andThen step f) g = andThen step fun state => andThen (f state) g := by
  cases step <;> rfl

@[simp] theorem each_nil (visit : σ → α → ForInStep σ) (state : σ) :
    each visit [] state = .yield state := rfl

@[simp] theorem each_cons (visit : σ → α → ForInStep σ) (a : α) (as : List α) (state : σ) :
    each visit (a :: as) state = andThen (visit state a) (each visit as) := rfl

theorem each_append (visit : σ → α → ForInStep σ) (as bs : List α) (state : σ) :
    each visit (as ++ bs) state = andThen (each visit as state) (each visit bs) := by
  induction as generalizing state with
  | nil => rfl
  | cons a as ih =>
    simp only [List.cons_append, each_cons, andThen_assoc]
    exact congrArg _ (funext ih)

theorem each_map (visit : σ → β → ForInStep σ) (f : α → β) (as : List α) (state : σ) :
    each visit (as.map f) state = each (fun state a => visit state (f a)) as state := by
  induction as generalizing state with
  | nil => rfl
  | cons a as ih => exact congrArg _ (funext ih)

theorem each_flatMap (visit : σ → β → ForInStep σ) (f : α → List β) (as : List α) (state : σ) :
    each visit (as.flatMap f) state = each (fun state a => each visit (f a) state) as state := by
  induction as generalizing state with
  | nil => rfl
  | cons a as ih =>
    simp only [List.flatMap_cons, each_append, each_cons]
    exact congrArg _ (funext ih)

/-- Passing over some members is the same as not having them. -/
theorem each_filter (visit : σ → α → ForInStep σ) (keep : α → Bool) (as : List α) (state : σ) :
    each visit (as.filter keep) state =
      each (fun state a => if keep a then visit state a else .yield state) as state := by
  induction as generalizing state with
  | nil => rfl
  | cons a as ih =>
    by_cases h : keep a = true
    · simp only [List.filter_cons_of_pos h, each_cons, if_pos h]
      exact congrArg _ (funext ih)
    · simp only [List.filter_cons_of_neg h, each_cons, if_neg h, andThen_yield, ih]

/-- Showing what some members stand for is passing over those that stand for nothing. -/
theorem each_filterMap (visit : σ → β → ForInStep σ) (f : α → Option β) (as : List α) (state : σ) :
    each visit (as.filterMap f) state =
      each (fun state a => (f a).elim (.yield state) (visit state)) as state := by
  induction as generalizing state with
  | nil => rfl
  | cons a as ih =>
    cases h : f a with
    | none =>
      rw [List.filterMap_cons_none h, each_cons, h]
      exact ih state
    | some b =>
      rw [List.filterMap_cons_some h, each_cons, each_cons, h]
      exact congrArg _ (funext ih)

end TopicRegistry.Walk
