import TopicRegistry.Registry.Basic

/-!
# Batches are no more than their entries

The entries of a batch are judged one after the other, and each is judged against what the entries
before it have left. So a batch may be cut up in any way, down to single entries. An entry that is
refused leaves nothing behind, no record of its client and no node of its filter: without it, the
entries after it get the answers that they got with it.
-/

namespace TopicRegistry.Registry

section Cutting

variable (registry : Registry) (client : String)

/-- The entries of a batch are judged in turn, whatever the batch is cut into. -/
theorem subscribeAll_append (before after : List Subscription) :
    registry.subscribeAll client (before ++ after) =
      ((registry.subscribeAll client before).1 ++
          ((registry.subscribeAll client before).2.subscribeAll client after).1,
        ((registry.subscribeAll client before).2.subscribeAll client after).2) := by
  induction before generalizing registry with
  | nil => rfl
  | cons sub before ih =>
    simp only [List.cons_append, subscribeAll, ih]

/-- Each entry of a batch has an answer. -/
theorem length_subscribeAll (subs : List Subscription) :
    (registry.subscribeAll client subs).1.length = subs.length := by
  induction subs generalizing registry with
  | nil => rfl
  | cons sub subs ih => exact congrArg Nat.succ (ih (registry.subscribe client sub).2)

/-- In a batch an entry gets the answer that it would get alone after the entries before it. -/
theorem getElem?_subscribeAll (before : List Subscription) (sub : Subscription)
    (after : List Subscription) :
    (registry.subscribeAll client (before ++ sub :: after)).1[before.length]? =
      some ((registry.subscribeAll client before).2.subscribe client sub).1 := by
  rw [subscribeAll_append, ← length_subscribeAll registry client before,
    List.getElem?_append_right (Nat.le_refl _), Nat.sub_self]
  rfl

/-- Entries that are submitted one at a time get the answers of the batch. -/
theorem run_singletons (subs : List Subscription) :
    registry.run (subs.map fun sub => .subscribe client [sub]) =
      ((registry.subscribeAll client subs).1.map fun answer => .receipts [answer],
        (registry.subscribeAll client subs).2) := by
  induction subs generalizing registry with
  | nil => rfl
  | cons sub subs ih =>
    rw [List.map_cons, run]
    simp only [perform, subscribeAll, ih, List.map_cons]

end Cutting

/-- A refused entry leaves the registry as it was. -/
theorem subscribe_of_error {registry : Registry} {client : String} {sub : Subscription}
    {e : RegistryError} (refused : (registry.subscribe client sub).1 = .error e) :
    (registry.subscribe client sub).2 = registry := by
  rw [subscribe] at refused ⊢
  cases judged : registry.refusal? client sub with
  | some reason => rfl
  | none =>
    rw [judged] at refused
    cases refused

section Thinning

abbrev Answered := Subscription × Except RegistryError Receipt

/-- The second list is the first one without some of its refused entries. -/
inductive Thinned : List Answered → List Answered → Prop where
  | nil : Thinned [] []
  | keep (entry : Answered) {entries kept : List Answered} (rest : Thinned entries kept) :
    Thinned (entry :: entries) (entry :: kept)
  | drop (sub : Subscription) (e : RegistryError) {entries kept : List Answered}
    (rest : Thinned entries kept) : Thinned ((sub, .error e) :: entries) kept

/-- To keep the accepted entries is to leave out all that were refused. -/
theorem thinned_filter_isOk (entries : List Answered) :
    Thinned entries (entries.filter fun entry => entry.2.isOk) := by
  induction entries with
  | nil => exact .nil
  | cons entry entries ih =>
    rcases entry with ⟨sub, e | receipt⟩
    · exact .drop sub e ih
    · exact .keep _ ih

/-- Without some of its refused entries, a batch gives the others the same answers and leaves the
same registry. -/
theorem subscribeAll_of_thinned (registry : Registry) (client : String)
    (subs : List Subscription) {kept : List Answered}
    (thinned : Thinned (subs.zip (registry.subscribeAll client subs).1) kept) :
    registry.subscribeAll client (kept.map Prod.fst) =
      (kept.map Prod.snd, (registry.subscribeAll client subs).2) := by
  induction subs generalizing registry kept with
  | nil =>
    cases thinned
    rfl
  | cons sub subs ih =>
    rw [subscribeAll, List.zip_cons_cons] at thinned
    generalize judged : (registry.subscribe client sub).1 = answer at thinned
    cases thinned with
    | keep entry rest =>
      simp only [List.map_cons, subscribeAll, ih _ rest, judged]
    | drop _ e rest =>
      rw [subscribe_of_error judged] at rest
      simp only [subscribeAll, subscribe_of_error judged, ih _ rest]

end Thinning

/-- What has to be true of a batch, of its answers and of the registry that it leaves, so that
the entries of the batch can be told apart. -/
structure EntryByEntry (registry : Registry) (client : String) (batch : List Subscription)
    (answers : List (Except RegistryError Receipt)) (last : Registry) : Prop where
  /-- Each entry has one answer, -/
  answered : answers.length = batch.length
  /-- in their order: it is the answer to the entry after those before it. -/
  ordered : ∀ before sub after, batch = before ++ sub :: after →
    answers[before.length]? = some ((registry.subscribeAll client before).2.subscribe client sub).1
  /-- Submitted one at a time, the entries get the same answers and leave the same registry. -/
  single : registry.run (batch.map fun sub => .subscribe client [sub]) =
    (answers.map fun answer => .receipts [answer], last)
  /-- A refused entry leaves the registry as the entries before it left it. -/
  refused : ∀ before sub after e, batch = before ++ sub :: after →
    answers[before.length]? = some (.error e) →
      (registry.subscribeAll client (before ++ [sub])).2 = (registry.subscribeAll client before).2
  /-- If some refused entries are left out, the others get the same answers and leave the same
  registry, -/
  thinned : ∀ kept : List Answered, Thinned (batch.zip answers) kept →
    registry.subscribeAll client (kept.map Prod.fst) = (kept.map Prod.snd, last)
  /-- and likewise if all are. -/
  accepted : let kept := (batch.zip answers).filter fun entry => entry.2.isOk
    registry.subscribeAll client (kept.map Prod.fst) = (kept.map Prod.snd, last)

/-- Whatever a registry holds and whoever submits it, a batch is no more than its entries. -/
theorem subscribeAll_entryByEntry (registry : Registry) (client : String)
    (batch : List Subscription) :
    EntryByEntry registry client batch (registry.subscribeAll client batch).1
      (registry.subscribeAll client batch).2 := by
  refine
    { answered := length_subscribeAll registry client batch
      ordered := ?ordered
      single := run_singletons registry client batch
      refused := ?refused
      thinned := ?thinned
      accepted := ?accepted }
  case ordered =>
    rintro before sub after rfl
    exact getElem?_subscribeAll registry client before sub after
  case refused =>
    rintro before sub after e rfl judged
    rw [getElem?_subscribeAll, Option.some_inj] at judged
    rw [subscribeAll_append]
    exact subscribe_of_error judged
  case thinned =>
    intro kept thinned
    exact subscribeAll_of_thinned registry client batch thinned
  case accepted =>
    intro kept
    exact subscribeAll_of_thinned registry client batch (thinned_filter_isOk _)

end TopicRegistry.Registry
