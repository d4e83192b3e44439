import TopicRegistry.Proofs.Queries

/-!
# What a query selects

Five walks answer queries: over everything, over the record of a client, over the map of one
filter, down the tree, and over a record with a test of each entry. `Index.reached` is the list
that a walk goes over. `mem_reached` says in one way for all five what is in it, and `visit_eq`
that a query shows this list as far as its mask admits it, or fails because of its text alone and
leaves its visitor as it was. The way down the tree depends on plain levels, as all topics have
that were read from a text.
-/

namespace TopicRegistry

open Std (ExtTreeMap)

namespace Subject

/-- A subject that can be looked for in the tree: none of its levels is the text of a wildcard. -/
def Plain : Subject → Prop
  | exactName _ => True
  | covering topic => Topic.Plain topic

theorem plain_of_ofText {text : String} {comparison : Comparison} {subject : Subject}
    (read : ofText text comparison = .ok subject) : ∀ s ∈ some subject, s.Plain := by
  intro s here
  obtain rfl := Option.mem_some.mp here
  cases comparison with
  | exactName =>
    rw [ofText] at read
    split at read
    · cases read
    · cases read
      trivial
  | covering =>
    rw [ofText] at read
    split at read
    · cases read
    · next h =>
      cases read
      obtain ⟨valid, rfl⟩ := TopicName.segments_eq_ok_iff.mp h
      exact TopicName.plain_segments valid

end Subject

namespace Index

def holdingsAt (index : Index) (target : Target) : Holdings :=
  index.filters[target.filter]?.elim [] fun subscribers =>
    subscribers.toList.filterMap fun entry => entry.2[target.share]?.map (entry.1, ·)

/-- What the walk for a client and a subject goes over. -/
def reached (index : Index) : Option String → Option Subject → Holdings
  | none, none => index.holdings
  | none, some (.exactName target) => index.holdingsAt target
  | none, some (.covering topic) => index.holdingsCovering topic
  | some client, none => index.holdingsOf client
  | some client, some subject =>
    (index.holdingsOf client).filter fun entry => subject.accepts entry.2

theorem walkTarget_eq {σ : Type} (visitor : Visitor σ) (index : Index) (target : Target)
    (state : σ) :
    index.walkTarget visitor target state = visitor.over (index.holdingsAt target) state := by
  rw [walkTarget, holdingsAt]
  cases index.filters[target.filter]? with
  | none => rfl
  | some subscribers =>
    rw [Option.elim_some, Visitor.over, Walk.each_filterMap]
    refine congrArg (Walk.each · subscribers.toList state) ?_
    funext state entry
    cases entry.2[target.share]? <;> rfl

variable {index : Index}

/-- What is found under a filter and a share group names both. -/
theorem target_of_find? (consistent : index.Consistent) {client filter share : String}
    {sub : Subscription} (found : index.find? client filter share = some sub) :
    sub.filter = filter ∧ sub.share = share := by
  rw [find?_eq_bind] at found
  obtain ⟨shares, hshares, hsub⟩ := Option.bind_eq_some_iff.mp found
  exact consistent.keyed client filter shares share sub hshares hsub

theorem mem_holdingsAt (consistent : index.Consistent) {target : Target} {c : String}
    {sub : Subscription} :
    (c, sub) ∈ index.holdingsAt target ↔ sub.toTarget = target ∧ index.Holds c sub := by
  have found : (c, sub) ∈ index.holdingsAt target ↔
      index.find? c target.filter target.share = some sub := by
    rw [find?_eq_bind, ← consistent.mirrored, sharesByFilter?, holdingsAt]
    cases index.filters[target.filter]? with
    | none => simp
    | some subscribers =>
      simp only [Option.elim_some, List.mem_filterMap, Prod.exists, Option.map_eq_some_iff,
        Prod.mk.injEq, ExtTreeMap.mem_toList_iff_getElem?_eq_some, Option.bind_some,
        Option.bind_eq_some_iff]
      constructor
      · rintro ⟨_, shares, hshares, _, hsub, rfl, rfl⟩
        exact ⟨shares, hshares, hsub⟩
      · rintro ⟨shares, hshares, hsub⟩
        exact ⟨c, shares, hshares, sub, hsub, rfl, rfl⟩
  rw [found]
  constructor
  · intro h
    obtain ⟨hfilter, hshare⟩ := target_of_find? consistent h
    rw [← hfilter, ← hshare] at h
    refine ⟨?_, h⟩
    cases target
    cases hfilter
    cases hshare
    rfl
  · rintro ⟨rfl, holds⟩
    exact holds

theorem nodup_holdingsAt (index : Index) (target : Target) :
    (index.holdingsAt target).Nodup := by
  rw [holdingsAt]
  cases index.filters[target.filter]? with
  | none => exact List.nodup_nil
  | some subscribers =>
    refine List.pairwise_filterMap.mpr ((distinct_toList subscribers).imp ?_)
    rintro ⟨client, shares⟩ ⟨other, others⟩ different x hx y hy rfl
    obtain ⟨_, -, rfl⟩ := Option.map_eq_some_iff.mp hx
    obtain ⟨_, -, same⟩ := Option.map_eq_some_iff.mp hy
    exact different (Prod.mk.inj same).1.symm

/-- Whichever map or tree is read, what is reached is what is held by the client, if one is given,
and accepted by the subject, if there is one. -/
theorem mem_reached (consistent : index.Consistent) {client : Option String}
    {subject : Option Subject} (plain : ∀ s ∈ subject, s.Plain) {c : String} {sub : Subscription} :
    (c, sub) ∈ index.reached client subject ↔
      index.Holds c sub ∧ (∀ own ∈ client, c = own) ∧ ∀ s ∈ subject, s.accepts sub = true := by
  cases client with
  | none =>
    rcases subject with - | ⟨target | topic⟩
    · simp [reached, mem_holdings consistent]
    · simp [reached, mem_holdingsAt consistent, Subject.accepts, and_comm]
    · simp [reached, mem_holdingsCovering consistent (plain _ rfl), Subject.accepts]
  | some own =>
    cases subject with
    | none => simp [reached, mem_holdingsOf consistent, and_comm]
    | some subject => simp [reached, mem_holdingsOf consistent, and_left_comm, and_assoc]

theorem nodup_reached (consistent : index.Consistent) (client : Option String)
    {subject : Option Subject} (plain : ∀ s ∈ subject, s.Plain) :
    (index.reached client subject).Nodup := by
  cases client with
  | none =>
    rcases subject with - | ⟨target | topic⟩
    · exact nodup_holdings consistent
    · exact nodup_holdingsAt index target
    · exact nodup_holdingsCovering consistent (plain _ rfl)
  | some own =>
    cases subject with
    | none => exact nodup_holdingsOf consistent own
    | some subject => exact (nodup_holdingsOf consistent own).filter _

end Index

def Comparison.read (comparison : Comparison) :
    Option String → Except RegistryError (Option Subject)
  | none => .ok none
  | some text => (Subject.ofText text comparison).map some

theorem Comparison.plain_of_read {comparison : Comparison} {topic : Option String}
    {subject : Option Subject} (read : comparison.read topic = .ok subject) :
    ∀ s ∈ subject, s.Plain := by
  cases topic with
  | none =>
    cases read
    simp
  | some text =>
    rw [Comparison.read] at read
    cases reading : Subject.ofText text comparison with
    | error e =>
      rw [reading] at read
      cases read
    | ok found =>
      rw [reading] at read
      cases read
      exact Subject.plain_of_ofText reading

namespace Registry

variable {σ : Type} (registry : Registry)

/-- What a query selects, unless its text cannot be read. -/
def selection (query : Query) : Except RegistryError Holdings :=
  match query.topic.map (Subject.ofText · query.comparison) with
  | none => .ok (query.mask.admitted (registry.index.reached query.client none))
  | some (.error e) => .error e
  | some (.ok subject) =>
    .ok (query.mask.admitted (registry.index.reached query.client (some subject)))

/-- The topic of a query is read without the registry, whatever the mask and the client are. -/
theorem selection_eq (query : Query) :
    registry.selection query =
      (query.comparison.read query.topic).map fun subject =>
        query.mask.admitted (registry.index.reached query.client subject) := by
  rw [selection]
  cases query.topic with
  | none => rfl
  | some text =>
    rw [Option.map_some, Comparison.read]
    cases Subject.ofText text query.comparison <;> rfl

/-- A query shows its visitor what it selects. If it fails, the visitor is shown nothing. -/
theorem visit_eq (query : Query) (visitor : Visitor σ) (state : σ) :
    registry.visit query visitor state =
      match registry.selection query with
      | .error e => (.error e, state)
      | .ok shown => (.ok (), (visitor.over shown state).value) := by
  rw [visit, selection]
  cases query.client with
  | none =>
    cases query.topic.map (Subject.ofText · query.comparison) with
    | none => simp only [walkAll_eq, over_only]; rfl
    | some read =>
      rcases read with e | ⟨target | topic⟩
      · rfl
      · simp only [Index.walkTarget_eq, over_only]; rfl
      · simp only [walkCovering_eq, over_only]; rfl
  | some own =>
    cases query.topic.map (Subject.ofText · query.comparison) with
    | none => simp only [walkClient_eq, over_only]; rfl
    | some read =>
      cases read with
      | error e => rfl
      | ok subject => simp only [walkClient_eq, over_only]; rfl

/-- Whatever the visitor is, the query shows it the members of a list until it stops. -/
def Displays (query : Query) (shown : Holdings) : Prop :=
  ∀ (σ : Type) (visitor : Visitor σ) (state : σ),
    registry.visit query visitor state = (.ok (), (visitor.over shown state).value)

/-- Whatever the visitor is, the query fails and leaves the visitor with the state that it came
with, so the visitor was shown nothing. -/
def Rejects (query : Query) (e : RegistryError) : Prop :=
  ∀ (σ : Type) (visitor : Visitor σ) (state : σ),
    registry.visit query visitor state = (.error e, state)

variable {registry} {query : Query}

theorem displays_of_selection {shown : Holdings} (selected : registry.selection query = .ok shown) :
    registry.Displays query shown := by
  intro σ visitor state
  rw [visit_eq, selected]

theorem rejects_of_selection {e : RegistryError} (refused : registry.selection query = .error e) :
    registry.Rejects query e := by
  intro σ visitor state
  rw [visit_eq, refused]

/-- A query whose topic is read shows what its mask admits of what is reached. -/
theorem displays_of_read {subject : Option Subject}
    (read : query.comparison.read query.topic = .ok subject) :
    registry.Displays query
      (query.mask.admitted (registry.index.reached query.client subject)) := by
  apply displays_of_selection
  rw [selection_eq, read]
  rfl

theorem rejects_of_read {e : RegistryError}
    (read : query.comparison.read query.topic = .error e) : registry.Rejects query e := by
  apply rejects_of_selection
  rw [selection_eq, read]
  rfl

/-- An answer that is grouped by client groups what is selected. -/
theorem grouped_eq (registry : Registry) (query : Query) :
    registry.grouped query =
      (registry.selection query).map fun shown => shown.foldl ByClient.push ∅ := by
  rw [grouped, collect, visit_eq]
  cases registry.selection query with
  | error e => rfl
  | ok shown =>
    have collected := over_yield (fun found client sub => ByClient.push found (client, sub))
      shown ∅
    exact congrArg (fun step => Except.ok step.value) collected

/-- The answer to a query with a text groups what the text selects. -/
theorem grouped_text (registry : Registry) (mask : KindMask) (text : String)
    (comparison : Comparison) :
    registry.grouped { mask, topic := text, comparison } =
      (Subject.ofText text comparison).map fun subject =>
        (mask.admitted (registry.index.reached none (some subject))).foldl ByClient.push ∅ := by
  rw [grouped_eq, selection_eq, Comparison.read]
  cases Subject.ofText text comparison <;> rfl

end Registry

end TopicRegistry
