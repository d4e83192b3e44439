import TopicRegistry.Proofs.Levels
import TopicRegistry.Registry.FilterTree.Lemmas

/-!
# What a search of the tree finds

The descent along the levels of a topic shows its visitor a list of filters, one after the other.
At every node it looks three children up, the one of `#`, the one of the level of the topic and the
one of `+`. If the levels of the topic are plain, these are three different children, and what is
found are the filters whose path agrees with the topic, hidden ones left out; none is met twice
as long as no filter ends at two paths. A level that is itself `+` or `#` would be looked up twice:
that this does not happen is up to those who read topics.
-/

namespace TopicRegistry.FilterTree

section Nodes

/-- The filter that ends at a path from a node; the path without levels ends at the node. -/
def Node.endingAt : Node → List Level → Option String
  | (ending, _), [] => ending
  | (_, below), level :: levels => below.endingAt (level :: levels)

variable {node child : Node} {level : Level} {filter : String}

/-- A path goes through the child that is looked up under its first level. -/
theorem endingAt_cons (tree : FilterTree) (level : Level) (levels : List Level) :
    tree.endingAt (level :: levels) = (tree.child? level).bind (Node.endingAt · levels) := by
  induction tree with
  | empty => rfl
  | branch here ending below rest _ ih =>
    by_cases same : here = level
    · rw [endingAt, if_pos same, child?, if_pos same]
      cases levels <;> rfl
    · rw [endingAt, if_neg same, child?, if_neg same, ih]

/-- No filter ends at the top of a tree that every path has to enter. -/
theorem endingAt_top (tree : FilterTree) (levels : List Level) :
    Node.endingAt (none, tree) levels = tree.endingAt levels := by
  cases levels with
  | nil => exact (endingAt_nil tree).symm
  | cons level levels => rfl

theorem endingAt_of_child? (enter : node.2.child? level = some child) {levels : List Level}
    (hend : child.endingAt levels = some filter) :
    node.endingAt (level :: levels) = some filter := by
  rw [Node.endingAt, endingAt_cons, enter]
  exact hend

/-- A filter ends at a node or at a path through one of its children. -/
theorem exists_endingAt_iff (P : List Level → Prop) :
    (∃ levels, node.endingAt levels = some filter ∧ P levels) ↔
      node.1 = some filter ∧ P [] ∨
        ∃ level child, node.2.child? level = some child ∧
          ∃ levels, child.endingAt levels = some filter ∧ P (level :: levels) := by
  constructor
  · rintro ⟨levels, hend, hP⟩
    cases levels with
    | nil => exact Or.inl ⟨hend, hP⟩
    | cons level levels =>
      rw [Node.endingAt, endingAt_cons] at hend
      obtain ⟨child, enter, hchild⟩ := Option.bind_eq_some_iff.mp hend
      exact Or.inr ⟨level, child, enter, levels, hchild, hP⟩
  · rintro (⟨hend, hP⟩ | ⟨level, child, enter, levels, hend, hP⟩)
    · exact ⟨[], hend, hP⟩
    · exact ⟨level :: levels, endingAt_of_child? enter hend, hP⟩

/-- No filter ends at two paths. -/
def Node.Once (node : Node) : Prop :=
  ∀ levels others filter, node.endingAt levels = some filter →
    node.endingAt others = some filter → levels = others

theorem once_child (once : node.Once) (enter : node.2.child? level = some child) : child.Once := by
  intro levels others filter hlevels hothers
  exact (List.cons.inj (once _ _ filter (endingAt_of_child? enter hlevels)
    (endingAt_of_child? enter hothers))).2

/-- Each of the filters ends at a path through the child of a level. -/
def Node.Through (node : Node) (level : Level) (filters : List String) : Prop :=
  ∀ filter ∈ filters, ∃ levels, node.endingAt (level :: levels) = some filter

/-- Paths through different children lead to different filters. -/
theorem ne_of_through (once : node.Once) {level other : Level} (different : level ≠ other)
    {filters others : List String} (here : node.Through level filters)
    (there : node.Through other others) : ∀ filter ∈ filters, ∀ met ∈ others, filter ≠ met := by
  rintro filter hfilter _ hother rfl
  obtain ⟨levels, hlevels⟩ := here filter hfilter
  obtain ⟨beyond, hbeyond⟩ := there filter hother
  exact different (List.cons.inj (once _ _ filter hlevels hbeyond)).1

theorem Node.Through.ite {filters : List String} (through : node.Through level filters)
    (wanted : Bool) : node.Through level (if wanted then filters else []) := by
  cases wanted with
  | true => exact through
  | false => exact fun _ met => nomatch met

end Nodes

section Leading

/-- Whether a path agrees with a topic, and begins with a wildcard only where that may be. -/
def leads (levels : List Level) (topic : List String) (wild : Bool) : Bool :=
  Level.agreeAll levels topic && (wild || !levels.head?.any Level.isWildcard)

variable (levels : List Level) (text t : String) (topic ts : List String) (wild : Bool)

@[simp] theorem leads_nil : leads [] topic wild = topic.isEmpty := by
  cases topic <;> simp [leads, Level.agreeAll]

@[simp] theorem leads_multi : leads (.multi :: levels) topic wild = (levels.isEmpty && wild) := by
  simp [leads, Level.agreeAll, Level.isWildcard]

@[simp] theorem leads_single_cons :
    leads (.single :: levels) (t :: ts) wild = (wild && leads levels ts true) := by
  simp [leads, Level.agreeAll, Level.agrees, Level.isWildcard, Bool.and_comm]

@[simp] theorem leads_literal_cons :
    leads (.literal text :: levels) (t :: ts) wild = (text == t && leads levels ts true) := by
  simp [leads, Level.agreeAll, Level.agrees, Level.isWildcard]

end Leading

section Found

def multiEnding (below : FilterTree) (wild : Bool) : List String :=
  if wild then (below.child? .multi).toList.flatMap (·.1.toList) else []

/-- The filters that a walk meets at and below a node, in its order. -/
def found : List String → (wild : Bool) → Node → List String
  | [], wild, (ending, below) => multiEnding below wild ++ ending.toList
  | level :: rest, wild, (_, below) =>
    multiEnding below wild ++
      ((below.child? (.ofText level)).toList.flatMap (found rest true) ++
        if wild then (below.child? .single).toList.flatMap (found rest true) else [])

theorem each_if {σ α : Type} (visit : σ → α → ForInStep σ) (wanted : Bool) (as : List α)
    (state : σ) :
    Walk.each visit (if wanted then as else []) state =
      if wanted then Walk.each visit as state else .yield state := by
  cases wanted <;> rfl

/-- A walk shows the filters that are found, until it is over. -/
theorem walk_eq_each {σ : Type} (visit : σ → String → ForInStep σ) (topic : List String)
    (wild : Bool) (node : Node) (state : σ) :
    walk visit topic wild node state = Walk.each visit (found topic wild node) state := by
  induction topic generalizing wild node state with
  | nil =>
    rw [walk, found, Walk.each_append, multiEnding, each_if, Walk.each_flatMap]
    rfl
  | cons level rest ih =>
    rw [walk, found, Walk.each_append, multiEnding, each_if, Walk.each_flatMap]
    refine congrArg (Walk.andThen _) (funext fun state => ?_)
    simp only [ih]
    rw [Walk.each_append, Walk.each_flatMap]
    refine congrArg (Walk.andThen _) (funext fun state => ?_)
    rw [each_if, Walk.each_flatMap]

variable {below : FilterTree} {filter : String} {wild : Bool}

theorem mem_multiEnding_iff :
    filter ∈ multiEnding below wild ↔
      wild = true ∧ ∃ child, below.child? .multi = some child ∧ child.1 = some filter := by
  cases wild <;> simp [multiEnding]

theorem mem_found_cons_iff {level : String} (plain : Level.ofText level = .literal level)
    (rest : List String) (ending : Option String) :
    filter ∈ found (level :: rest) wild (ending, below) ↔
      filter ∈ multiEnding below wild ∨
        (∃ child, below.child? (.literal level) = some child ∧ filter ∈ found rest true child) ∨
          wild = true ∧ ∃ child, below.child? .single = some child ∧
            filter ∈ found rest true child := by
  cases wild <;> simp [found, plain]

/-- What is found ends at a path that agrees with the topic, and all of that is found. -/
theorem mem_found_iff {topic : List String} (plain : Topic.Plain topic) (node : Node) :
    filter ∈ found topic wild node ↔
      ∃ levels, node.endingAt levels = some filter ∧ leads levels topic wild = true := by
  induction topic generalizing wild node with
  | nil =>
    obtain ⟨ending, below⟩ := node
    rw [exists_endingAt_iff, found, List.mem_append, mem_multiEnding_iff, or_comm]
    refine or_congr (by simp) ?_
    constructor
    · rintro ⟨hwild, child, enter, hend⟩
      exact ⟨.multi, child, enter, [], hend, by simpa using hwild⟩
    · rintro ⟨level, child, enter, levels, hend, agrees⟩
      cases level with
      | multi =>
        obtain ⟨rfl, hwild⟩ : levels = [] ∧ wild = true := by simpa using agrees
        exact ⟨hwild, child, enter, hend⟩
      | single => cases agrees
      | literal text => cases agrees
  | cons t ts ih =>
    obtain ⟨ending, below⟩ := node
    obtain ⟨plainHere, plainRest⟩ := List.forall_mem_cons.mp plain
    rw [exists_endingAt_iff, mem_found_cons_iff plainHere, mem_multiEnding_iff]
    constructor
    · rintro (⟨hwild, child, enter, hend⟩ | ⟨child, enter, below⟩ | ⟨hwild, child, enter, below⟩)
      · exact Or.inr ⟨.multi, child, enter, [], hend, by simpa using hwild⟩
      · obtain ⟨levels, hend, agrees⟩ := (ih plainRest child).mp below
        exact Or.inr ⟨.literal t, child, enter, levels, hend, by simpa using agrees⟩
      · obtain ⟨levels, hend, agrees⟩ := (ih plainRest child).mp below
        exact Or.inr ⟨.single, child, enter, levels, hend, by simp [hwild, agrees]⟩
    · rintro (⟨-, agrees⟩ | ⟨level, child, enter, levels, hend, agrees⟩)
      · cases agrees
      · cases level with
        | multi =>
          obtain ⟨rfl, hwild⟩ : levels = [] ∧ wild = true := by simpa using agrees
          exact Or.inl ⟨hwild, child, enter, hend⟩
        | single =>
          obtain ⟨hwild, hrest⟩ : wild = true ∧ leads levels ts true = true := by
            simpa using agrees
          exact Or.inr (Or.inr ⟨hwild, child, enter, (ih plainRest child).mpr ⟨levels, hend, hrest⟩⟩)
        | literal text =>
          obtain ⟨rfl, hrest⟩ : text = t ∧ leads levels ts true = true := by simpa using agrees
          exact Or.inr (Or.inl ⟨child, enter, (ih plainRest child).mpr ⟨levels, hend, hrest⟩⟩)

theorem nodup_multiEnding (below : FilterTree) (wild : Bool) :
    (multiEnding below wild).Nodup := by
  rw [multiEnding]
  split
  · rcases below.child? .multi with - | ⟨_ | filter, below⟩ <;> simp
  · exact List.nodup_nil

theorem through_multiEnding (ending : Option String) :
    Node.Through (ending, below) .multi (multiEnding below wild) := by
  intro filter met
  obtain ⟨-, child, enter, hend⟩ := mem_multiEnding_iff.mp met
  exact ⟨[], endingAt_of_child? enter hend⟩

/-- What is found below the child of a level ends at paths through that child. -/
theorem through_found {topic : List String} (plain : Topic.Plain topic) (ending : Option String)
    (level : Level) :
    Node.Through (ending, below) level
      ((below.child? level).toList.flatMap (found topic true)) := by
  intro filter met
  obtain ⟨child, enter, inside⟩ := List.mem_flatMap.mp met
  obtain ⟨levels, hend, -⟩ := (mem_found_iff plain child).mp inside
  exact ⟨levels, endingAt_of_child? (Option.mem_toList.mp enter) hend⟩

/-- The branches of a node lead to different paths, so no filter is met twice unless it ends at
two paths. -/
theorem nodup_found {topic : List String} (plain : Topic.Plain topic) {node : Node}
    (once : node.Once) : (found topic wild node).Nodup := by
  induction topic generalizing wild node with
  | nil =>
    obtain ⟨ending, below⟩ := node
    rw [found, List.nodup_append]
    refine ⟨nodup_multiEnding below wild, by cases ending <;> simp, ?_⟩
    rintro filter hmulti _ hhere rfl
    obtain ⟨levels, hlevels⟩ := through_multiEnding ending filter hmulti
    cases once _ [] filter hlevels (Option.mem_toList.mp hhere)
  | cons t ts ih =>
    obtain ⟨ending, below⟩ := node
    obtain ⟨plainHere, plainRest⟩ := List.forall_mem_cons.mp plain
    have nodupChild : ∀ level, ((below.child? level).toList.flatMap (found ts true)).Nodup := by
      intro level
      cases enter : below.child? level with
      | none => exact List.nodup_nil
      | some child => simpa using ih plainRest (once_child once enter)
    have multi : Node.Through (ending, below) .multi (multiEnding below wild) :=
      through_multiEnding ending
    have through : ∀ level, Node.Through (ending, below) level _ :=
      through_found plainRest ending
    rw [found, plainHere, List.nodup_append, List.nodup_append]
    refine ⟨nodup_multiEnding below wild, ⟨nodupChild _, ?_, ?_⟩, ?_⟩
    · split
      · exact nodupChild _
      · exact List.nodup_nil
    · exact ne_of_through once (by simp) (through (.literal t)) ((through .single).ite wild)
    · intro filter met
      exact List.forall_mem_append.mpr
        ⟨ne_of_through once (by simp) multi (through (.literal t)) filter met,
          ne_of_through once (by simp) multi ((through .single).ite wild) filter met⟩

end Found

end TopicRegistry.FilterTree
