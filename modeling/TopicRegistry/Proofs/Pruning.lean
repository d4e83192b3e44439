import TopicRegistry.Proofs.FilterTree.Siblings

/-!
# Grafting and pruning touch one path

Paths overlap in every way: one is the beginning of another, or two part after some levels. Still
a graft and a prune change what ends at their own path and nothing that ends elsewhere. A prune
goes up from the end of its path and drops nodes until it comes to one that has a filter or another
child, so the nodes that stay are those that lead to some other filter. Pruning what was grafted
gives the same tree back. Grafting what was pruned gives the same nodes with the same filters back;
siblings may then stand in another order, of which nothing is said.
-/

namespace TopicRegistry.FilterTree

/-- A whole tree, with the node at its top. In the tree of an index no filter ends at the top, since
every text has a level; here one may. -/
@[ext] structure Root where
  ending : Option String := none
  below : FilterTree := empty
  distinct : below.Distinct := by trivial

namespace Root

/-- The node at a path; at the path without levels that is the top. -/
def node? (root : Root) : List Level → Option (Option String × FilterTree)
  | [] => some (root.ending, root.below)
  | level :: levels => root.below.node? (level :: levels)

def endingAt (root : Root) : List Level → Option String
  | [] => root.ending
  | level :: levels => root.below.endingAt (level :: levels)

def graft (filter : String) (root : Root) : List Level → Root
  | [] => { root with ending := some filter }
  | level :: levels =>
    { root with
      below := root.below.graft filter (level :: levels)
      distinct := distinct_graft filter root.distinct (level :: levels) }

def prune (root : Root) : List Level → Root
  | [] => { root with ending := none }
  | level :: levels =>
    { root with
      below := root.below.prune (level :: levels)
      distinct := distinct_prune root.distinct (level :: levels) }

/-- Every node but the top has a filter or a child. -/
def Useful (root : Root) : Prop :=
  ∀ levels ending below, levels ≠ [] → root.node? levels = some (ending, below) →
    ending ≠ none ∨ below ≠ empty

def SameNodes (root other : Root) : Prop :=
  ∀ levels, (root.node? levels).map (·.1) = (other.node? levels).map (·.1)

/-- What a graft and a prune do at a path, and what they leave alone. -/
structure Confined (root : Root) (filter : String) (levels : List Level) : Prop where
  /-- A graft changes what ends at its path, and at no other. -/
  grafted : ∀ probe, (root.graft filter levels).endingAt probe =
    if probe = levels then some filter else root.endingAt probe
  /-- A graft makes the nodes on its path that are missing, and no others. -/
  made : ∀ probe, ((root.graft filter levels).node? probe).isSome ↔
    (root.node? probe).isSome ∨ probe <+: levels
  /-- A prune clears what ends at its path, and leaves what ends at any other. -/
  pruned : ∀ probe, (root.prune levels).endingAt probe =
    if probe = levels then none else root.endingAt probe
  /-- A prune keeps the top and the nodes that lead to another filter, and no others. -/
  kept : ∀ probe, ((root.prune levels).node? probe).isSome ↔
    probe = [] ∨ ∃ more other, probe ++ more ≠ levels ∧
      root.endingAt (probe ++ more) = some other
  /-- Neither leaves a node without filter and child behind. -/
  useful : (root.graft filter levels).Useful ∧ (root.prune levels).Useful
  /-- A prune undoes the graft of a filter where none ended. -/
  undone : root.endingAt levels = none → (root.graft filter levels).prune levels = root
  /-- A graft brings the filter back that was pruned, and the nodes that were dropped with it. -/
  redone : root.endingAt levels = some filter →
    ((root.prune levels).graft filter levels).SameNodes root

variable {root : Root}

theorem useful_iff : root.Useful ↔ root.below.WellFormed := by
  rw [wellFormed_iff]
  constructor
  · intro useful
    refine ⟨root.distinct, ?_⟩
    intro levels ending below found
    cases levels with
    | nil => simp at found
    | cons level levels => exact useful (level :: levels) ending below (by simp) found
  · rintro ⟨-, useful⟩ levels ending below nonempty found
    cases levels with
    | nil => exact absurd rfl nonempty
    | cons level levels => exact useful (level :: levels) ending below found

theorem useful_graft (useful : root.Useful) (filter : String) (levels : List Level) :
    (root.graft filter levels).Useful := by
  rw [useful_iff] at useful ⊢
  cases levels with
  | nil => exact useful
  | cons level levels => exact wellFormed_graft filter useful (level :: levels)

theorem useful_prune (useful : root.Useful) (levels : List Level) :
    (root.prune levels).Useful := by
  rw [useful_iff] at useful ⊢
  cases levels with
  | nil => exact useful
  | cons level levels => exact wellFormed_prune useful (level :: levels)

theorem endingAt_eq_node? (levels : List Level) :
    root.endingAt levels = (root.node? levels).bind (·.1) := by
  cases levels with
  | nil => rfl
  | cons level levels => exact FilterTree.endingAt_eq_node? root.below (level :: levels)

/-- Besides the top, nodes stand at the beginnings of the paths at which filters end. -/
theorem isSome_node?_iff (useful : root.Useful) (levels : List Level) :
    (root.node? levels).isSome ↔
      levels = [] ∨ ∃ more filter, root.endingAt (levels ++ more) = some filter := by
  cases levels with
  | nil => simp [node?]
  | cons level levels =>
    rw [node?, FilterTree.isSome_node?_iff (useful_iff.mp useful)]
    simp [endingAt]

theorem endingAt_graft (filter : String) (levels probe : List Level) :
    (root.graft filter levels).endingAt probe =
      if probe = levels then some filter else root.endingAt probe := by
  cases levels with
  | nil => cases probe <;> rfl
  | cons level levels =>
    cases probe with
    | nil => rfl
    | cons l ls => simp [graft, endingAt, FilterTree.endingAt_graft]

theorem endingAt_prune (useful : root.Useful) (levels probe : List Level) :
    (root.prune levels).endingAt probe =
      if probe = levels then none else root.endingAt probe := by
  cases levels with
  | nil => cases probe <;> rfl
  | cons level levels =>
    cases probe with
    | nil => rfl
    | cons l ls => exact FilterTree.endingAt_prune (useful_iff.mp useful) (level :: levels) (l :: ls)

theorem isSome_node?_graft_iff (useful : root.Useful) (filter : String)
    (levels probe : List Level) :
    ((root.graft filter levels).node? probe).isSome ↔
      (root.node? probe).isSome ∨ probe <+: levels := by
  rw [isSome_node?_iff (useful_graft useful filter levels), isSome_node?_iff useful]
  constructor
  · rintro (top | ⟨more, other, hend⟩)
    · exact Or.inl (Or.inl top)
    · rw [endingAt_graft] at hend
      split at hend
      · next onPath => exact Or.inr ⟨more, onPath⟩
      · exact Or.inl (Or.inr ⟨more, other, hend⟩)
  · rintro ((top | ⟨more, other, hend⟩) | ⟨more, onPath⟩)
    · exact Or.inl top
    -- the filter that `probe` led to may be the one that the graft replaces
    · by_cases onPath : probe ++ more = levels
      · exact Or.inr ⟨more, filter, by rw [endingAt_graft, if_pos onPath]⟩
      · exact Or.inr ⟨more, other, by rw [endingAt_graft, if_neg onPath, hend]⟩
    · exact Or.inr ⟨more, filter, by rw [endingAt_graft, if_pos onPath]⟩

theorem isSome_node?_prune_iff (useful : root.Useful) (levels probe : List Level) :
    ((root.prune levels).node? probe).isSome ↔
      probe = [] ∨ ∃ more other, probe ++ more ≠ levels ∧
        root.endingAt (probe ++ more) = some other := by
  rw [isSome_node?_iff (useful_prune useful levels)]
  have ends : ∀ more other, (root.prune levels).endingAt (probe ++ more) = some other ↔
      probe ++ more ≠ levels ∧ root.endingAt (probe ++ more) = some other := by
    intro more other
    rw [endingAt_prune useful]
    by_cases onPath : probe ++ more = levels
    · simp [onPath]
    · simp [onPath]
  simp only [ends]

/-- The useful nodes are all that there is, so a prune drops what the graft made and no more. -/
theorem prune_graft (useful : root.Useful) (filter : String) {levels : List Level}
    (fresh : root.endingAt levels = none) : (root.graft filter levels).prune levels = root := by
  cases levels with
  | nil => exact Root.ext fresh.symm rfl
  | cons level levels =>
    have wf := useful_iff.mp useful
    exact Root.ext rfl (FilterTree.prune_graft filter wf (level :: levels) fresh)

/-- Useful trees in which the same filters end at the same paths have the same nodes. -/
theorem sameNodes_of_endingAt {other : Root} (useful : root.Useful) (usefulOther : other.Useful)
    (same : ∀ levels, root.endingAt levels = other.endingAt levels) : root.SameNodes other := by
  intro levels
  have present : (root.node? levels).isSome = (other.node? levels).isSome := by
    rw [Bool.eq_iff_iff, isSome_node?_iff useful, isSome_node?_iff usefulOther]
    simp only [same]
  have shown := same levels
  rw [endingAt_eq_node?, endingAt_eq_node?] at shown
  cases here : root.node? levels with
  | none =>
    cases there : other.node? levels with
    | none => rfl
    | some found => simp [here, there] at present
  | some node =>
    cases there : other.node? levels with
    | none => simp [here, there] at present
    | some found => simpa [here, there] using shown

theorem sameNodes_graft_prune (useful : root.Useful) {filter : String} {levels : List Level}
    (ends : root.endingAt levels = some filter) :
    ((root.prune levels).graft filter levels).SameNodes root := by
  apply sameNodes_of_endingAt (useful_graft (useful_prune useful levels) filter levels) useful
  intro probe
  rw [endingAt_graft, endingAt_prune useful]
  by_cases onPath : probe = levels
  · rw [if_pos onPath, onPath, ends]
  · rw [if_neg onPath, if_neg onPath]

/-- Where every node below the top has something to show, a graft and a prune touch one path, leave
every node something to show, and undo each other. -/
theorem graft_prune_confined {root : Root} (useful : root.Useful) (filter : String)
    (levels : List Level) : root.Confined filter levels where
  grafted := endingAt_graft filter levels
  made := isSome_node?_graft_iff useful filter levels
  pruned := endingAt_prune useful levels
  kept := isSome_node?_prune_iff useful levels
  useful := ⟨useful_graft useful filter levels, useful_prune useful levels⟩
  undone := prune_graft useful filter
  redone := sameNodes_graft_prune useful

/-- A filter at `a` and one below it: on the way to `a/b/c` the node of `b` has no filter. -/
def sharedBeginning : Root :=
  (({} : Root).graft "a" [.literal "a"]).graft "a/b/c" [.literal "a", .literal "b", .literal "c"]

theorem graft_prune_confined_sharedBeginning :
    sharedBeginning.Useful ∧ sharedBeginning.endingAt [.literal "a", .literal "b"] = none ∧
      sharedBeginning.Confined "a/b" [.literal "a", .literal "b"] := by
  have nothing : ({} : Root).Useful := useful_iff.mpr trivial
  have useful : sharedBeginning.Useful := useful_graft (useful_graft nothing _ _) _ _
  exact ⟨useful, by decide, graft_prune_confined useful "a/b" [.literal "a", .literal "b"]⟩

end Root

end TopicRegistry.FilterTree
