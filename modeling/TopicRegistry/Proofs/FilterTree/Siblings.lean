import TopicRegistry.Proofs.FilterTree.Nodes

/-!
# Siblings with different levels

A node has at most one child of a level, as if its children were a map. Grafts and prunes keep
that, also in a tree with nodes that have nothing to show. Every node is then found by its path, so
that a tree is well formed exactly when moreover each node that some path leads to has a filter or
a child.
-/

namespace TopicRegistry.FilterTree

/-- Siblings have different levels, at the top and below every node. -/
def Distinct : FilterTree → Prop
  | empty => True
  | branch level _ below rest => level ∉ rest.siblings ∧ below.Distinct ∧ rest.Distinct

theorem distinct_path (filter : String) (levels : List Level) :
    (path filter levels).Distinct := by
  induction levels with
  | nil => trivial
  | cons level levels ih => exact ⟨List.not_mem_nil, ih, trivial⟩

theorem distinct_graft (filter : String) {tree : FilterTree} (distinct : tree.Distinct)
    (levels : List Level) : (graft filter tree levels).Distinct := by
  fun_induction graft filter tree levels with
  | case1 tree => exact distinct
  | case2 levels _ => exact distinct_path filter levels
  | case3 ending below rest level levels ih =>
    obtain ⟨apart, distinctBelow, distinctRest⟩ := distinct
    exact ⟨apart, ih distinctBelow, distinctRest⟩
  | case4 here ending below rest level levels hne ih =>
    obtain ⟨apart, distinctBelow, distinctRest⟩ := distinct
    refine ⟨?_, distinctBelow, ih distinctRest⟩
    rw [siblings_graft, not_or]
    exact ⟨apart, hne⟩

theorem distinct_keep {level : Level} {ending : Option String} {below rest : FilterTree}
    (distinct : (branch level ending below rest).Distinct) :
    (keep level ending below rest).Distinct := by
  rw [keep_eq]
  split
  · exact distinct.2.2
  · exact distinct

theorem distinct_prune {tree : FilterTree} (distinct : tree.Distinct) (levels : List Level) :
    (prune tree levels).Distinct := by
  fun_induction prune tree levels with
  | case1 tree => exact distinct
  | case2 levels _ => exact distinct
  | case3 ending below rest level levels ih =>
    obtain ⟨apart, distinctBelow, distinctRest⟩ := distinct
    exact distinct_keep ⟨apart, ih distinctBelow, distinctRest⟩
  | case4 here ending below rest level levels hne ih =>
    obtain ⟨apart, distinctBelow, distinctRest⟩ := distinct
    exact ⟨fun found => apart (mem_siblings_of_prune found), distinctBelow, ih distinctRest⟩

theorem mem_siblings_of_node? {tree : FilterTree} {level : Level} {levels : List Level}
    {node : Option String × FilterTree} (found : tree.node? (level :: levels) = some node) :
    level ∈ tree.siblings := by
  induction tree with
  | empty => cases found
  | branch here ending below rest _ ih =>
    by_cases same : here = level
    · exact same ▸ List.mem_cons_self
    · rw [node?, if_neg same] at found
      exact List.mem_cons_of_mem here (ih found)

theorem node?_branch_below {level : Level} {ending : Option String} {below rest : FilterTree}
    {levels : List Level} {node : Option String × FilterTree}
    (found : below.node? levels = some node) :
    (branch level ending below rest).node? (level :: levels) = some node := by
  have nonempty : levels ≠ [] := by
    rintro rfl
    simp at found
  rw [node?, if_pos rfl, if_neg nonempty, found]

theorem node?_branch_beside {level : Level} {ending : Option String} {below rest : FilterTree}
    (apart : level ∉ rest.siblings) {levels : List Level} {node : Option String × FilterTree}
    (found : rest.node? levels = some node) :
    (branch level ending below rest).node? levels = some node := by
  cases levels with
  | nil => simp at found
  | cons l ls =>
    have differs : level ≠ l := fun same => apart (same ▸ mem_siblings_of_node? found)
    rw [node?, if_neg differs, found]

/-- Well-formedness told by paths. -/
theorem wellFormed_iff (tree : FilterTree) :
    tree.WellFormed ↔ tree.Distinct ∧ ∀ levels ending below,
      tree.node? levels = some (ending, below) → ending ≠ none ∨ below ≠ empty := by
  constructor
  · intro wf
    refine ⟨?_, fun levels ending below node => (useful_of_node? wf node).1⟩
    induction tree with
    | empty => trivial
    | branch level ending below rest ihBelow ihRest =>
      obtain ⟨apart, _, wfBelow, wfRest⟩ := wf
      exact ⟨apart, ihBelow wfBelow, ihRest wfRest⟩
  · rintro ⟨distinct, useful⟩
    induction tree with
    | empty => trivial
    | branch level ending below rest ihBelow ihRest =>
      obtain ⟨apart, distinctBelow, distinctRest⟩ := distinct
      refine ⟨apart, useful [level] ending below (by simp [node?]), ?below, ?rest⟩
      case below =>
        apply ihBelow distinctBelow
        intro levels filter children found
        exact useful (level :: levels) filter children (node?_branch_below found)
      case rest =>
        -- a path into the siblings does not begin with `level`, so it passes this node by
        apply ihRest distinctRest
        intro levels filter children found
        exact useful levels filter children (node?_branch_beside apart found)

end TopicRegistry.FilterTree
