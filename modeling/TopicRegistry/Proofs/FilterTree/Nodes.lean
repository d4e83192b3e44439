import TopicRegistry.Registry.FilterTree.Lemmas

/-!
# The nodes of a tree

A node stands at the path of levels that leads to it and shows the filter that ends there and its
children. In a well-formed tree no node is idle, so below every node some filter ends: the nodes
stand at exactly the non-empty beginnings of the paths at which filters end.
-/

namespace TopicRegistry.FilterTree

/-- The node at a path: the filter that ends there, and the children. -/
def node? : FilterTree → List Level → Option (Option String × FilterTree)
  | _, [] => none
  | empty, _ => none
  | branch here ending below rest, level :: levels =>
    if here = level then (if levels = [] then some (ending, below) else node? below levels)
    else node? rest (level :: levels)

@[simp] theorem node?_nil (tree : FilterTree) : tree.node? [] = none := by
  cases tree <;> rfl

/-- The filter that ends at a path is the one its node shows. -/
theorem endingAt_eq_node? (tree : FilterTree) (levels : List Level) :
    tree.endingAt levels = (tree.node? levels).bind (·.1) := by
  fun_induction node? tree levels with
  | case1 tree => simp
  | case2 levels _ => simp
  | case3 ending below rest level => simp [endingAt]
  | case4 ending below rest level levels hlevels ih => rw [endingAt, if_pos rfl, if_neg hlevels, ih]
  | case5 here ending below rest level levels hne ih => rw [endingAt, if_neg hne, ih]

/-- Every node of a well-formed tree has a filter or a child, and its children are well formed. -/
theorem useful_of_node? {tree : FilterTree} (wf : tree.WellFormed) {levels : List Level}
    {ending : Option String} {below : FilterTree} (node : tree.node? levels = some (ending, below)) :
    (ending ≠ none ∨ below ≠ empty) ∧ below.WellFormed := by
  fun_induction node? tree levels with
  | case1 tree => cases node
  | case2 levels _ => cases node
  | case3 here inside rest level =>
    cases node
    exact ⟨wf.2.1, wf.2.2.1⟩
  | case4 here inside rest level levels hlevels ih => exact ih wf.2.2.1 node
  | case5 other here inside rest level levels hne ih => exact ih wf.2.2.2 node

theorem endingAt_below {tree : FilterTree} {levels : List Level} {ending : Option String}
    {below : FilterTree} (node : tree.node? levels = some (ending, below)) {more : List Level}
    (hmore : more ≠ []) : tree.endingAt (levels ++ more) = below.endingAt more := by
  fun_induction node? tree levels with
  | case1 tree => cases node
  | case2 levels _ => cases node
  | case3 here inside rest level =>
    cases node
    simp [endingAt, hmore]
  | case4 here inside rest level levels hlevels ih =>
    rw [List.cons_append, endingAt, if_pos rfl, if_neg (by simp [hlevels]), ih node]
  | case5 other here inside rest level levels hne ih =>
    rw [List.cons_append, endingAt, if_neg hne, ← List.cons_append, ih node]

/-- Somewhere in a well-formed tree that is not empty a filter ends. -/
theorem exists_endingAt {tree : FilterTree} (wf : tree.WellFormed) (nonempty : tree ≠ empty) :
    ∃ levels filter, levels ≠ [] ∧ tree.endingAt levels = some filter := by
  induction tree with
  | empty => exact absurd rfl nonempty
  | branch level ending below rest ihBelow _ =>
    obtain ⟨_, useful, wfBelow, _⟩ := wf
    cases ending with
    | some filter => exact ⟨[level], filter, by simp, by simp [endingAt]⟩
    | none =>
      have child : below ≠ empty := useful.resolve_left fun h => h rfl
      obtain ⟨levels, filter, hlevels, hend⟩ := ihBelow wfBelow child
      exact ⟨level :: levels, filter, by simp, by rw [endingAt, if_pos rfl, if_neg hlevels, hend]⟩

/-- A path to a filter passes nodes only. -/
theorem isSome_node?_of_endingAt {tree : FilterTree} {levels more : List Level} {filter : String}
    (hlevels : levels ≠ []) (hend : tree.endingAt (levels ++ more) = some filter) :
    (tree.node? levels).isSome := by
  fun_induction node? tree levels with
  | case1 tree => exact absurd rfl hlevels
  | case2 levels _ => simp at hend
  | case3 ending below rest level => rfl
  | case4 ending below rest level levels hne ih =>
    rw [List.cons_append, endingAt, if_pos rfl, if_neg (by simp [hne])] at hend
    exact ih hne hend
  | case5 here ending below rest level levels hne ih =>
    rw [List.cons_append, endingAt, if_neg hne, ← List.cons_append] at hend
    exact ih hlevels hend

/-- The nodes stand at the non-empty beginnings of the paths at which filters end. -/
theorem isSome_node?_iff {tree : FilterTree} (wf : tree.WellFormed) (levels : List Level) :
    (tree.node? levels).isSome ↔
      levels ≠ [] ∧ ∃ more filter, tree.endingAt (levels ++ more) = some filter := by
  constructor
  · intro h
    obtain ⟨⟨ending, below⟩, node⟩ := Option.isSome_iff_exists.mp h
    refine ⟨fun hnil => by simp [hnil] at node, ?_⟩
    obtain ⟨useful, wfBelow⟩ := useful_of_node? wf node
    cases ending with
    | some filter =>
      refine ⟨[], filter, ?_⟩
      rw [List.append_nil, endingAt_eq_node?, node]
      rfl
    | none =>
      have child : below ≠ empty := useful.resolve_left fun h => h rfl
      obtain ⟨more, filter, hmore, hend⟩ := exists_endingAt wfBelow child
      exact ⟨more, filter, (endingAt_below node hmore).trans hend⟩
  · rintro ⟨hlevels, more, filter, hend⟩
    exact isSome_node?_of_endingAt hlevels hend

end TopicRegistry.FilterTree
