import TopicRegistry.Registry.FilterTree.Lemmas

/-!
# The part of a tree that leads to some filters

`retain` keeps the filters with a property and the nodes that lead to them. Retaining the filters
with one property and then those with another is retaining those with both, so the order does not
matter; and pruning the path of a filter is retaining the other filters. Hence what prunings leave
of a tree is told by the filters that are left, whatever paths were pruned in whatever order.
-/

namespace TopicRegistry.FilterTree

theorem ne_nil_of_endingAt {tree : FilterTree} {levels : List Level} {filter : String}
    (hend : tree.endingAt levels = some filter) : levels ≠ [] := by
  rintro rfl
  simp at hend

section Branch

variable {level : Level} {ending : Option String} {below rest : FilterTree} {filter : String}

theorem endingAt_branch_below {levels : List Level} (hend : below.endingAt levels = some filter) :
    (branch level ending below rest).endingAt (level :: levels) = some filter := by
  rw [endingAt, if_pos rfl, if_neg (ne_nil_of_endingAt hend), hend]

theorem endingAt_branch_beside (distinct : level ∉ rest.siblings) {levels : List Level}
    (hend : rest.endingAt levels = some filter) :
    (branch level ending below rest).endingAt levels = some filter ∧ levels.head? ≠ some level := by
  cases levels with
  | nil => simp at hend
  | cons l ls =>
    have hl : level ≠ l := by
      rintro rfl
      rw [endingAt_of_not_mem_siblings distinct] at hend
      cases hend
    exact ⟨by rw [endingAt, if_neg hl, hend], by simpa using Ne.symm hl⟩

end Branch

/-- Keep the filters with a property, and the nodes that lead to them. -/
def retain (p : String → Bool) : FilterTree → FilterTree
  | empty => empty
  | branch level ending below rest => keep level (ending.filter p) (retain p below) (retain p rest)

theorem keep_of_useful {level : Level} {ending : Option String} {below : FilterTree}
    (useful : ending ≠ none ∨ below ≠ empty) (rest : FilterTree) :
    keep level ending below rest = branch level ending below rest := by
  rw [keep_eq, if_neg]
  rintro ⟨noEnding, noChild⟩
  rcases useful with h | h
  · exact h noEnding
  · exact h noChild

theorem retain_keep (p : String → Bool) (level : Level) (ending : Option String)
    (below rest : FilterTree) :
    retain p (keep level ending below rest) =
      keep level (ending.filter p) (retain p below) (retain p rest) := by
  rw [keep_eq]
  split
  · next useless =>
    obtain ⟨rfl, rfl⟩ := useless
    rfl
  · rfl

theorem retain_retain (p q : String → Bool) (tree : FilterTree) :
    retain p (retain q tree) = retain (fun filter => q filter && p filter) tree := by
  induction tree with
  | empty => rfl
  | branch level ending below rest ihBelow ihRest =>
    rw [retain, retain_keep, ihBelow, ihRest, retain, Option.filter_filter]

section WellFormed

variable {tree : FilterTree} (wf : tree.WellFormed)
include wf

/-- What is retained depends on the filters in the tree only. -/
theorem retain_congr {p q : String → Bool}
    (agree : ∀ levels filter, tree.endingAt levels = some filter → p filter = q filter) :
    retain p tree = retain q tree := by
  induction tree with
  | empty => rfl
  | branch level ending below rest ihBelow ihRest =>
    obtain ⟨distinct, _, wfBelow, wfRest⟩ := wf
    have here : ending.filter p = ending.filter q := by
      cases ending with
      | none => rfl
      | some filter => simp [Option.filter, agree [level] filter (by simp [endingAt])]
    have down := ihBelow wfBelow fun levels filter hend =>
      agree _ filter (endingAt_branch_below hend)
    have beside := ihRest wfRest fun levels filter hend =>
      agree levels filter (endingAt_branch_beside distinct hend).1
    rw [retain, retain, here, down, beside]

/-- All filters of a tree lead to all its nodes. -/
theorem retain_true : retain (fun _ => true) tree = tree := by
  induction tree with
  | empty => rfl
  | branch level ending below rest ihBelow ihRest =>
    obtain ⟨_, useful, wfBelow, wfRest⟩ := wf
    have here : ending.filter (fun _ => true) = ending := by cases ending <;> rfl
    rw [retain, here, ihBelow wfBelow, ihRest wfRest, keep_of_useful useful]

theorem retain_eq_self {p : String → Bool}
    (all : ∀ levels filter, tree.endingAt levels = some filter → p filter = true) :
    retain p tree = tree :=
  (retain_congr wf all).trans (retain_true wf)

/-- Pruning a path retains all filters but the one that ends there. -/
theorem prune_eq_retain {levels : List Level} {filter : String}
    (only : ∀ others other, tree.endingAt others = some other →
      (others = levels ↔ other = filter)) :
    prune tree levels = retain (· != filter) tree := by
  fun_induction prune tree levels with
  | case1 tree =>
    symm
    apply retain_eq_self wf
    intro others other hend
    simpa using fun same => ne_nil_of_endingAt hend ((only others other hend).mpr same)
  | case2 levels _ => rfl
  | case3 ending below rest level levels ih =>
    obtain ⟨distinct, _, wfBelow, wfRest⟩ := wf
    have here : (if levels = [] then none else ending) = ending.filter (· != filter) := by
      cases ending with
      | none => simp
      | some other =>
        have onlyHere := only [level] other (by simp [endingAt])
        by_cases last : levels = []
        · have same : other = filter := onlyHere.mp (by rw [last])
          simp [Option.filter, last, same]
        · have differs : other ≠ filter := fun same =>
            last (List.cons.inj (onlyHere.mpr same)).2.symm
          simp [Option.filter, last, differs]
    have down : prune below levels = retain (· != filter) below := by
      apply ih wfBelow
      intro others other hend
      rw [← only _ other (endingAt_branch_below hend), List.cons.injEq]
      exact (and_iff_right rfl).symm
    have beside : retain (· != filter) rest = rest := by
      apply retain_eq_self wfRest
      intro others other hend
      obtain ⟨inBranch, apart⟩ : (branch level ending below rest).endingAt others = some other ∧
          others.head? ≠ some level := endingAt_branch_beside distinct hend
      have differs : other ≠ filter := by
        intro same
        rw [(only others other inBranch).mpr same] at apart
        exact apart rfl
      simpa using differs
    rw [retain, here, down, beside]
  | case4 here ending below rest level levels hne ih =>
    obtain ⟨distinct, useful, wfBelow, wfRest⟩ := wf
    have differs : ∀ others other, (branch here ending below rest).endingAt (here :: others) =
        some other → other ≠ filter := by
      intro others other hend same
      exact hne (List.cons.inj ((only _ other hend).mpr same)).1
    have kept : ending.filter (· != filter) = ending := by
      cases ending with
      | none => rfl
      | some other => simp [Option.filter, differs [] other (by simp [endingAt])]
    have down : retain (· != filter) below = below := by
      apply retain_eq_self wfBelow
      intro others other hend
      simpa using differs others other (endingAt_branch_below hend)
    have beside := ih wfRest fun others other hend =>
      only others other (endingAt_branch_beside distinct hend).1
    rw [retain, kept, down, ← beside, keep_of_useful useful]

end WellFormed

end TopicRegistry.FilterTree
