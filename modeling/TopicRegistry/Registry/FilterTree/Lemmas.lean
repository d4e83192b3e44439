import TopicRegistry.Registry.FilterTree

/-!
# Which filters end where

A tree is observed through `endingAt`. Grafting changes what ends at its path and nothing else,
pruning takes what ends at its path away and nothing else. A tree is well formed when siblings
have different levels and every node has a filter or a child; both operations keep that, and
pruning a path that was grafted onto a tree without that ending gives the tree back.
-/

namespace TopicRegistry.FilterTree

@[simp] theorem endingAt_nil (tree : FilterTree) : tree.endingAt [] = none := by
  cases tree <;> rfl

@[simp] theorem endingAt_empty (levels : List Level) : empty.endingAt levels = none := by
  cases levels <;> rfl

theorem endingAt_path (filter : String) (levels probe : List Level) :
    (path filter levels).endingAt probe = if probe = levels ∧ levels ≠ [] then some filter else none := by
  induction levels generalizing probe with
  | nil => simp [path]
  | cons level levels ih =>
    cases probe with
    | nil => simp
    | cons l ls =>
      by_cases hl : level = l
      · subst hl
        rw [path, endingAt, if_pos rfl, ih]
        by_cases hls : ls = levels
        · by_cases hnil : levels = [] <;> simp [hls, hnil]
        · by_cases hnil : ls = []
          · simp [hnil, Ne.symm (hnil ▸ hls : [] ≠ levels)]
          · simp [hls, hnil]
      · have hl' : ¬l = level := Ne.symm hl
        simp [path, endingAt, hl, hl']

/-- Grafting changes what ends at its path, and nothing else. -/
theorem endingAt_graft (filter : String) (tree : FilterTree) (levels probe : List Level) :
    (graft filter tree levels).endingAt probe =
      if probe = levels ∧ levels ≠ [] then some filter else tree.endingAt probe := by
  fun_induction graft filter tree levels generalizing probe with
  | case1 tree => simp
  | case2 levels _ => simp [endingAt_path]
  | case3 ending below rest level levels ih =>
    cases probe with
    | nil => simp
    | cons l ls =>
      by_cases hl : level = l
      · subst hl
        cases levels <;> cases ls <;> simp_all [endingAt]
      · simp [endingAt, hl, Ne.symm hl]
  | case4 here ending below rest level levels hne ih =>
    cases probe with
    | nil => simp
    | cons l ls =>
      by_cases hl : here = l
      · subst hl
        simp [endingAt, hne]
      · simp [endingAt, hl, ih]

def siblings : FilterTree → List Level
  | empty => []
  | branch level _ _ rest => level :: rest.siblings

/-- Siblings have different levels, and every node has a filter or a child. -/
def WellFormed : FilterTree → Prop
  | empty => True
  | branch level ending below rest =>
    level ∉ rest.siblings ∧ (ending ≠ none ∨ below ≠ empty) ∧ below.WellFormed ∧ rest.WellFormed

theorem endingAt_of_not_mem_siblings {tree : FilterTree} {level : Level}
    (h : level ∉ tree.siblings) (levels : List Level) :
    tree.endingAt (level :: levels) = none := by
  induction tree with
  | empty => rfl
  | branch here ending below rest _ ih =>
    simp only [siblings, List.mem_cons, not_or] at h
    rw [endingAt, if_neg (Ne.symm h.1)]
    exact ih h.2

theorem keep_eq (level : Level) (ending : Option String) (below rest : FilterTree) :
    keep level ending below rest =
      if ending = none ∧ below = empty then rest else branch level ending below rest := by
  rcases ending with _ | filter <;> cases below <;> simp [keep]

theorem mem_siblings_of_keep {level : Level} {ending : Option String} {below rest : FilterTree}
    {l : Level} (h : l ∈ (keep level ending below rest).siblings) :
    l = level ∨ l ∈ rest.siblings := by
  rw [keep_eq] at h
  split at h
  · exact Or.inr h
  · exact List.mem_cons.mp h

theorem wellFormed_keep {level : Level} {ending : Option String} {below rest : FilterTree}
    (distinct : level ∉ rest.siblings) (wfBelow : below.WellFormed) (wfRest : rest.WellFormed) :
    (keep level ending below rest).WellFormed := by
  rw [keep_eq]
  split
  · exact wfRest
  · next useful => exact ⟨distinct, Decidable.not_and_iff_not_or_not.mp useful, wfBelow, wfRest⟩

/-- A node that is dropped had nothing to show. -/
theorem endingAt_keep {level : Level} {ending : Option String} {below rest : FilterTree}
    (distinct : level ∉ rest.siblings) (probe : List Level) :
    (keep level ending below rest).endingAt probe = (branch level ending below rest).endingAt probe := by
  rw [keep_eq]
  split
  · next useless =>
    cases probe with
    | nil => simp
    | cons l ls =>
      by_cases hl : level = l
      · subst hl
        rw [endingAt_of_not_mem_siblings distinct]
        simp [endingAt, useless]
      · simp [endingAt, hl]
  · rfl

theorem siblings_graft (filter : String) (tree : FilterTree) (level : Level)
    (levels : List Level) (l : Level) :
    l ∈ (graft filter tree (level :: levels)).siblings ↔ l ∈ tree.siblings ∨ l = level := by
  induction tree with
  | empty => simp [graft, path, siblings]
  | branch here ending below rest _ ih =>
    by_cases h : here = level
    · subst h
      simp only [graft, if_pos, siblings, List.mem_cons]
      constructor
      · exact Or.inl
      · rintro (h | h)
        · exact h
        · exact Or.inl h
    · simp only [graft, if_neg h, siblings, List.mem_cons, ih]
      constructor
      · rintro (h | h | h)
        · exact Or.inl (Or.inl h)
        · exact Or.inl (Or.inr h)
        · exact Or.inr h
      · rintro ((h | h) | h)
        · exact Or.inl h
        · exact Or.inr (Or.inl h)
        · exact Or.inr (Or.inr h)

theorem mem_siblings_of_prune {tree : FilterTree} {levels : List Level} {l : Level}
    (h : l ∈ (prune tree levels).siblings) : l ∈ tree.siblings := by
  fun_induction prune tree levels with
  | case1 tree => exact h
  | case2 levels _ => exact h
  | case3 ending below rest level levels ih =>
    exact List.mem_cons.mpr (mem_siblings_of_keep h)
  | case4 here ending below rest level levels hne ih =>
    simp only [siblings, List.mem_cons] at h ⊢
    rcases h with h | h
    · exact Or.inl h
    · exact Or.inr (ih h)

theorem wellFormed_path (filter : String) (levels : List Level) :
    (path filter levels).WellFormed := by
  induction levels with
  | nil => trivial
  | cons level levels ih =>
    refine ⟨by simp [siblings], ?_, ih, trivial⟩
    cases levels with
    | nil => simp
    | cons l ls => exact Or.inr (by simp [path])

theorem graft_ne_empty (filter : String) (tree : FilterTree) (level : Level)
    (levels : List Level) : graft filter tree (level :: levels) ≠ empty := by
  cases tree with
  | empty => simp [graft, path]
  | branch here ending below rest =>
    rw [graft]
    split <;> simp

theorem wellFormed_graft (filter : String) {tree : FilterTree} (wf : tree.WellFormed)
    (levels : List Level) : (graft filter tree levels).WellFormed := by
  fun_induction graft filter tree levels with
  | case1 tree => exact wf
  | case2 levels _ => exact wellFormed_path filter levels
  | case3 ending below rest level levels ih =>
    obtain ⟨distinct, _, wfBelow, wfRest⟩ := wf
    refine ⟨distinct, ?_, ih wfBelow, wfRest⟩
    cases levels with
    | nil => simp
    | cons l ls => exact Or.inr (graft_ne_empty filter below l ls)
  | case4 here ending below rest level levels hne ih =>
    obtain ⟨distinct, useful, wfBelow, wfRest⟩ := wf
    refine ⟨?_, useful, wfBelow, ih wfRest⟩
    rw [siblings_graft]
    rintro (h | h)
    · exact distinct h
    · exact hne h

theorem wellFormed_prune {tree : FilterTree} (wf : tree.WellFormed) (levels : List Level) :
    (prune tree levels).WellFormed := by
  fun_induction prune tree levels with
  | case1 tree => exact wf
  | case2 levels _ => exact wf
  | case3 ending below rest level levels ih =>
    obtain ⟨distinct, _, wfBelow, wfRest⟩ := wf
    exact wellFormed_keep distinct (ih wfBelow) wfRest
  | case4 here ending below rest level levels hne ih =>
    obtain ⟨distinct, useful, wfBelow, wfRest⟩ := wf
    exact ⟨fun h => distinct (mem_siblings_of_prune h), useful, wfBelow, ih wfRest⟩

/-- Pruning takes what ends at its path away, and nothing else. -/
theorem endingAt_prune {tree : FilterTree} (wf : tree.WellFormed) (levels probe : List Level) :
    (prune tree levels).endingAt probe = if probe = levels then none else tree.endingAt probe := by
  fun_induction prune tree levels generalizing probe with
  | case1 tree =>
    split
    · next h => simp [h]
    · rfl
  | case2 levels _ => simp
  | case3 ending below rest level levels ih =>
    obtain ⟨distinct, _, wfBelow, _⟩ := wf
    rw [endingAt_keep distinct]
    cases probe with
    | nil => simp
    | cons l ls =>
      by_cases hl : level = l
      · subst hl
        by_cases hls : ls = levels
        · subst hls
          by_cases hnil : ls = [] <;> simp [endingAt, hnil, ih wfBelow]
        · by_cases hnil : ls = []
          · have hlevels : levels ≠ [] := fun h => hls (hnil.trans h.symm)
            simp [endingAt, hnil, hlevels, Ne.symm hlevels]
          · simp [endingAt, hls, hnil, ih wfBelow]
      · have hl' : ¬l = level := Ne.symm hl
        simp [endingAt, hl, hl']
  | case4 here ending below rest level levels hne ih =>
    obtain ⟨_, _, _, wfRest⟩ := wf
    cases probe with
    | nil => simp
    | cons l ls =>
      by_cases hl : here = l
      · subst hl
        simp [endingAt, hne]
      · simp [endingAt, hl, ih wfRest]

theorem prune_path (filter : String) (levels : List Level) :
    prune (path filter levels) levels = empty := by
  induction levels with
  | nil => rfl
  | cons level levels ih =>
    by_cases h : levels = [] <;> simp [path, prune, keep_eq, ih, h]

/-- Pruning undoes grafting. -/
theorem prune_graft (filter : String) {tree : FilterTree} (wf : tree.WellFormed)
    (levels : List Level) (fresh : tree.endingAt levels = none) :
    prune (graft filter tree levels) levels = tree := by
  fun_induction graft filter tree levels with
  | case1 tree => cases tree <;> rfl
  | case2 levels _ => exact prune_path filter levels
  | case3 ending below rest level levels ih =>
    obtain ⟨_, useful, wfBelow, _⟩ := wf
    rw [endingAt, if_pos rfl] at fresh
    rw [prune, if_pos rfl, keep_eq]
    by_cases h : levels = []
    · subst h
      simp only [if_pos] at fresh
      have hb : below ≠ empty := useful.resolve_left (fun hn => hn fresh)
      have hp : prune (graft filter below []) [] = below := by cases below <;> rfl
      simp [hp, hb, fresh]
    · rw [if_neg h] at fresh
      rw [ih wfBelow fresh, if_neg h, if_neg h, if_neg]
      rintro ⟨he, hb⟩
      rcases useful with h | h
      · exact h he
      · exact h hb
  | case4 here ending below rest level levels hne ih =>
    obtain ⟨_, _, _, wfRest⟩ := wf
    rw [endingAt, if_neg hne] at fresh
    rw [prune, if_neg hne, ih wfRest fresh]

end TopicRegistry.FilterTree
