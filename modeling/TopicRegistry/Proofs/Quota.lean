import TopicRegistry.Proofs.Admission
import TopicRegistry.Proofs.Ledger.Quota

/-!
# Raising the quota

A client that may hold more never holds less for it. Under the larger quota a registry is fuller,
because it has kept what the smaller quota refused, but it has room for whatever is accepted under
the smaller one. Nothing is said about the reasons of refusals, nor about how many entries only
the larger quota lets in.
-/

namespace TopicRegistry.Registry

/-- What a registry shows that follows a ledger is shown by one that follows a ledger in which the
first is contained. -/
theorem ofClient_subset_of_contained {tight loose : Config} {registry roomier : Registry}
    {less more : Ledger} (follows : Follows tight registry less)
    (followsMore : Follows loose roomier more)
    (contained : Ledger.Contained tight loose less more) (client : String) :
    registry.ofClient client .all ⊆ roomier.ofClient client .all := by
  intro sub held
  have written := (mem_ofClient follows).mp held
  exact (mem_ofClient followsMore).mpr (contained.kept _ sub written)

/-- If the quota is raised and nothing else is changed, then a history is answered at least as
favourably, entry by entry, and what a client holds in the end it also holds under the larger
quota, with the same options. Every beginning of a history is a history, and a batch may be cut
anywhere, so the same is true at every step. -/
theorem run_keeps_of_raised {tight loose : Config} (raised : tight.Raised loose)
    (operations : List Operation) :
    let (answers, registry) := ({ config := tight } : Registry).run operations
    let (others, roomier) := ({ config := loose } : Registry).run operations
    List.Forall₂ Answer.Within answers others ∧
      ∀ client, registry.ofClient client .all ⊆ roomier.ofClient client .all := by
  obtain ⟨answers, follows⟩ := follows_run tight operations
  obtain ⟨others, followsMore⟩ := follows_run loose operations
  obtain ⟨within, contained⟩ := Ledger.contained_run raised operations
  rw [← answers, ← others] at within
  exact ⟨within, ofClient_subset_of_contained follows followsMore contained⟩

/-- A quota of two refuses a third key that a quota of three lets in. After one filter is given up,
share groups and all, that key is new to the first registry and replaced in the second. -/
def fillingUp : List Operation :=
  [.subscribe "ann" [{ share := "", filter := "a" }, { share := "g", filter := "a" },
      { share := "", filter := "b" }],
    .unsubscribe "ann" ["a"],
    .subscribe "ann" [{ share := "", filter := "c" },
      { share := "", filter := "b", qos := .exactlyOnce }, { share := "", filter := "d" }]]

theorem run_keeps_of_raised_fillingUp :
    ({ maxSubscriptions := 2 } : Config).Raised { maxSubscriptions := 3 } ∧
      (let (answers, registry) :=
          ({ config := { maxSubscriptions := 2 } } : Registry).run fillingUp
        let (others, roomier) :=
          ({ config := { maxSubscriptions := 3 } } : Registry).run fillingUp
        List.Forall₂ Answer.Within answers others ∧
          ∀ client, registry.ofClient client .all ⊆ roomier.ofClient client .all) := by
  have raised : ({ maxSubscriptions := 2 } : Config).Raised { maxSubscriptions := 3 } :=
    ⟨rfl, by decide⟩
  exact ⟨raised, run_keeps_of_raised raised fillingUp⟩

end TopicRegistry.Registry
