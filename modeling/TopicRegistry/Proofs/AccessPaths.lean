import TopicRegistry.Proofs.Delivery

/-!
# All ways to an entry agree

A query with a text reads the tree or the map of one filter if it asks about all clients, and the
record of a client, entry by entry, if it asks about one. The two tests are written differently
and read different structures. They select the same entries: those of a walk over everything that
the text asks for and the mask admits. A text that cannot be read fails both before any entry or
client is looked up.
-/

namespace TopicRegistry

namespace Comparison

/-- Whether a subscription is one that a text asks for: its filter covers the text, or the text
names its filter and its share group. -/
def selects (text : String) : Comparison → Subscription → Bool
  | covering, sub => TopicFilter.covers sub.filter text
  | exactName, sub => (Target.ofName text).toOption = some sub.toTarget

/-- The error that a text deserves that cannot be read: it is no topic name, or no filter. -/
def Blames : Comparison → RegistryError → Prop
  | covering, e => ∃ detail, e = .invalidName detail
  | exactName, e => ∃ detail, e = .invalidFilter detail

end Comparison

section Reading

/-- A text that cannot be read is blamed for what it was taken for. -/
theorem Subject.blames_of_ofText {text : String} {comparison : Comparison} {e : RegistryError}
    (refused : ofText text comparison = .error e) : comparison.Blames e := by
  cases comparison with
  | covering =>
    rw [ofText] at refused
    split at refused
    · next h =>
      cases refused
      exact TopicName.invalidName_of_segments h
    · cases refused
  | exactName =>
    rw [ofText] at refused
    split at refused
    · next h =>
      cases refused
      exact ParsedName.invalidFilter_of_ofName h
    · cases refused

/-- The test of single entries does what the text asks for, as long as the filters are valid. -/
theorem Subject.accepts_eq_selects {text : String} {comparison : Comparison} {subject : Subject}
    (read : ofText text comparison = .ok subject) {sub : Subscription}
    (valid : TopicFilter.fault? sub.filter = none) :
    subject.accepts sub = comparison.selects text sub := by
  cases comparison with
  | covering =>
    rw [ofText] at read
    split at read
    · cases read
    · next h =>
      cases read
      obtain ⟨validName, rfl⟩ := TopicName.segments_eq_ok_iff.mp h
      exact (TopicFilter.covers_eq_cover validName valid).symm
  | exactName =>
    rw [ofText] at read
    split at read
    · cases read
    · next h =>
      cases read
      simp [accepts, Comparison.selects, ParsedName.ofName_toTarget h, Except.toOption, eq_comm]

end Reading

namespace Registry

section Selecting

variable {config : Config} {registry : Registry} {ledger : Ledger}

/-- What a query with a text selects is told by the entries alone. -/
theorem mem_selected_iff (follows : Follows config registry ledger) {text : String}
    {comparison : Comparison} {subject : Subject}
    (read : Subject.ofText text comparison = .ok subject) (mask : KindMask)
    (client : Option String) {c : String} {sub : Subscription} :
    (c, sub) ∈ mask.admitted (registry.index.reached client (some subject)) ↔
      registry.index.Holds c sub ∧ (∀ own ∈ client, c = own) ∧
        comparison.selects text sub = true ∧ mask.admits sub.share sub.filter = true := by
  have plain := Subject.plain_of_ofText read
  rw [KindMask.mem_admitted, Index.mem_reached follows.consistent plain, and_assoc, and_assoc]
  apply and_congr_right
  intro holds
  have held := (Index.holds_iff_of_shows follows.shows).mp holds
  have valid := filterFault?_of_admitted (follows.sound.admitted _ sub held)
  simp [Subject.accepts_eq_selects read valid]

theorem nodup_selected (follows : Follows config registry ledger) (mask : KindMask)
    (client : Option String) {subject : Option Subject} (plain : ∀ s ∈ subject, s.Plain) :
    (mask.admitted (registry.index.reached client subject)).Nodup :=
  (Index.nodup_reached follows.consistent client plain).filter _

/-- The tree and the map of one filter lead to what a test of all entries selects. -/
theorem selected_perm (follows : Follows config registry ledger) {text : String}
    {comparison : Comparison} {subject : Subject}
    (read : Subject.ofText text comparison = .ok subject) (mask : KindMask) :
    (mask.admitted (registry.index.reached none (some subject))).Perm
      (registry.index.holdings.filter fun entry =>
        comparison.selects text entry.2 && mask.admits entry.2.share entry.2.filter) := by
  have nodup := (Index.nodup_holdings follows.consistent).filter fun entry =>
    comparison.selects text entry.2 && mask.admits entry.2.share entry.2.filter
  have plain := Subject.plain_of_ofText read
  rw [List.perm_ext_iff_of_nodup (nodup_selected follows mask none plain) nodup]
  rintro ⟨c, sub⟩
  rw [mem_selected_iff follows read, List.mem_filter, Index.mem_holdings follows.consistent]
  simp

/-- The record of a client leads to what of it is selected among all clients. -/
theorem selected_client_perm (follows : Follows config registry ledger) (mask : KindMask)
    {subject : Option Subject} (plain : ∀ s ∈ subject, s.Plain) (client : String) :
    (mask.admitted (registry.index.reached (some client) subject)).Perm
      ((mask.admitted (registry.index.reached none subject)).filter fun entry =>
        entry.1 = client) := by
  rw [List.perm_ext_iff_of_nodup (nodup_selected follows mask (some client) plain)
    ((nodup_selected follows mask none plain).filter _)]
  rintro ⟨c, sub⟩
  rw [List.mem_filter, KindMask.mem_admitted, KindMask.mem_admitted,
    Index.mem_reached follows.consistent plain, Index.mem_reached follows.consistent plain]
  constructor
  · rintro ⟨⟨holds, own, accepted⟩, admitted⟩
    exact ⟨⟨⟨holds, by simp, accepted⟩, admitted⟩, decide_eq_true (own client rfl)⟩
  · rintro ⟨⟨⟨holds, -, accepted⟩, admitted⟩, own⟩
    exact ⟨⟨holds, by simpa using own, accepted⟩, admitted⟩

end Selecting

end Registry

end TopicRegistry
