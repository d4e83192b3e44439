import TopicRegistry.Proofs.Levels
import TopicRegistry.Topic.Matching

/-!
# Covering, place by place

`Level.agreeAll` goes through a filter and a topic together and has to decide at every level what
a wildcard or the end of one of the lists means. Seen as a whole, a filter agrees with a topic if
they have the same length and agree in each place, and a final `#` only takes itself out of the
comparison. That is so for any two lists of levels, valid or not; for texts the short cut of
`TopicFilter.covers` for equal ones makes no difference.
-/

namespace TopicRegistry

namespace Level

/-- What a filter has in a place is `+`, or what the topic has there. -/
def AgreeAt (filter topic : List String) (i : Nat) : Prop :=
  filter[i]? = some "+" ∨ filter[i]? = topic[i]?

/-- There are as many places in the topic as in the filter, and the two agree in all of them. A
final `#` does not count, and with it the topic may have more places. -/
def PlacesAgree (filter topic : List String) : Prop :=
  if filter.getLast? = some "#" then
    filter.length - 1 ≤ topic.length ∧ ∀ i < filter.length - 1, AgreeAt filter topic i
  else topic.length = filter.length ∧ ∀ i < filter.length, AgreeAt filter topic i

/-- A filter agrees with a topic, and has no `#` before its last place. -/
structure PlaceByPlace (filter topic : List String) : Prop where
  final : ∀ i, filter[i]? = some "#" → i + 1 = filter.length
  places : PlacesAgree filter topic

/-- The topic begins with a level of the system namespace and the filter with a wildcard. -/
def Hidden (filter topic : List String) : Prop :=
  ∃ t ∈ topic.head?, ∃ level ∈ filter.head?,
    t.toList.head? = some '$' ∧ (level = "+" ∨ level = "#")

section Places

variable {level t : String} {filter topic : List String}

theorem placeByPlace_nil_iff : PlaceByPlace [] topic ↔ topic = [] := by
  constructor
  · rintro ⟨-, places⟩
    simpa [PlacesAgree] using places
  · rintro rfl
    exact ⟨by simp, by simp [PlacesAgree]⟩

/-- A `#` has to be the end, and then it agrees with everything. -/
theorem placeByPlace_multi_iff : PlaceByPlace ("#" :: filter) topic ↔ filter = [] := by
  constructor
  · rintro ⟨final, -⟩
    simpa using final 0 rfl
  · rintro rfl
    refine ⟨?_, by simp [PlacesAgree]⟩
    intro i found
    simpa using (List.getElem?_eq_some_iff.mp found).1

/-- Nothing but a final `#` agrees with the end of a topic. -/
theorem not_placeByPlace_cons_nil (other : level ≠ "#") : ¬PlaceByPlace (level :: filter) [] := by
  rintro ⟨-, places⟩
  cases filter with
  | nil => simp [PlacesAgree, other] at places
  | cons second filter =>
    rw [PlacesAgree] at places
    split at places <;> simp at places

/-- The first `n + 1` places agree if the first one does and the `n` places after it do. -/
theorem agreeAt_lt_succ_iff (n : Nat) :
    (∀ i < n + 1, AgreeAt (level :: filter) (t :: topic) i) ↔
      (level = "+" ∨ level = t) ∧ ∀ i < n, AgreeAt filter topic i := by
  rw [Nat.forall_lt_succ_left]
  simp [AgreeAt]

theorem placesAgree_cons_cons_iff (other : level ≠ "#") :
    PlacesAgree (level :: filter) (t :: topic) ↔
      (level = "+" ∨ level = t) ∧ PlacesAgree filter topic := by
  cases filter with
  | nil => simp [PlacesAgree, AgreeAt, other, and_comm]
  | cons second filter =>
    rw [PlacesAgree, PlacesAgree, List.getLast?_cons_cons]
    split
    · rw [List.length_cons, List.length_cons, Nat.add_sub_cancel, Nat.add_sub_cancel,
        List.length_cons, Nat.add_le_add_iff_right, agreeAt_lt_succ_iff, and_left_comm]
    · rw [List.length_cons, List.length_cons, Nat.add_right_cancel_iff, agreeAt_lt_succ_iff,
        and_left_comm]

theorem placeByPlace_cons_cons_iff (other : level ≠ "#") :
    PlaceByPlace (level :: filter) (t :: topic) ↔
      (level = "+" ∨ level = t) ∧ PlaceByPlace filter topic := by
  have final : (∀ i, (level :: filter)[i]? = some "#" → i + 1 = (level :: filter).length) ↔
      ∀ i, filter[i]? = some "#" → i + 1 = filter.length := by
    constructor
    · intro h i found
      simpa using h (i + 1) (by simpa using found)
    · intro h i found
      cases i with
      | zero => exact absurd (by simpa using found) other
      | succ i => simpa using h i (by simpa using found)
  constructor
  · rintro ⟨finalAll, places⟩
    obtain ⟨first, below⟩ := (placesAgree_cons_cons_iff other).mp places
    exact ⟨first, final.mp finalAll, below⟩
  · rintro ⟨first, finalBelow, below⟩
    exact ⟨final.mpr finalBelow, (placesAgree_cons_cons_iff other).mpr ⟨first, below⟩⟩

theorem ofText_eq_multi_iff : ofText level = multi ↔ level = "#" := by
  rw [ofText, Topic.singleWildcard, Topic.multiWildcard]
  split
  · next single => simp [single]
  · split <;> simp_all

/-- Only a final `#` agrees with no level at all. -/
theorem agreeAll_cons_nil {level : Level} {levels : List Level} :
    agreeAll (level :: levels) [] = true ↔ level = .multi ∧ levels = [] := by
  cases level <;> simp [agreeAll]

theorem agrees_ofText_iff (other : level ≠ "#") :
    (ofText level).agrees t = true ↔ level = "+" ∨ level = t := by
  rw [ofText, Topic.singleWildcard, Topic.multiWildcard, if_neg other]
  split
  · next single => simp [agrees, single]
  · next literal => simp [agrees, literal]

theorem agreeAll_cons_cons_of_ne {level : Level} {levels : List Level} (other : level ≠ .multi) :
    agreeAll (level :: levels) (t :: topic) = (level.agrees t && agreeAll levels topic) := by
  cases level with
  | multi => exact absurd rfl other
  | literal text => rfl
  | single => rfl

/-- The levels of a filter agree with those of a topic from the left just if they do place by
place. -/
theorem agreeAll_iff (filter topic : List String) :
    agreeAll (filter.map ofText) topic = true ↔ PlaceByPlace filter topic := by
  induction filter generalizing topic with
  | nil =>
    rw [placeByPlace_nil_iff]
    cases topic <;> simp [agreeAll]
  | cons level filter ih =>
    by_cases multi : level = "#"
    · subst multi
      rw [placeByPlace_multi_iff, List.map_cons, ofText_eq_multi_iff.mpr rfl]
      simp [agreeAll]
    · cases topic with
      | nil =>
        rw [List.map_cons, agreeAll_cons_nil, ofText_eq_multi_iff]
        exact iff_of_false (fun h => multi h.1) (not_placeByPlace_cons_nil multi)
      | cons t topic =>
        rw [placeByPlace_cons_cons_iff multi, ← ih, List.map_cons,
          agreeAll_cons_cons_of_ne (mt ofText_eq_multi_iff.mp multi), Bool.and_eq_true,
          agrees_ofText_iff multi]

theorem hides_iff (filter topic : List String) :
    hides (filter.map ofText) topic = true ↔ Hidden filter topic := by
  cases filter with
  | nil => simp [hides, Hidden]
  | cons level filter =>
    cases topic with
    | nil => simp [hides, Hidden]
    | cons t topic =>
      simp [hides, Hidden, isWildcard_ofText_iff, Topic.isSystem, Topic.singleWildcard,
        Topic.multiWildcard, Topic.systemMark, and_comm]

theorem cover_iff (filter topic : List String) :
    cover (filter.map ofText) topic = true ↔ ¬Hidden filter topic ∧ PlaceByPlace filter topic := by
  rw [cover, Bool.and_eq_true, agreeAll_iff, ← hides_iff]
  simp

/-- Without wildcards only equal lists agree place by place. -/
theorem eq_of_placeByPlace (literal : ∀ level ∈ filter, level ≠ "+" ∧ level ≠ "#")
    (agree : PlaceByPlace filter topic) : filter = topic := by
  have last : filter.getLast? ≠ some "#" := by
    intro found
    exact (literal "#" (List.mem_of_getLast? found)).2 rfl
  have places := agree.places
  rw [PlacesAgree, if_neg last] at places
  obtain ⟨length, same⟩ := places
  refine List.ext_getElem? fun i => ?_
  by_cases inside : i < filter.length
  · refine (same i inside).resolve_left ?_
    intro wildcard
    exact (literal "+" (List.mem_of_getElem? wildcard)).1 rfl
  · rw [List.getElem?_eq_none (by omega), List.getElem?_eq_none (by omega)]

end Places

end Level

section Texts

theorem Level.agreeAll_literal (ts : List String) : agreeAll (ts.map literal) ts = true := by
  induction ts with
  | nil => rfl
  | cons t ts ih => simp [agreeAll, agrees, ih]

/-- A valid topic name covers itself, which makes the short cut for equal texts safe. -/
theorem TopicName.cover_self {topic : String} (valid : fault? topic = none) :
    Level.cover (TopicFilter.split topic) (Topic.segments topic) = true := by
  rw [split_eq_map_literal valid, Level.cover, Level.agreeAll_literal, Bool.and_true]
  cases Topic.segments topic <;> rfl

/-- Between valid texts only the levels matter. -/
theorem TopicFilter.covers_eq_cover {filter topic : String}
    (validName : TopicName.fault? topic = none) (validFilter : fault? filter = none) :
    covers filter topic = Level.cover (split filter) (Topic.segments topic) := by
  rw [covers, TopicName.segments_eq_ok_iff.mpr ⟨validName, rfl⟩,
    levels_eq_ok_iff.mpr ⟨validFilter, rfl⟩]
  by_cases same : topic = filter
  · subst same
    simp [TopicName.cover_self validName]
  · simp [same]

/-- What covers a topic is a filter, and the topic is a topic name. -/
theorem TopicFilter.valid_of_covers {filter topic : String} (covered : covers filter topic = true) :
    TopicName.fault? topic = none ∧ fault? filter = none := by
  rw [covers] at covered
  split at covered
  · next hname hfilter =>
    exact ⟨(TopicName.segments_eq_ok_iff.mp hname).1, (levels_eq_ok_iff.mp hfilter).1⟩
  · cases covered

/-- Two lists of levels are compared place by place, valid or not, except that a topic of the system
namespace is hidden from a wildcard in the first place. Two texts are compared if they are a filter
and a topic name, and then by their levels: equal texts make no exception. A filter without
wildcards covers itself and nothing else. -/
theorem TopicFilter.covers_iff_placeByPlace :
    (∀ filter topic : List String, Level.cover (filter.map Level.ofText) topic = true ↔
      ¬Level.Hidden filter topic ∧ Level.PlaceByPlace filter topic) ∧
    ∀ filter topic : String,
      (covers filter topic = true ↔ TopicName.fault? topic = none ∧ fault? filter = none ∧
        ¬Level.Hidden (Topic.segments filter) (Topic.segments topic) ∧
          Level.PlaceByPlace (Topic.segments filter) (Topic.segments topic)) ∧
      (TopicName.fault? topic = none → fault? filter = none →
        covers filter topic = Level.cover (split filter) (Topic.segments topic)) ∧
      (fault? filter = none → (∀ level ∈ Topic.segments filter, level ≠ "+" ∧ level ≠ "#") →
        (covers filter topic = true ↔ topic = filter ∧ TopicName.fault? topic = none)) := by
  refine ⟨Level.cover_iff, fun filter topic => ⟨?_, covers_eq_cover, ?_⟩⟩
  · rw [← Level.cover_iff]
    constructor
    · intro covered
      obtain ⟨validName, validFilter⟩ := valid_of_covers covered
      rw [covers_eq_cover validName validFilter] at covered
      exact ⟨validName, validFilter, covered⟩
    · rintro ⟨validName, validFilter, covered⟩
      rw [covers_eq_cover validName validFilter]
      exact covered
  · intro validFilter literal
    constructor
    · intro covered
      obtain ⟨validName, -⟩ := valid_of_covers covered
      rw [covers_eq_cover validName validFilter] at covered
      have agree := (Level.cover_iff _ _).mp covered
      have same := Level.eq_of_placeByPlace literal agree.2
      exact ⟨Topic.segments_injective same.symm, validName⟩
    · rintro ⟨rfl, validName⟩
      rw [covers_eq_cover validName validFilter]
      exact TopicName.cover_self validName

end Texts

end TopicRegistry
