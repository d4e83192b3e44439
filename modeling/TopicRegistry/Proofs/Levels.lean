import TopicRegistry.Topic.Filter
import TopicRegistry.Topic.Name

/-!
# Texts, level by level

A text is one level, or it is a level, a separator and another text. What is claimed of the levels
of a text is proved along this reading, a whole level at a time. The levels that come out are
determined by the text: they have no separator in them, and with separators between them they are
the text.
-/

namespace TopicRegistry

namespace Topic

/-- A claim holds of all texts if it holds of a single level and stays true when a level and a
separator are put in front. -/
theorem level_induction {P : List Char → Prop}
    (last : ∀ level, separator ∉ level → P level)
    (more : ∀ level rest, separator ∉ level → P rest → P (level ++ separator :: rest))
    (cs : List Char) : P cs := by
  by_cases cut : separator ∈ cs
  · obtain ⟨level, rest, parts, whole⟩ := List.eq_append_cons_of_mem cut
    have shorter : rest.length < cs.length := by
      rw [parts, List.length_append, List.length_cons]
      omega
    rw [parts]
    exact more level rest whole (level_induction last more rest)
  · exact last cs cut
termination_by cs.length

/-- One level more than there are separators. -/
theorem length_splitOn_separator (cs : List Char) :
    (cs.splitOn separator).length = cs.count separator + 1 := by
  induction cs using level_induction with
  | last level whole => simp [List.splitOn_eq_singleton whole, List.count_eq_zero_of_not_mem whole]
  | more level rest whole ih =>
    rw [List.splitOn_append_cons_self_of_not_mem whole, List.length_cons, ih, List.count_append,
      List.count_cons_self, List.count_eq_zero_of_not_mem whole, Nat.zero_add]

theorem length_segments (text : String) :
    (segments text).length = text.toList.count separator + 1 := by
  rw [segments, List.length_map, length_splitOn_separator]

theorem separator_not_mem_of_mem_splitOn {cs level : List Char}
    (there : level ∈ cs.splitOn separator) : separator ∉ level := by
  induction cs using level_induction with
  | last cs whole =>
    rw [List.splitOn_eq_singleton whole, List.mem_singleton] at there
    exact there ▸ whole
  | more first rest whole ih =>
    rw [List.splitOn_append_cons_self_of_not_mem whole] at there
    rcases List.mem_cons.mp there with rfl | later
    · exact whole
    · exact ih later

/-- Cutting a text loses no characters but separators, and makes none up. -/
theorem mem_iff_mem_splitOn {c : Char} (inside : c ≠ separator) (cs : List Char) :
    c ∈ cs ↔ ∃ level ∈ cs.splitOn separator, c ∈ level := by
  induction cs using level_induction with
  | last level whole => simp [List.splitOn_eq_singleton whole]
  | more level rest whole ih =>
    rw [List.splitOn_append_cons_self_of_not_mem whole, List.mem_append, List.mem_cons, ih]
    simp [inside]

/-- Levels into which a text is cut: what its separators leave between them. -/
structure CutInto (text : String) (levels : List String) : Prop where
  whole : ∀ level ∈ levels, separator ∉ level.toList
  joined : "/".intercalate levels = text
  number : levels.length = text.toList.count separator + 1

theorem cutInto_segments (text : String) : CutInto text (segments text) where
  whole level there := by
    obtain ⟨chars, cut, rfl⟩ := List.mem_map.mp there
    rw [String.toList_ofList]
    exact separator_not_mem_of_mem_splitOn cut
  joined := by
    apply String.toList_injective
    have texts : (segments text).map String.toList = text.toList.splitOn separator := by
      simp [segments]
    rw [String.toList_intercalate, texts]
    exact List.intercalate_splitOn separator
  number := length_segments text

theorem segments_injective {text other : String} (same : segments text = segments other) :
    text = other := by
  rw [← (cutInto_segments text).joined, same, (cutInto_segments other).joined]

end Topic

/-- A level is a wildcard if it is one of the two texts. -/
theorem Level.isWildcard_ofText_iff (level : String) :
    (ofText level).isWildcard = true ↔
      level = Topic.singleWildcard ∨ level = Topic.multiWildcard := by
  rw [ofText]
  by_cases single : level = Topic.singleWildcard
  · simp [single, isWildcard]
  · rw [if_neg single]
    by_cases multi : level = Topic.multiWildcard
    · simp [multi, isWildcard]
    · simp [single, multi, isWildcard]

/-- None of the levels is the text of a wildcard. -/
def Topic.Plain (topic : List String) : Prop :=
  ∀ level ∈ topic, Level.ofText level = .literal level

/-- A wildcard character is allowed nowhere in a topic name, so it is no level of one either. -/
theorem TopicName.plain_segments {topic : String} (valid : fault? topic = none) :
    Topic.Plain (Topic.segments topic) := by
  obtain ⟨-, -, -, ⟨single, multi⟩, -⟩ := fault?_eq_none_iff.mp valid
  intro segment hsegment
  obtain ⟨level, hlevel, rfl⟩ := List.mem_map.mp hsegment
  have notSingle : String.ofList level ≠ Topic.singleWildcard := by
    intro h
    have chars : level = ['+'] := by simpa [Topic.singleWildcard] using congrArg String.toList h
    exact single ((Topic.mem_iff_mem_splitOn (by decide) _).mpr ⟨level, hlevel, by simp [chars]⟩)
  have notMulti : String.ofList level ≠ Topic.multiWildcard := by
    intro h
    have chars : level = ['#'] := by simpa [Topic.multiWildcard] using congrArg String.toList h
    exact multi ((Topic.mem_iff_mem_splitOn (by decide) _).mpr ⟨level, hlevel, by simp [chars]⟩)
  rw [Level.ofText, if_neg notSingle, if_neg notMulti]

/-- Read as a filter, a valid topic name has literal levels only. -/
theorem TopicName.split_eq_map_literal {topic : String} (valid : fault? topic = none) :
    TopicFilter.split topic = (Topic.segments topic).map Level.literal :=
  List.map_congr_left (plain_segments valid)

end TopicRegistry
