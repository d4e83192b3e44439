import TopicRegistry.Proofs.Levels
import TopicRegistry.Topic.Target

/-!
# The grammar of filters

`wildcardFault?` goes through the levels of a text and looks into each of them. The grammar speaks
of the characters of the text instead: where a `#` or a `+` stands, a level has to begin, and it
has to be over right after it, with the whole text in the case of `#`. A text has the grammar just
if no level of it has a fault, and then its wildcard levels are just those characters.
-/

namespace TopicRegistry

namespace Topic

def LevelStart (before : List Char) : Prop :=
  before = [] ∨ before.getLast? = some separator

def LevelEnd (after : List Char) : Prop :=
  after = [] ∨ after.head? = some separator

/-- Wherever the character stands, a level begins, and the text after it is as it should be. -/
def Placed (c : Char) (ending : List Char → Prop) (cs : List Char) : Prop :=
  ∀ before after, cs = before ++ c :: after → LevelStart before ∧ ending after

end Topic

/-- What a text has to be like to be a filter, character by character. -/
structure TopicFilter.Grammatical (filter : String) : Prop where
  filled : filter ≠ ""
  bounded : filter.utf8ByteSize ≤ 65535
  clean : '\x00' ∉ filter.toList
  /-- Every `#` is the whole last level. -/
  multi : Topic.Placed '#' (· = []) filter.toList
  /-- Every `+` is a whole level. -/
  single : Topic.Placed '+' Topic.LevelEnd filter.toList

structure TopicName.Grammatical (topic : String) : Prop where
  filled : topic ≠ ""
  bounded : topic.utf8ByteSize ≤ 65535
  clean : '\x00' ∉ topic.toList
  literal : '+' ∉ topic.toList ∧ '#' ∉ topic.toList
  unshared : ¬"$share/".toList <+: topic.toList

namespace Topic

section Places

variable {c : Char} {level rest before after : List Char}

/-- Nothing but the beginning of a level lies before its first character. -/
theorem levelStart_iff (whole : separator ∉ level) (here : level = before ++ after) :
    LevelStart before ↔ before = [] := by
  refine or_iff_left ?_
  intro last
  exact whole (here ▸ List.mem_append_left after (List.mem_of_getLast? last))

/-- The rest of a level has no separator either. -/
theorem not_mem_of_parts (whole : separator ∉ level) (parts : level = before ++ c :: after) :
    separator ∉ after := by
  intro there
  exact whole (parts ▸ List.mem_append_right before (List.mem_cons_of_mem c there))

theorem levelStart_append_iff : LevelStart (level ++ separator :: before) ↔ LevelStart before := by
  cases before with
  | nil => simp [LevelStart]
  | cons c cs => simp [LevelStart, List.getLast?_append]

theorem levelEnd_iff (whole : separator ∉ after) : LevelEnd after ↔ after = [] := by
  refine or_iff_left ?_
  intro first
  exact whole (List.mem_of_head? first)

theorem levelEnd_append_iff (whole : separator ∉ after) :
    LevelEnd (after ++ separator :: rest) ↔ after = [] := by
  cases after with
  | nil => simp [LevelEnd]
  | cons c cs =>
    have other : c ≠ separator := fun same => whole (same ▸ List.mem_cons_self)
    simp [LevelEnd, other]

/-- Nothing stands before or after a character, wherever it is in a level, just if it is the
whole level or not there. -/
theorem alone_iff :
    (∀ before after, level = before ++ c :: after → before = [] ∧ after = []) ↔
      (c ∈ level → level = [c]) := by
  constructor
  · intro alone there
    obtain ⟨before, after, parts⟩ := List.append_of_mem there
    obtain ⟨rfl, rfl⟩ := alone before after parts
    exact parts
  · intro alone before after parts
    have single := alone (parts ▸ List.mem_append_right before List.mem_cons_self)
    rw [parts] at single
    simpa [List.append_eq_singleton_iff] using single

/-- A character other than the separator stands in the first level or after it. -/
theorem append_separator_eq_iff (inside : c ≠ separator) :
    level ++ separator :: rest = before ++ c :: after ↔
      (∃ tail, level = before ++ c :: tail ∧ after = tail ++ separator :: rest) ∨
        ∃ front, before = level ++ separator :: front ∧ rest = front ++ c :: after := by
  constructor
  · intro parts
    rcases List.append_eq_append_iff.mp parts with ⟨front, rfl, found⟩ | ⟨tail, rfl, found⟩
    · cases front with
      | nil =>
        obtain ⟨same, -⟩ := List.cons.inj found
        exact absurd same.symm inside
      | cons d front =>
        obtain ⟨rfl, rfl⟩ := List.cons.inj found
        exact Or.inr ⟨front, rfl, rfl⟩
    · cases tail with
      | nil =>
        obtain ⟨same, -⟩ := List.cons.inj found
        exact absurd same inside
      | cons d tail =>
        obtain ⟨rfl, rfl⟩ := List.cons.inj found
        exact Or.inl ⟨tail, rfl, rfl⟩
  · rintro (⟨tail, rfl, rfl⟩ | ⟨front, rfl, rfl⟩) <;> simp

end Places

section Placed

variable {level rest : List Char}

/-- In a text of more than one level a character stands in the first level or after it. -/
theorem placed_append_iff {c : Char} (inside : c ≠ separator) (ending : List Char → Prop) :
    Placed c ending (level ++ separator :: rest) ↔
      (∀ before tail, level = before ++ c :: tail →
        LevelStart before ∧ ending (tail ++ separator :: rest)) ∧ Placed c ending rest := by
  constructor
  · intro placed
    refine ⟨?_, ?_⟩
    · rintro before tail rfl
      exact placed before (tail ++ separator :: rest) (by simp)
    · rintro front after rfl
      obtain ⟨starts, ends⟩ := placed (level ++ separator :: front) after (by simp)
      exact ⟨levelStart_append_iff.mp starts, ends⟩
  · rintro ⟨first, later⟩ before after parts
    rcases (append_separator_eq_iff inside).mp parts with ⟨tail, found, rfl⟩ | ⟨front, rfl, found⟩
    · exact first before tail found
    · obtain ⟨starts, ends⟩ := later front after found
      exact ⟨levelStart_append_iff.mpr starts, ends⟩

theorem multiPlaced_level_iff (whole : separator ∉ level) :
    Placed '#' (· = []) level ↔ ('#' ∈ level → level = ['#']) := by
  rw [← alone_iff, Placed]
  refine forall₃_congr fun before after parts => ?_
  rw [levelStart_iff whole parts]

theorem singlePlaced_level_iff (whole : separator ∉ level) :
    Placed '+' LevelEnd level ↔ ('+' ∈ level → level = ['+']) := by
  rw [← alone_iff, Placed]
  refine forall₃_congr fun before after parts => ?_
  rw [levelStart_iff whole parts, levelEnd_iff (not_mem_of_parts whole parts)]

/-- Before another level there is no `#`. -/
theorem multiPlaced_append_iff :
    Placed '#' (· = []) (level ++ separator :: rest) ↔
      '#' ∉ level ∧ Placed '#' (· = []) rest := by
  rw [placed_append_iff (by decide)]
  refine and_congr_left fun _ => ?_
  constructor
  · intro placed there
    obtain ⟨before, tail, parts⟩ := List.append_of_mem there
    have ends := (placed before tail parts).2
    simp at ends
  · rintro absent before tail rfl
    exact absurd (List.mem_append_right before List.mem_cons_self) absent

theorem singlePlaced_append_iff (whole : separator ∉ level) :
    Placed '+' LevelEnd (level ++ separator :: rest) ↔
      ('+' ∈ level → level = ['+']) ∧ Placed '+' LevelEnd rest := by
  rw [placed_append_iff (by decide), ← alone_iff]
  refine and_congr_left fun _ => forall₃_congr fun before tail parts => ?_
  rw [levelStart_iff whole parts, levelEnd_append_iff (not_mem_of_parts whole parts)]

end Placed

end Topic

namespace TopicFilter

open Topic

section Faults

variable {level : List Char}

/-- A text is one of the two wildcards if its only character is. -/
theorem ofList_eq_wildcard_iff (level : List Char) :
    (String.ofList level = multiWildcard ↔ level = ['#']) ∧
      (String.ofList level = singleWildcard ↔ level = ['+']) := by
  have chars : multiWildcard = String.ofList ['#'] ∧ singleWildcard = String.ofList ['+'] := by
    decide
  rw [chars.1, chars.2, String.ofList_inj, String.ofList_inj]
  exact ⟨Iff.rfl, Iff.rfl⟩

/-- A level has no fault if each wildcard character in it is the whole level, with nothing to
follow in the case of `#`, and the levels after it have no fault. -/
theorem wildcardFault?_cons_eq_none_iff {rest : List String} :
    wildcardFault? (String.ofList level :: rest) = none ↔
      ('#' ∈ level → level = ['#'] ∧ rest = []) ∧ ('+' ∈ level → level = ['+']) ∧
        wildcardFault? rest = none := by
  obtain ⟨multi, single⟩ := ofList_eq_wildcard_iff level
  rw [wildcardFault?, refuse_eq_none_iff, refuse_eq_none_iff, String.toList_ofList]
  simp only [Ne, multi, single, not_and, not_or, Decidable.not_not]

/-- The levels of a text have no fault just if its wildcard characters are where they belong. -/
theorem wildcardFault?_splitOn_eq_none_iff (cs : List Char) :
    wildcardFault? ((cs.splitOn separator).map String.ofList) = none ↔
      Placed '#' (· = []) cs ∧ Placed '+' LevelEnd cs := by
  induction cs using level_induction with
  | last level whole =>
    rw [List.splitOn_eq_singleton whole, List.map_singleton, wildcardFault?_cons_eq_none_iff,
      multiPlaced_level_iff whole, singlePlaced_level_iff whole]
    simp [wildcardFault?]
  | more level rest whole ih =>
    have follows : (rest.splitOn separator).map String.ofList ≠ [] := by
      simp
    rw [List.splitOn_append_cons_self_of_not_mem whole, List.map_cons,
      wildcardFault?_cons_eq_none_iff, ih, multiPlaced_append_iff, singlePlaced_append_iff whole]
    simp only [follows, and_false, imp_false]
    exact ⟨fun ⟨absent, alone, multi, single⟩ => ⟨⟨absent, multi⟩, alone, single⟩,
      fun ⟨⟨absent, multi⟩, alone, single⟩ => ⟨absent, alone, multi, single⟩⟩

/-- In levels without a fault a wildcard character is a level of its own. -/
theorem alone_of_wildcardFault? {levels : List (List Char)}
    (faultless : wildcardFault? (levels.map String.ofList) = none) :
    ∀ level ∈ levels, ('#' ∈ level → level = ['#']) ∧ ('+' ∈ level → level = ['+']) := by
  induction levels with
  | nil => simp
  | cons first levels ih =>
    obtain ⟨multi, single, others⟩ := wildcardFault?_cons_eq_none_iff.mp faultless
    intro level there
    rcases List.mem_cons.mp there with rfl | later
    · exact ⟨fun found => (multi found).1, single⟩
    · exact ih others level later

/-- A filter has a wildcard level just if it has a wildcard character. -/
theorem any_isWildcard_split_iff {filter : String} (valid : fault? filter = none) :
    (split filter).any Level.isWildcard = true ↔ '+' ∈ filter.toList ∨ '#' ∈ filter.toList := by
  have alone := alone_of_wildcardFault? (fault?_eq_none_iff.mp valid).2.2.2
  rw [mem_iff_mem_splitOn (c := '+') (by decide), mem_iff_mem_splitOn (c := '#') (by decide),
    ← exists_or]
  simp only [split, segments, List.any_map, List.any_eq_true, Function.comp_apply,
    Level.isWildcard_ofText_iff, ofList_eq_wildcard_iff]
  refine exists_congr fun level => ?_
  rw [← and_or_left]
  refine and_congr_right fun there => ?_
  obtain ⟨multi, single⟩ := alone level there
  constructor
  · rintro (rfl | rfl) <;> simp
  · rintro (found | found)
    · exact Or.inl (single found)
    · exact Or.inr (multi found)

end Faults

/-- A text without a fault has the grammar, and the other way round. -/
theorem fault?_eq_none_iff_grammatical {filter : String} :
    fault? filter = none ↔ Grammatical filter := by
  rw [fault?_eq_none_iff, segments, wildcardFault?_splitOn_eq_none_iff]
  constructor
  · rintro ⟨filled, bounded, clean, multi, single⟩
    exact ⟨filled, bounded, clean, multi, single⟩
  · rintro ⟨filled, bounded, clean, multi, single⟩
    exact ⟨filled, bounded, clean, multi, single⟩

end TopicFilter

section Names

theorem TopicName.fault?_eq_none_iff_grammatical {topic : String} :
    fault? topic = none ↔ Grammatical topic := by
  rw [fault?_eq_none_iff]
  constructor
  · rintro ⟨filled, bounded, clean, literal, unshared⟩
    exact ⟨filled, bounded, clean, literal, unshared⟩
  · rintro ⟨filled, bounded, clean, literal, unshared⟩
    exact ⟨filled, bounded, clean, literal, unshared⟩

/-- A topic name has no wildcard character that could be in the wrong place. -/
theorem TopicName.Grammatical.filter {topic : String} (grammatical : Grammatical topic) :
    TopicFilter.Grammatical topic where
  filled := grammatical.filled
  bounded := grammatical.bounded
  clean := grammatical.clean
  multi before _ parts :=
    absurd (parts ▸ List.mem_append_right before List.mem_cons_self) grammatical.literal.2
  single before _ parts :=
    absurd (parts ▸ List.mem_append_right before List.mem_cons_self) grammatical.literal.1

end Names

/-- A text is read as a filter, and as a topic name, just if it has the grammar of one. What is read
is what the separators cut the text into. The wildcard levels of a filter are its wildcard
characters. A topic name is also read as a filter, with the same levels, and these are literal. -/
theorem Topic.read_iff_grammatical (text : String) :
    ((∃ levels, TopicFilter.levels text = .ok levels) ↔ TopicFilter.Grammatical text) ∧
    (∀ levels, TopicFilter.levels text = .ok levels →
      CutInto text (levels.map Level.text) ∧
      ∀ parsed : ParsedName, parsed.levels = levels →
        (parsed.hasWildcards = true ↔ '+' ∈ text.toList ∨ '#' ∈ text.toList)) ∧
    ((∃ names, TopicName.segments text = .ok names) ↔ TopicName.Grammatical text) ∧
    ∀ names, TopicName.segments text = .ok names →
      CutInto text names ∧ TopicFilter.levels text = .ok (names.map Level.literal) := by
  refine ⟨?_, ?_, ?_, ?_⟩
  · simp only [TopicFilter.levels_eq_ok_iff, exists_and_left, exists_eq, and_true]
    exact TopicFilter.fault?_eq_none_iff_grammatical
  · intro levels read
    obtain ⟨valid, rfl⟩ := TopicFilter.levels_eq_ok_iff.mp read
    rw [TopicFilter.map_text_split]
    refine ⟨cutInto_segments text, ?_⟩
    intro parsed same
    rw [ParsedName.hasWildcards, same]
    exact TopicFilter.any_isWildcard_split_iff valid
  · simp only [TopicName.segments_eq_ok_iff, exists_and_left, exists_eq, and_true]
    exact TopicName.fault?_eq_none_iff_grammatical
  · intro names read
    obtain ⟨valid, rfl⟩ := TopicName.segments_eq_ok_iff.mp read
    refine ⟨cutInto_segments text, ?_⟩
    rw [← TopicName.split_eq_map_literal valid]
    have grammatical := TopicName.fault?_eq_none_iff_grammatical.mp valid
    exact TopicFilter.levels_eq_ok_iff.mpr
      ⟨TopicFilter.fault?_eq_none_iff_grammatical.mpr grammatical.filter, rfl⟩

end TopicRegistry
