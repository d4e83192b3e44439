import TopicRegistry.Error
import TopicRegistry.Topic.Level

/-!
# Topic filters

A filter is a non-empty text of bounded size without a null character in which `#` is a whole
level and the last one, and `+` is a whole level. `fault?` finds the first rule that a text
breaks, in that order and level by level from the left; `levels` reads the levels of a text that
breaks none.
-/

namespace TopicRegistry.TopicFilter

/-- What can be wrong with a filter or with the share group in front of it. -/
inductive Fault where
  | empty
  | tooLong
  | nullCharacter
  | multiLevelWildcard
  | singleLevelWildcard
  | tooManyLevels (max : UInt64)
  | missingFilter
  | badShareGroup
  | emptyShareGroup
  | reservedInShareGroup
  | embeddedShareGroup
  deriving DecidableEq

def Fault.reason : Fault → String
  | empty => "empty filter"
  | tooLong => "filter too long"
  | nullCharacter => "null character not allowed"
  | multiLevelWildcard => "invalid multi-level wildcard usage"
  | singleLevelWildcard => "invalid single-level wildcard usage"
  | tooManyLevels max => "more than " ++ toString max.toNat ++ " levels"
  | missingFilter => "shared subscription without topic filter"
  | badShareGroup => "invalid share name"
  | emptyShareGroup => "empty share name"
  | reservedInShareGroup => "share name must not contain '/', '+' or '#'"
  | embeddedShareGroup => "share prefix inside topic filter"

def Fault.on (fault : Fault) (text : String) : RegistryError :=
  .invalidFilter (text ++ ": " ++ fault.reason)

/-- The levels of a text, whether it is a valid filter or not. -/
def split (filter : String) : List Level :=
  (Topic.segments filter).map Level.ofText

/-- Written out, the levels of a text are its segments. -/
theorem map_text_split (filter : String) :
    (split filter).map Level.text = Topic.segments filter := by
  rw [split, List.map_map]
  exact (List.map_congr_left fun t _ => Level.text_ofText t).trans (List.map_id _)

/-- The first misplaced wildcard among the levels of a filter. -/
def wildcardFault? : List String → Option Fault
  | [] => none
  | level :: rest =>
    if '#' ∈ level.toList ∧ (level ≠ Topic.multiWildcard ∨ rest ≠ []) then some .multiLevelWildcard
    else if '+' ∈ level.toList ∧ level ≠ Topic.singleWildcard then some .singleLevelWildcard
    else wildcardFault? rest

/-- The first rule of filters that a text breaks. -/
def fault? (filter : String) : Option Fault :=
  if filter = "" then some .empty
  else if Topic.maxBytes < filter.utf8ByteSize then some .tooLong
  else if '\x00' ∈ filter.toList then some .nullCharacter
  else wildcardFault? (Topic.segments filter)

/-- A text is a filter if it breaks no rule. -/
theorem fault?_eq_none_iff {filter : String} :
    fault? filter = none ↔
      filter ≠ "" ∧ filter.utf8ByteSize ≤ Topic.maxBytes ∧ '\x00' ∉ filter.toList ∧
        wildcardFault? (Topic.segments filter) = none := by
  rw [fault?, refuse_eq_none_iff, refuse_eq_none_iff, refuse_eq_none_iff, Nat.not_lt]

def levels (filter : String) : Except RegistryError (List Level) :=
  match fault? filter with
  | some fault => .error (fault.on filter)
  | none => .ok (split filter)

theorem levels_eq_ok_iff {filter : String} {ls : List Level} :
    levels filter = .ok ls ↔ fault? filter = none ∧ ls = split filter := by
  rw [levels]
  split
  · next h => simp [h]
  · next h => simp [h, eq_comm]

/-- A text that is no filter is refused as one. -/
theorem invalidFilter_of_levels {filter : String} {e : RegistryError}
    (refused : levels filter = .error e) : ∃ detail, e = .invalidFilter detail := by
  rw [levels] at refused
  split at refused
  · cases refused
    exact ⟨_, rfl⟩
  · cases refused

end TopicRegistry.TopicFilter
