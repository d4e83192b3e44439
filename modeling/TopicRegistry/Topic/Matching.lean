import TopicRegistry.Topic.Filter
import TopicRegistry.Topic.Name

/-!
# Which topics a filter covers

Levels are compared from the left: `+` agrees with any one level, a literal level with itself,
and a final `#` with whatever is left, nothing included. Topics of the system namespace are
hidden from filters that begin with a wildcard. `TopicFilter.covers` judges two texts and is
false as soon as one of them is not valid.
-/

namespace TopicRegistry

def Level.agrees : Level → String → Bool
  | literal text, level => text == level
  | single, _ => true
  | multi, _ => false

namespace Level

def agreeAll : List Level → List String → Bool
  | [], [] => true
  | multi :: rest, _ => rest.isEmpty
  | [], _ :: _ => false
  | _ :: _, [] => false
  | level :: levels, t :: ts => level.agrees t && agreeAll levels ts

/-- Whether a topic of the system namespace is hidden from a filter that begins with a wildcard. -/
def hides : List Level → List String → Bool
  | level :: _, t :: _ => level.isWildcard && Topic.isSystem t
  | _, _ => false

def cover (filter : List Level) (topic : List String) : Bool :=
  !hides filter topic && agreeAll filter topic

end Level

/-- Whether a filter covers a topic; no text that is not a filter, or no topic name, does. -/
def TopicFilter.covers (filter topic : String) : Bool :=
  match TopicName.segments topic, TopicFilter.levels filter with
  | .ok ts, .ok levels => topic == filter || Level.cover levels ts
  | _, _ => false

example : TopicFilter.covers "sport/+/#" "sport/tennis" = true := by decide
example : TopicFilter.covers "sport/+/#" "sport" = false := by decide
example : TopicFilter.covers "#" "$SYS/uptime" = false := by decide
example : TopicFilter.covers "$SYS/#" "$SYS" = true := by decide

end TopicRegistry
