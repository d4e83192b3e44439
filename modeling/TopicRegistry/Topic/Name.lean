import TopicRegistry.Error
import TopicRegistry.Topic.Level

/-!
# Topic names

A topic name is what a message is published to: a non-empty text of bounded size without a null
character, without wildcard characters anywhere, and not under the prefix that marks share groups.
-/

namespace TopicRegistry

def Topic.sharePrefix : String := "$share/"

namespace TopicName

/-- What can be wrong with a topic name. -/
inductive Fault where
  | empty
  | tooLong
  | nullCharacter
  | wildcard
  | sharePrefix
  deriving DecidableEq

def Fault.reason : Fault → String
  | empty => "empty topic"
  | tooLong => "topic too long"
  | nullCharacter => "null character not allowed"
  | wildcard => "wildcards not allowed in topic names"
  | sharePrefix => "shared subscription prefix not allowed in topic names"

def Fault.on (fault : Fault) (text : String) : RegistryError :=
  .invalidName (text ++ ": " ++ fault.reason)

def fault? (topic : String) : Option Fault :=
  if topic = "" then some .empty
  else if Topic.maxBytes < topic.utf8ByteSize then some .tooLong
  else if '\x00' ∈ topic.toList then some .nullCharacter
  else if '+' ∈ topic.toList ∨ '#' ∈ topic.toList then some .wildcard
  else if Topic.sharePrefix.toList.isPrefixOf topic.toList then some .sharePrefix
  else none

/-- A text is a topic name if it breaks no rule. -/
theorem fault?_eq_none_iff {topic : String} :
    fault? topic = none ↔
      topic ≠ "" ∧ topic.utf8ByteSize ≤ Topic.maxBytes ∧ '\x00' ∉ topic.toList ∧
        ('+' ∉ topic.toList ∧ '#' ∉ topic.toList) ∧
          ¬Topic.sharePrefix.toList <+: topic.toList := by
  rw [fault?, refuse_eq_none_iff, refuse_eq_none_iff, refuse_eq_none_iff, refuse_eq_none_iff,
    refuse_eq_none_iff, Nat.not_lt, not_or, List.isPrefixOf_iff_prefix]
  simp

def check (topic : String) : Except RegistryError Unit :=
  match fault? topic with
  | some fault => .error (fault.on topic)
  | none => .ok ()

def segments (topic : String) : Except RegistryError (List String) :=
  match fault? topic with
  | some fault => .error (fault.on topic)
  | none => .ok (Topic.segments topic)

theorem segments_eq_ok_iff {topic : String} {ts : List String} :
    segments topic = .ok ts ↔ fault? topic = none ∧ ts = Topic.segments topic := by
  rw [segments]
  split
  · next h => simp [h]
  · next h => simp [h, eq_comm]

/-- A text that is no topic name is refused as one. -/
theorem invalidName_of_segments {topic : String} {e : RegistryError}
    (refused : segments topic = .error e) : ∃ detail, e = .invalidName detail := by
  rw [segments] at refused
  split at refused
  · cases refused
    exact ⟨_, rfl⟩
  · cases refused

end TopicName

end TopicRegistry
