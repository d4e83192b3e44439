import TopicRegistry.Topic.Level

/-!
# Kinds of subscriptions

Queries are narrowed by a mask of three kinds. A subscription is `system` when its filter lies in
the system namespace, `shared` when it belongs to a share group and `nonShared` when it does not,
so a shared system subscription has two kinds. A mask admits it as soon as one of its kinds does.
-/

namespace TopicRegistry

structure KindMask where
  system : Bool
  shared : Bool
  nonShared : Bool
  deriving DecidableEq

namespace KindMask

def sys : KindMask := ⟨true, false, false⟩

def share : KindMask := ⟨false, true, false⟩

def plain : KindMask := ⟨false, false, true⟩

def all : KindMask := ⟨true, true, true⟩

def union (a b : KindMask) : KindMask :=
  ⟨a.system || b.system, a.shared || b.shared, a.nonShared || b.nonShared⟩

instance : Union KindMask := ⟨union⟩

/-- Whether every kind of the second mask is in the first. -/
def contains (a b : KindMask) : Bool :=
  a ∪ b = a

def isEmpty (mask : KindMask) : Bool :=
  mask = ⟨false, false, false⟩

/-- The mask as a number: bit 0 for `system`, bit 1 for `shared`, bit 2 for `nonShared`. -/
def bits (mask : KindMask) : Nat :=
  mask.system.toNat + 2 * mask.shared.toNat + 4 * mask.nonShared.toNat

def ofBits (bits : Nat) : KindMask :=
  ⟨bits.testBit 0, bits.testBit 1, bits.testBit 2⟩

def kindNames (mask : KindMask) : List String :=
  [(mask.system, "SYS"), (mask.shared, "SHARED"), (mask.nonShared, "NON_SHARED")].filterMap
    fun (present, kind) => if present then some kind else none

/-- The mask as it is shown in logs. -/
def describe (mask : KindMask) : String :=
  "SubscriptionType(" ++ String.intercalate " | " mask.kindNames ++ ")"

/-- Whether the mask selects a subscription with this share group and filter. -/
def admits (mask : KindMask) (share filter : String) : Bool :=
  (mask.system && Topic.isSystem filter) ||
    (mask.shared && share != "") || (mask.nonShared && share == "")

theorem ofBits_bits (mask : KindMask) : ofBits mask.bits = mask := by
  rcases mask with ⟨_ | _, _ | _, _ | _⟩ <;> rfl

theorem admits_union (a b : KindMask) (share filter : String) :
    (a ∪ b).admits share filter = (a.admits share filter || b.admits share filter) := by
  rcases a with ⟨_ | _, _ | _, _ | _⟩ <;> rcases b with ⟨_ | _, _ | _, _ | _⟩ <;>
    simp [admits, Union.union, union] <;> grind

end KindMask

end TopicRegistry
