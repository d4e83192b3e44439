import TopicRegistry.Document

/-!
# Counters

A tally counts the subscriptions that were ever added and those that are held now. Both are
64-bit words: the first wraps after `2 ^ 64` additions, the second stops at zero when more is
taken away than is there. A document about a tally has to set both.
-/

namespace TopicRegistry

/-- How many subscriptions were added, and how many of them are held. -/
structure Tally where
  total : UInt64 := 0
  current : UInt64 := 0
  deriving DecidableEq

namespace Tally

def add (tally : Tally) : Tally :=
  ⟨tally.total + 1, tally.current + 1⟩

def remove (tally : Tally) (count : UInt64) : Tally :=
  { tally with current := if count ≤ tally.current then tally.current - count else 0 }

theorem total_remove (tally : Tally) (count : UInt64) :
    (tally.remove count).total = tally.total := rfl

theorem toNat_current_remove (tally : Tally) (count : UInt64) :
    (tally.remove count).current.toNat = tally.current.toNat - count.toNat := by
  rw [remove]
  by_cases h : count ≤ tally.current
  · simp [h, UInt64.toNat_sub_of_le _ _ h]
  · have hlt : tally.current.toNat < count.toNat :=
      Nat.lt_of_not_le fun hle => h (UInt64.le_iff_toNat_le.mpr hle)
    simp [h]
    omega

inductive Field where
  | total
  | current
  deriving DecidableEq

namespace Field

def name : Field → String
  | total => "subscriptions_total"
  | current => "subscriptions_current"

end Field

def schema : Schema where
  Field := Field
  all := [.total, .current]
  name := Field.name
  kind _ := .count
  mem_all field := by cases field <;> decide
  nodup_all := by decide
  name_injective a b same := by cases a <;> cases b <;> first | rfl | simp [Field.name] at same

def get (tally : Tally) : Field → UInt64
  | .total => tally.total
  | .current => tally.current

def ofRecord (record : Field → UInt64) : Tally where
  total := record .total
  current := record .current

def ofJson (documents : Documents) (text : String) : Except String Tally :=
  (documents.record schema none (documents.json text)).map ofRecord

def toJson (documents : Documents) (tally : Tally) : String :=
  documents.write schema tally.get

end Tally

end TopicRegistry
