/-!
# Levels of topic names and topic filters

Names and filters are texts cut into levels at every `/`, empty levels included, so a text with
`n` separators has `n + 1` levels. In a filter a level that is exactly `+` stands for any one
level and a level that is exactly `#` for any number of them; every other level is literal.
-/

namespace TopicRegistry

namespace Topic

def separator : Char := '/'

def singleWildcard : String := "+"

/-- The level that stands for its parent and everything below. -/
def multiWildcard : String := "#"

def systemMark : Char := '$'

/-- The most bytes a text may have in its UTF-8 form. -/
def maxBytes : Nat := 65535

/-- The largest bound on the number of levels that a configuration may ask for. -/
def maxLevels : Nat := (maxBytes + 1) / 2

/-- The levels of a text, in order and with the empty ones. -/
def segments (text : String) : List String :=
  (text.toList.splitOn separator).map String.ofList

def isSystem (text : String) : Bool :=
  text.toList.head? == some systemMark

theorem segments_ne_nil (text : String) : segments text ≠ [] := by
  simp [segments, List.splitOn_ne_nil]

end Topic

inductive Level where
  | literal (text : String)
  | single
  | multi
  deriving DecidableEq

namespace Level

/-- Read a level: only the exact texts `+` and `#` are wildcards. -/
def ofText (text : String) : Level :=
  if text = Topic.singleWildcard then single
  else if text = Topic.multiWildcard then multi
  else literal text

def text : Level → String
  | literal text => text
  | single => Topic.singleWildcard
  | multi => Topic.multiWildcard

def isWildcard : Level → Bool
  | literal _ => false
  | single | multi => true

@[simp] theorem text_ofText (t : String) : (ofText t).text = t := by
  rw [ofText]
  split
  · next h => exact h.symm
  · split
    · next h => exact h.symm
    · rfl

theorem ofText_injective {s t : String} (h : ofText s = ofText t) : s = t := by
  have := congrArg text h
  simpa using this

end Level

end TopicRegistry
