/-!
# Reading texts

What the readers of different formats share. A text is cut into tokens by reading it once,
character by character. All that is known of the characters so far is a position; a character
completes some tokens, often none, and leads to the next position, or cannot stand where it does.
Scanning a text that is put together from two parts is scanning the one and then, from where that
ended, the other.
-/

namespace TopicRegistry.Text

inductive Bracket where
  | square
  | curly
  deriving DecidableEq

def digit? (base : Nat) (c : Char) : Option Nat :=
  let value :=
    if '0' ≤ c ∧ c ≤ '9' then c.toNat - '0'.toNat
    else if 'a' ≤ c ∧ c ≤ 'f' then c.toNat - 'a'.toNat + 10
    else if 'A' ≤ c ∧ c ≤ 'F' then c.toNat - 'A'.toNat + 10
    else base
  if value < base then some value else none

/-- The number spelled by digits of a base. -/
def number? (base : Nat) (digits : List Char) : Option Nat :=
  digits.foldlM (fun n c => (digit? base c).map (base * n + ·)) 0

variable {π τ : Type}

/-- The tokens that a text completes from a position on, and the position after it. -/
def scan (advance : π → Char → Option (List τ × π)) : π → List Char → Option (List τ × π)
  | position, [] => some ([], position)
  | position, c :: cs =>
    match advance position c with
    | none => none
    | some (tokens, next) =>
      (scan advance next cs).map fun (more, last) => (tokens ++ more, last)

@[simp] theorem scan_nil (advance : π → Char → Option (List τ × π)) (position : π) :
    scan advance position [] = some ([], position) := rfl

theorem scan_append (advance : π → Char → Option (List τ × π)) (position : π)
    (cs ds : List Char) :
    scan advance position (cs ++ ds) =
      (scan advance position cs).bind fun (tokens, next) =>
        (scan advance next ds).map fun (more, last) => (tokens ++ more, last) := by
  induction cs generalizing position with
  | nil => simp
  | cons c cs ih =>
    rw [List.cons_append, scan, scan]
    cases h : advance position c with
    | none => rfl
    | some step =>
      obtain ⟨tokens, next⟩ := step
      simp only [ih, Option.map_bind, Option.bind_map]
      congr 1
      funext result
      simp [Function.comp_def, List.append_assoc]

end TopicRegistry.Text
