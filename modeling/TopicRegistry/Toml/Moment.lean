/-!
# Dates and times of TOML

A date is `yyyy-mm-dd` and a time `hh:mm`, with seconds and a fraction of them if wanted. The two
together, with a `T` between them, may have an offset from universal time. Dates must exist in
the calendar and times on a clock, where a leap second counts as second sixty.
-/

namespace TopicRegistry.Toml

/-- The number of some digits of fixed count at the beginning of a word, and the rest. -/
def fixedDigits? (count : Nat) (word : List Char) : Option (Nat × List Char) :=
  let digits := word.take count
  if digits.length = count ∧ digits.all Char.isDigit then
    some (Nat.ofDigitChars 10 digits 0, word.drop count)
  else none

def after? (c : Char) : List Char → Option (List Char)
  | [] => none
  | d :: cs => if d = c then some cs else none

def isLeapYear (year : Nat) : Bool :=
  year % 4 == 0 && (year % 100 != 0 || year % 400 == 0)

def daysIn (year month : Nat) : Nat :=
  if month = 2 then (if isLeapYear year then 29 else 28)
  else if month = 4 ∨ month = 6 ∨ month = 9 ∨ month = 11 then 30
  else 31

def afterDate? (word : List Char) : Option (List Char) := do
  let (year, cs) ← fixedDigits? 4 word
  let cs ← after? '-' cs
  let (month, cs) ← fixedDigits? 2 cs
  let cs ← after? '-' cs
  let (day, cs) ← fixedDigits? 2 cs
  if 1 ≤ month ∧ month ≤ 12 ∧ 1 ≤ day ∧ day ≤ daysIn year month then some cs else none

/-- What follows the hour and the minute at the beginning of a word. -/
def afterClock? (word : List Char) : Option (List Char) := do
  let (hour, cs) ← fixedDigits? 2 word
  let cs ← after? ':' cs
  let (minute, cs) ← fixedDigits? 2 cs
  if hour ≤ 23 ∧ minute ≤ 59 then some cs else none

def afterSeconds? : List Char → Option (List Char)
  | ':' :: cs => do
    let (second, cs) ← fixedDigits? 2 cs
    if 60 < second then none
    else match cs with
      | '.' :: fraction =>
        if (fraction.takeWhile Char.isDigit).isEmpty then none
        else some (fraction.dropWhile Char.isDigit)
      | cs => some cs
  | cs => some cs

def afterTime? (word : List Char) : Option (List Char) :=
  (afterClock? word).bind afterSeconds?

/-- Whether a word is an offset from universal time, or empty. -/
def isOffset : List Char → Bool
  | [] => true
  | ['Z'] | ['z'] => true
  | '+' :: cs | '-' :: cs => afterClock? cs == some []
  | _ => false

def isDate (word : List Char) : Bool :=
  afterDate? word == some []

/-- Whether a word is a date, a time, or a date with a time. -/
def isMoment (word : List Char) : Bool :=
  match afterDate? word with
  | some [] => true
  | some (t :: cs) => (t == 'T' || t == 't') && (afterTime? cs).any isOffset
  | none => afterTime? word == some []

def beginsTime : List Char → Bool
  | a :: b :: ':' :: _ => a.isDigit && b.isDigit
  | _ => false

end TopicRegistry.Toml
