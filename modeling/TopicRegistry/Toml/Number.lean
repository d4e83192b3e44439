import TopicRegistry.Toml.Quoted

/-!
# Numbers of TOML

Whole numbers are decimal with an optional sign, or have a base of sixteen, eight or two and no
sign. Single underscores may stand between digits, and a decimal number has no superfluous zero
in front. A whole number has to lie between `-2 ^ 127` and `2 ^ 128 - 1`. A decimal fraction has
a fractional part, an exponent or both, and may not be so large that it rounds to infinity as a
64-bit float. An exponent takes no more digits once it has reached `2 ^ 16`.
-/

namespace TopicRegistry.Toml

/-- Digits of a base without the underscores that stand between two of them; `after` says that a
digit stands in front. -/
def bareDigits? (base : Nat) : (after : Bool) → List Char → Option (List Char)
  | after, [] => if after then some [] else none
  | after, c :: cs =>
    if (Text.digit? base c).isSome then (bareDigits? base true cs).map (c :: ·)
    else if after && c == '_' then bareDigits? base false cs
    else none

def sign : List Char → Bool × List Char
  | '-' :: cs => (true, cs)
  | '+' :: cs => (false, cs)
  | cs => (false, cs)

def decimalDigits? (word : List Char) : Option (List Char) :=
  if word.head? = some '0' ∧ word ≠ ['0'] then none else bareDigits? 10 false word

def bounded? (n : Int) : Option Int :=
  if -Int.pow 2 127 ≤ n ∧ n < Int.pow 2 128 then some n else none

/-- The whole number that a word spells in a base, with underscores. -/
def inBase? (base : Nat) (word : List Char) : Option Int := do
  let digits ← bareDigits? base false word
  let n ← Text.number? base digits
  bounded? n

def integer? : List Char → Option Int
  | '0' :: 'x' :: cs => inBase? 16 cs
  | '0' :: 'o' :: cs => inBase? 8 cs
  | '0' :: 'b' :: cs => inBase? 2 cs
  | word => do
    let (negative, cs) := sign word
    let digits ← decimalDigits? cs
    let n ← Text.number? 10 digits
    bounded? (if negative then -n else n)

/-- How many digits the largest finite 64-bit floats have in front of the point. -/
def maxWholeDigits : Nat := 309

/-- Whether `digits * 10 ^ exponent` rounds to a finite 64-bit float: its whole part is less than
the middle between the largest float and the next power of two. -/
def isFinite (digits : List Char) (exponent : Int) : Bool :=
  let significant := digits.dropWhile (· == '0')
  let wholeDigits := significant.length + exponent
  let whole := (significant ++ List.replicate maxWholeDigits '0').take maxWholeDigits
  significant.isEmpty || wholeDigits < maxWholeDigits ||
    (wholeDigits == maxWholeDigits && Nat.ofDigitChars 10 whole 0 < Nat.pow 2 1024 - Nat.pow 2 970)

def exponentCap : Nat := Nat.pow 2 16

/-- The size of an exponent. Its digits count until it is full, and those behind are ignored. -/
def exponentSize (digits : List Char) : Nat :=
  digits.foldl
    (fun n c => if n < exponentCap then Nat.ofDigitChars 10 [c] n else n) 0

def exponent? : List Char → Option Int
  | [] => some 0
  | e :: cs => do
    let (negative, cs) := sign cs
    let digits ← if e = 'e' ∨ e = 'E' then bareDigits? 10 false cs else none
    let n := exponentSize digits
    some (if negative then -n else n)

/-- Whether a word is a decimal fraction that is not too large. -/
def isDecimalFraction (word : List Char) : Bool :=
  let unsigned := (sign word).2
  let whole := unsigned.takeWhile fun c => c.isDigit || c == '_'
  let rest := unsigned.dropWhile fun c => c.isDigit || c == '_'
  let (fraction, power) := match rest with
    | '.' :: cs =>
      (some (cs.takeWhile fun c => c.isDigit || c == '_'),
        cs.dropWhile fun c => c.isDigit || c == '_')
    | cs => (none, cs)
  let digits : Option (List Char × List Char) := do
    let before ← decimalDigits? whole
    let behind ← match fraction with
      | none => some []
      | some cs => bareDigits? 10 false cs
    some (before, behind)
  match digits, exponent? power with
  | some (before, behind), some exponent =>
    !rest.isEmpty && isFinite (before ++ behind) (exponent - behind.length)
  | _, _ => false

/-- Whether a word is one of the floats that no digits spell. -/
def isSpecialFloat (word : List Char) : Bool :=
  let unsigned := (sign word).2
  unsigned == "inf".toList || unsigned == "nan".toList

def isFloat (word : List Char) : Bool :=
  isSpecialFloat word || isDecimalFraction word

end TopicRegistry.Toml
