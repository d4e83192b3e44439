import TopicRegistry.Json.Token

/-!
# JSON values

`Value.ofTokens?` puts the tokens of a text together. It keeps the brackets that are still open
on a stack, so it takes one step for each token however deeply the text is nested. Numbers stay
words. A quoted text is kept as the numbers of its characters, a `\u` escape counting as the
number it spells; `decode?` joins pairs of surrogates and finds the lone ones, which are no text
but may stand in parts of a document that nobody reads.
-/

namespace TopicRegistry.Json

def escape? : Char → Option Char
  | '"' => some '"'
  | '\\' => some '\\'
  | '/' => some '/'
  | 'b' => some '\x08'
  | 'f' => some '\x0c'
  | 'n' => some '\n'
  | 'r' => some '\r'
  | 't' => some '\t'
  | _ => none

/-- The numbers of the characters of a quoted text, or nothing if an escape is malformed. -/
def codes? : List Char → Option (List Nat)
  | [] => some []
  | '\\' :: 'u' :: a :: b :: c :: d :: cs => do
    let code ← Text.number? 16 [a, b, c, d]
    let codes ← codes? cs
    some (code :: codes)
  | '\\' :: c :: cs => do
    let char ← escape? c
    let codes ← codes? cs
    some (char.toNat :: codes)
  | '\\' :: [] => none
  | c :: cs => (codes? cs).map (c.toNat :: ·)

/-- The characters with the given numbers, a pair of surrogates counting as one. -/
def decode? : List Nat → Option (List Char)
  | [] => some []
  | high :: low :: codes =>
    if 0xD800 ≤ high ∧ high < 0xDC00 ∧ 0xDC00 ≤ low ∧ low < 0xE000 then
      (decode? codes).map
        (Char.ofNat (0x10000 + (high - 0xD800) * 0x400 + (low - 0xDC00)) :: ·)
    else if high.isValidChar then (decode? (low :: codes)).map (Char.ofNat high :: ·)
    else none
  | [code] => if code.isValidChar then some [Char.ofNat code] else none

/-- Whether a word ends like a number: with an exponent or nothing. -/
def isExponent : List Char → Bool
  | [] => true
  | e :: cs =>
    let digits := match cs with
      | '+' :: digits | '-' :: digits => digits
      | digits => digits
    (e == 'e' || e == 'E') && !digits.isEmpty && digits.all Char.isDigit

/-- Whether a word goes on like a number after its whole part. -/
def isFraction : List Char → Bool
  | '.' :: cs => !(cs.takeWhile Char.isDigit).isEmpty && isExponent (cs.dropWhile Char.isDigit)
  | cs => isExponent cs

/-- Whether digits are the decimal form of a natural number, without a superfluous zero. -/
def isWhole (digits : List Char) : Bool :=
  !digits.isEmpty && digits.all Char.isDigit && (digits == ['0'] || digits.head? != some '0')

def isNumber (word : List Char) : Bool :=
  let cs := match word with
    | '-' :: cs => cs
    | cs => cs
  isWhole (cs.takeWhile Char.isDigit) && isFraction (cs.dropWhile Char.isDigit)

def isLiteral (word : List Char) : Bool :=
  word == "true".toList || word == "false".toList || word == "null".toList || isNumber word

/-- A JSON value; words and texts are kept as they are spelled. -/
inductive Value where
  | word (chars : List Char)
  | text (codes : List Nat)
  | array (items : List Value)
  | object (members : List (List Nat × Value))

namespace Value

/-- An array or an object that is not closed yet, its last part in front. -/
inductive Unclosed where
  | array (items : List Value)
  | object (members : List (List Nat × Value)) (key : List Nat)

inductive Expected where
  | value
  | firstItem
  | firstKey
  | key (members : List (List Nat × Value))
  | colon (members : List (List Nat × Value)) (key : List Nat)
  | afterItem (items : List Value)
  | afterMember (members : List (List Nat × Value))
  | nothing (value : Value)

/-- What is read so far, and inside what. -/
abbrev Progress := Expected × List Unclosed

/-- A value is complete: put it into what it stands in. -/
def place (value : Value) : List Unclosed → Progress
  | [] => (.nothing value, [])
  | .array items :: outer => (.afterItem (value :: items), outer)
  | .object members key :: outer => (.afterMember ((key, value) :: members), outer)

def start (outer : List Unclosed) : Token → Option Progress
  | .word chars => if isLiteral chars then some (place (.word chars) outer) else none
  | .text raw => (codes? raw).map fun codes => place (.text codes) outer
  | .opening .square => some (.firstItem, outer)
  | .opening .curly => some (.firstKey, outer)
  | _ => none

def step : Progress → Token → Option Progress
  | (.value, outer), token => start outer token
  | (.firstItem, outer), .closing .square => some (place (.array []) outer)
  | (.firstItem, outer), token => start (.array [] :: outer) token
  | (.firstKey, outer), .closing .curly => some (place (.object []) outer)
  | (.firstKey, outer), .text raw => (codes? raw).map fun key => (.colon [] key, outer)
  | (.key members, outer), .text raw => (codes? raw).map fun key => (.colon members key, outer)
  | (.colon members key, outer), .colon => some (.value, .object members key :: outer)
  | (.afterItem items, outer), .comma => some (.value, .array items :: outer)
  | (.afterItem items, outer), .closing .square => some (place (.array items.reverse) outer)
  | (.afterMember members, outer), .comma => some (.key members, outer)
  | (.afterMember members, outer), .closing .curly => some (place (.object members.reverse) outer)
  | _, _ => none

def ofTokens? (tokens : List Token) : Option Value :=
  match tokens.foldlM step (.value, []) with
  | some (.nothing value, []) => some value
  | _ => none

def ofText? (text : String) : Option Value :=
  (tokens? text.toList).bind ofTokens?

end Value

end TopicRegistry.Json
