import TopicRegistry.Text

/-!
# JSON tokens

A JSON text is cut into brackets, commas, colons, quoted texts and words. A word is a longest run
of other characters; whether it is `true`, `false`, `null`, a number or nothing at all is decided
later. Quoted texts keep their escapes, and only an unescaped quote ends them. The text is read
as if a blank followed it, which ends a last word and leaves a quoted text without end open.
-/

namespace TopicRegistry.Json

inductive Token where
  | opening (bracket : Text.Bracket)
  | closing (bracket : Text.Bracket)
  | comma
  | colon
  | text (raw : List Char)
  | word (chars : List Char)
  deriving DecidableEq

def isBlank (c : Char) : Bool :=
  c == ' ' || c == '\t' || c == '\n' || c == '\r'

def punctuation? : Char → Option Token
  | '[' => some (.opening .square)
  | ']' => some (.closing .square)
  | '{' => some (.opening .curly)
  | '}' => some (.closing .curly)
  | ',' => some .comma
  | ':' => some .colon
  | _ => none

/-- Where the next character stands: after the characters of an unfinished word, which may be
none, or in a quoted text. The characters so far are kept with the last one in front. -/
inductive Position where
  | plain (word : List Char)
  | quoted (done : List Char) (escaped : Bool)
  deriving DecidableEq

/-- The token of a word that has come to its end. -/
def finish : List Char → List Token
  | [] => []
  | word => [.word word.reverse]

/-- The tokens that a character completes and the position after it. No control character may
stand in a quoted text. -/
def advance (position : Position) (c : Char) : Option (List Token × Position) :=
  match position with
  | .plain word =>
    if isBlank c then some (finish word, .plain [])
    else if c = '"' then some (finish word, .quoted [] false)
    else match punctuation? c with
      | some token => some (finish word ++ [token], .plain [])
      | none => some ([], .plain (c :: word))
  | .quoted done escaped =>
    if c < ' ' then none
    else if escaped then some ([], .quoted (c :: done) false)
    else if c = '"' then some ([.text done.reverse], .plain [])
    else some ([], .quoted (c :: done) (c == '\\'))

def tokens? (text : List Char) : Option (List Token) :=
  match Text.scan advance (.plain []) (text ++ [' ']) with
  | some (tokens, .plain []) => some tokens
  | _ => none

end TopicRegistry.Json
