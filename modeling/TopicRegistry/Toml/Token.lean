import TopicRegistry.Text

/-!
# TOML tokens

A TOML text is cut into punctuation, blanks, ends of lines, quoted texts and words. Blanks are
tokens because they separate words and may not stand between two brackets of a header; comments
leave only the end of their line. A word is a longest run of other characters and may turn out
to be a key, several keys joined by dots, or a number, a date or a switch. Lines end with a line
feed, in front of which a carriage return is dropped; the last line need not be ended.
-/

namespace TopicRegistry.Toml

/-- How a text is quoted: with or without escapes, on one line or over several. -/
structure Quoting where
  escapes : Bool
  multiline : Bool
  deriving DecidableEq

inductive Token where
  | opening (bracket : Text.Bracket)
  | closing (bracket : Text.Bracket)
  | comma
  | equals
  | blank (char : Char)
  | newline
  | text (quoting : Quoting) (raw : List Char)
  | word (chars : List Char)
  deriving DecidableEq

def Quoting.mark (quoting : Quoting) : Char :=
  if quoting.escapes then '"' else '\''

def punctuation? : Char → Option Token
  | '[' => some (.opening .square)
  | ']' => some (.closing .square)
  | '{' => some (.opening .curly)
  | '}' => some (.closing .curly)
  | ',' => some .comma
  | '=' => some .equals
  | ' ' => some (.blank ' ')
  | '\t' => some (.blank '\t')
  | '\n' => some .newline
  | _ => none

/-- The characters that may stand in comments and in quoted texts: no control characters. -/
def isPrintable (c : Char) : Bool :=
  c == '\t' || (' ' ≤ c && c != '\x7f')

/-- Where the next character stands: after the characters of an unfinished word, in a comment,
after one or two quotes that begin a text, in a text on one line, or in a text over several lines
and there after a number of quotes. Characters are kept with the last one in front. -/
inductive Position where
  | plain (word : List Char)
  | comment
  | opened (escapes : Bool)
  | openedTwice (escapes : Bool)
  | line (escapes : Bool) (done : List Char) (escaped : Bool)
  | block (escapes : Bool) (done : List Char) (quotes : Nat) (escaped : Bool)
  deriving DecidableEq

def finish : List Char → List Token
  | [] => []
  | word => [.word word.reverse]

def advancePlain (word : List Char) (c : Char) : List Token × Position :=
  if c = '"' then (finish word, .opened true)
  else if c = '\'' then (finish word, .opened false)
  else if c = '#' then (finish word, .comment)
  else match punctuation? c with
    | some token => (finish word ++ [token], .plain [])
    | none => ([], .plain (c :: word))

def advanceLine (escapes : Bool) (done : List Char) (escaped : Bool) (c : Char) :
    Option (List Token × Position) :=
  let quoting : Quoting := { escapes, multiline := false }
  if !isPrintable c then none
  else if escaped then some ([], .line escapes (c :: done) false)
  else if c = quoting.mark then some ([.text quoting done.reverse], .plain [])
  else some ([], .line escapes (c :: done) (escapes && c == '\\'))

/-- Read a character of a text over several lines. Three quotes end it, but of a longer run the
last three do, and up to two more belong to the text. -/
def advanceBlock (escapes : Bool) (done : List Char) (quotes : Nat) (escaped : Bool) (c : Char) :
    Option (List Token × Position) :=
  let quoting : Quoting := { escapes, multiline := true }
  let pending := List.replicate quotes quoting.mark
  if !escaped && c == quoting.mark then
    if quotes < 5 then some ([], .block escapes done (quotes + 1) false) else none
  else if 3 ≤ quotes then
    let (tokens, next) := advancePlain [] c
    some (.text quoting (pending.drop 3 ++ done).reverse :: tokens, next)
  else if !isPrintable c && c != '\n' then none
  else some ([], .block escapes (c :: (pending ++ done)) 0 (!escaped && escapes && c == '\\'))

def advance (position : Position) (c : Char) : Option (List Token × Position) :=
  match position with
  | .plain word => some (advancePlain word c)
  | .comment =>
    if c = '\n' then some ([.newline], .plain [])
    else if isPrintable c then some ([], .comment)
    else none
  | .opened escapes =>
    let quoting : Quoting := { escapes, multiline := false }
    if c = quoting.mark then some ([], .openedTwice escapes)
    else advanceLine escapes [] false c
  | .openedTwice escapes =>
    let quoting : Quoting := { escapes, multiline := false }
    if c = quoting.mark then some ([], .block escapes [] 0 false)
    else
      let (tokens, next) := advancePlain [] c
      some (.text quoting [] :: tokens, next)
  | .line escapes done escaped => advanceLine escapes done escaped c
  | .block escapes done quotes escaped => advanceBlock escapes done quotes escaped c

/-- A text whose lines end with line feeds alone, or nothing if it has a carriage return that is
not part of the end of a line. -/
def lineFeeds? : List Char → Option (List Char)
  | [] => some []
  | '\r' :: '\n' :: cs => (lineFeeds? cs).map ('\n' :: ·)
  | c :: cs => if c = '\r' then none else (lineFeeds? cs).map (c :: ·)

def withoutByteOrderMark : List Char → List Char
  | '\uFEFF' :: cs => cs
  | cs => cs

/-- The tokens of a text, the end of its last line included. -/
def tokens? (text : List Char) : Option (List Token) := do
  let lines ← lineFeeds? (withoutByteOrderMark text)
  match Text.scan advance (.plain []) (lines ++ ['\n']) with
  | some (tokens, .plain []) => some tokens
  | _ => none

end TopicRegistry.Toml
