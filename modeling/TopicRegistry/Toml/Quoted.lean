import TopicRegistry.Toml.Token

/-!
# Quoted texts of TOML

In a text with escapes a backslash and the letters after it stand for one character. A backslash
at the end of a line makes the text go on at the next character that is not a blank. A text over
several lines begins after the end of the line that its quotes stand on.
-/

namespace TopicRegistry.Toml

def charOfHex? (digits : List Char) : Option Char :=
  (Text.number? 16 digits).bind fun code =>
    if code.isValidChar then some (Char.ofNat code) else none

def escape? : Char → Option Char
  | '"' => some '"'
  | '\\' => some '\\'
  | 'b' => some '\x08'
  | 'e' => some '\x1b'
  | 'f' => some '\x0c'
  | 'n' => some '\n'
  | 'r' => some '\r'
  | 't' => some '\t'
  | _ => none

def isBlank (c : Char) : Bool :=
  c == ' ' || c == '\t'

/-- A text with its escapes replaced; with `skipping`, blanks and ends of lines in front of it
are left out. -/
def unescape? : (skipping : Bool) → List Char → Option (List Char)
  | _, [] => some []
  | _, '\\' :: 'x' :: a :: b :: cs => do
    let char ← charOfHex? [a, b]
    (unescape? false cs).map (char :: ·)
  | _, '\\' :: 'u' :: a :: b :: c :: d :: cs => do
    let char ← charOfHex? [a, b, c, d]
    (unescape? false cs).map (char :: ·)
  | _, '\\' :: 'U' :: a :: b :: c :: d :: e :: f :: g :: h :: cs => do
    let char ← charOfHex? [a, b, c, d, e, f, g, h]
    (unescape? false cs).map (char :: ·)
  | _, '\\' :: c :: cs =>
    if ((c :: cs).dropWhile isBlank).head? = some '\n' then unescape? true (c :: cs)
    else do
      let char ← escape? c
      (unescape? false cs).map (char :: ·)
  | skipping, c :: cs =>
    if skipping && (isBlank c || c == '\n') then unescape? true cs
    else if c = '\\' then none
    else (unescape? false cs).map (c :: ·)

def content? (quoting : Quoting) (raw : List Char) : Option String :=
  let body := match raw with
    | '\n' :: cs => if quoting.multiline then cs else raw
    | _ => raw
  (if quoting.escapes then unescape? false body else some body).map String.ofList

end TopicRegistry.Toml
