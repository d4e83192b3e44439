import TopicRegistry.Toml.Moment
import TopicRegistry.Toml.Number
import TopicRegistry.Toml.Table
import TopicRegistry.Toml.Quoted

/-!
# Keys and values of TOML

A key is one part or several joined by dots, each a bare word or a quoted text on one line, with
blanks around the dots if wanted. A value is a word, a quoted text, an array or an inline table.
`ofTokens?` puts the tokens of a value together and keeps the brackets that are still open on a
stack of bounded depth. Between brackets lines may end wherever a blank may stand, except inside
a key, and a last comma may stand before the closing bracket.
-/

namespace TopicRegistry.Toml

/-- How deep values may be nested, and how many parts a key may have. -/
def maxDepth : Nat := 80

namespace Key

/-- A piece of a key: a part that is quoted, a part that is not, or a dot. -/
inductive Atom where
  | bare (chars : List Char)
  | quoted (content : String)
  | dot

def isBare (c : Char) : Bool :=
  c.isAlphanum || c == '_' || c == '-'

def atomsOfWord : List Char → List Atom
  | [] => []
  | c :: cs =>
    if c = '.' then .dot :: atomsOfWord cs
    else match atomsOfWord cs with
      | .bare chars :: atoms => .bare (c :: chars) :: atoms
      | atoms => .bare [c] :: atoms

def atoms? : Token → Option (List Atom)
  | .blank _ => some []
  | .word chars => some (atomsOfWord chars)
  | .text quoting raw =>
    if quoting.multiline then none
    else (content? quoting raw).map fun content => [.quoted content]
  | _ => none

def part? : Atom → Option String
  | .bare chars => if chars.all isBare then some (String.ofList chars) else none
  | .quoted content => some content
  | .dot => none

/-- The parts of a key from its pieces, which alternate with dots. -/
def parts? : List Atom → Option (List String)
  | [] => none
  | [atom] => (part? atom).map fun part => [part]
  | atom :: .dot :: atoms => do
    let part ← part? atom
    (parts? atoms).map (part :: ·)
  | _ :: _ :: _ => none

/-- The parts of the key that some tokens spell. -/
def ofTokens? (tokens : List Token) : Option (List String) := do
  let atoms ← tokens.mapM atoms?
  let parts ← parts? atoms.flatten
  if parts.length ≤ maxDepth then some parts else none

end Key

def Plain.ofWord? (word : List Char) : Option Plain :=
  if word = "true".toList then some (.flag true)
  else if word = "false".toList then some (.flag false)
  else match integer? word with
    | some n => some (.integer n)
    | none =>
      if isFloat word then some (.float word)
      else if isMoment word then some (.moment word)
      else none

namespace Item

/-- An array or an inline table that is not closed yet, the last item in front. -/
inductive Unclosed where
  | array (items : List Item)
  | inline (members : Table) (key : List String)

/-- What the next token may be; a key is collected up to its equals sign or the end of its line. -/
inductive Expected where
  | value
  | item (items : List Item)
  | afterItem (items : List Item)
  | key (members : Table) (tokens : List Token)
  | afterKey (members : Table) (key : List String)
  | afterMember (members : Table)
  | nothing (item : Item)

abbrev Progress := Expected × List Unclosed

/-- A value is complete: put it into what it stands in. -/
def place? (item : Item) : List Unclosed → Option Progress
  | [] => some (.nothing item, [])
  | .array items :: outer => some (.afterItem (item :: items), outer)
  | .inline members key :: outer =>
    (members.assign? item key).map fun members => (.afterMember members, outer)

def start? (outer : List Unclosed) : Token → Option Progress
  | .word chars => (Plain.ofWord? chars).bind fun value => place? (.plain value) outer
  | .text quoting raw =>
    (content? quoting raw).bind fun content => place? (.plain (.text content)) outer
  | .opening bracket =>
    if outer.length < maxDepth then
      match bracket with
      | .square => some (.item [], outer)
      | .curly => some (.key [] [], outer)
    else none
  | _ => none

def isSpace : Token → Bool
  | .blank _ | .newline => true
  | _ => false

def step? : Progress → Token → Option Progress
  | (.value, outer), token =>
    if isSpace token then some (.value, outer) else start? outer token
  | (.item items, outer), .closing .square => place? (.array items.reverse) outer
  | (.item items, outer), token =>
    if isSpace token then some (.item items, outer) else start? (.array items :: outer) token
  | (.afterItem items, outer), .comma => some (.item items, outer)
  | (.afterItem items, outer), .closing .square => place? (.array items.reverse) outer
  | (.key members [], outer), .closing .curly => place? (.inline members) outer
  | (.key members tokens, outer), .equals =>
    (Key.ofTokens? tokens.reverse).map fun key => (.value, .inline members key :: outer)
  | (.key members tokens, outer), token =>
    if tokens.isEmpty && isSpace token then some (.key members [], outer)
    else if token = .newline then
      (Key.ofTokens? tokens.reverse).map fun key => (.afterKey members key, outer)
    else some (.key members (token :: tokens), outer)
  | (.afterKey members key, outer), .equals => some (.value, .inline members key :: outer)
  | (.afterMember members, outer), .comma => some (.key members [], outer)
  | (.afterMember members, outer), .closing .curly => place? (.inline members) outer
  | (expected, outer), token => if isSpace token then some (expected, outer) else none

/-- The tokens of a value in which a date and a time with one space between them are one word. -/
def joinMoments : List Token → List Token
  | [] => []
  | .word date :: .blank ' ' :: .word time :: tokens =>
    if isDate date && beginsTime time then .word (date ++ 'T' :: time) :: joinMoments tokens
    else .word date :: .blank ' ' :: joinMoments (.word time :: tokens)
  | token :: tokens => token :: joinMoments tokens

def ofTokens? (tokens : List Token) : Option Item :=
  match (joinMoments tokens).foldlM step? (.value, []) with
  | some (.nothing item, []) => some item
  | _ => none

end Item

end TopicRegistry.Toml
