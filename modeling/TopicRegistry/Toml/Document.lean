import TopicRegistry.Toml.Value

/-!
# TOML documents

A document is a sequence of statements, each on a line of its own but for the lines that end
between brackets. A statement names a table, adds an element to an array of tables, or puts a
value under a key of the table that was named last; before the first header that is the document
itself.
-/

namespace TopicRegistry.Toml

/-- The statements among tokens, cut at the ends of lines that are not between brackets. -/
def statements : (depth : Nat) → List Token → List (List Token)
  | _, [] => [[]]
  | 0, .newline :: tokens => [] :: statements 0 tokens
  | depth, token :: tokens =>
    let next := match token with
      | .opening _ => depth + 1
      | .closing _ => depth - 1
      | _ => depth
    match statements next tokens with
    | [] => [[token]]
    | statement :: rest => (token :: statement) :: rest

def Token.isBlank : Token → Bool
  | .blank _ => true
  | _ => false

inductive Statement where
  | nothing
  | table (path : List String)
  | element (path : List String)
  | assignment (key : List String) (item : Item)

namespace Statement

/-- Read what follows the brackets that open a header, up to the brackets that close it. -/
def header? (closing : List Token) (tokens : List Token) : Option (List String) :=
  let inside := tokens.takeWhile (· ≠ .closing .square)
  let behind := tokens.dropWhile (· ≠ .closing .square)
  if closing.isPrefixOf behind && (behind.drop closing.length).all Token.isBlank then
    Key.ofTokens? inside
  else none

def ofTokens? (tokens : List Token) : Option Statement :=
  match tokens.dropWhile Token.isBlank with
  | [] => some .nothing
  | .opening .square :: .opening .square :: rest =>
    (header? [.closing .square, .closing .square] rest).map element
  | .opening .square :: rest => (header? [.closing .square] rest).map table
  | rest => do
    let key ← Key.ofTokens? (rest.takeWhile (· ≠ .equals))
    let item ← Item.ofTokens? ((rest.dropWhile (· ≠ .equals)).drop 1)
    some (assignment key item)

end Statement

/-- The part of a document that has been read, and the path of the table that was named last. -/
structure Document where
  root : Table := []
  path : List String := []

namespace Document

def perform? (doc : Document) : Statement → Option Document
  | .nothing => some doc
  | .table path => (doc.root.openTable? path).map fun root => { root, path }
  | .element path => (doc.root.openElement? path).map fun root => { root, path }
  | .assignment key item =>
    (Table.within? (·.assign? item key) doc.path doc.root).map fun root => { doc with root }

def ofText? (text : String) : Option Table := do
  let tokens ← tokens? text.toList
  let statements ← (statements 0 tokens).mapM Statement.ofTokens?
  let doc ← statements.foldlM perform? {}
  some doc.root

end Document

end TopicRegistry.Toml
