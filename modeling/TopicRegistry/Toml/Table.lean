/-!
# Tables of TOML

A document is a table of items by key, and tables are made in three ways: by a header that names
them, on the way to the table that a header names, or by a key with dots. Which way it was
decides what may still be added. A table that has its header cannot get another one and takes no
dotted keys from outside; a table made on the way may still get its header; a table made by
dotted keys takes more dotted keys but no others. Values, inline tables included, are closed.
-/

namespace TopicRegistry.Toml

/-- The kinds of values that are not made of other values. -/
inductive Plain where
  | flag (value : Bool)
  | integer (value : Int)
  | float (spelling : List Char)
  | moment (spelling : List Char)
  | text (content : String)
  deriving DecidableEq

inductive Origin where
  | header
  | onTheWay
  | dotted
  deriving DecidableEq

/-- What stands under a key; the elements of an array of tables are kept with the last one in
front. -/
inductive Item where
  | plain (value : Plain)
  | array (items : List Item)
  | inline (members : List (String × Item))
  | table (origin : Origin) (members : List (String × Item))
  | tables (elements : List (List (String × Item)))

abbrev Table := List (String × Item)

namespace Table

def replace (key : String) (item : Item) (table : Table) : Table :=
  table.map fun entry => if entry.1 = key then (key, item) else entry

def add? (key : String) (item : Item) (table : Table) : Option Table :=
  if (table.lookup key).isSome then none else some (table ++ [(key, item)])

/-- Put an item under a key with dots. Tables that are missing on the way are made; the last one
on the way must itself have been made by dotted keys. -/
def assign? (item : Item) : List String → Table → Option Table
  | [], _ => none
  | [key], table => table.add? key item
  | key :: keys, table =>
    match table.lookup key with
    | none => do
      let members ← assign? item keys []
      table.add? key (.table .dotted members)
    | some (.table origin members) =>
      if origin = .header ∨ (keys.length = 1 ∧ origin ≠ .dotted) then none
      else (assign? item keys members).map fun members =>
        table.replace key (.table origin members)
    | some (.tables (last :: earlier)) =>
      if keys.length = 1 then none
      else (assign? item keys last).map fun last =>
        table.replace key (.tables (last :: earlier))
    | some _ => none

/-- Make the table that a header names, or let the header name a table made on the way to others. -/
def openTable? : List String → Table → Option Table
  | [], _ => none
  | [key], table =>
    match table.lookup key with
    | none => table.add? key (.table .header [])
    | some (.table .onTheWay members) => some (table.replace key (.table .header members))
    | some _ => none
  | key :: keys, table =>
    match table.lookup key with
    | none => do
      let members ← openTable? keys []
      table.add? key (.table .onTheWay members)
    | some (.table origin members) =>
      (openTable? keys members).map fun members => table.replace key (.table origin members)
    | some (.tables (last :: earlier)) =>
      (openTable? keys last).map fun last => table.replace key (.tables (last :: earlier))
    | some _ => none

def openElement? : List String → Table → Option Table
  | [], _ => none
  | [key], table =>
    match table.lookup key with
    | none => table.add? key (.tables [[]])
    | some (.tables elements) => some (table.replace key (.tables ([] :: elements)))
    | some _ => none
  | key :: keys, table =>
    match table.lookup key with
    | none => do
      let members ← openElement? keys []
      table.add? key (.table .onTheWay members)
    | some (.table origin members) =>
      (openElement? keys members).map fun members => table.replace key (.table origin members)
    | some (.tables (last :: earlier)) =>
      (openElement? keys last).map fun last => table.replace key (.tables (last :: earlier))
    | some _ => none

def within? (change : Table → Option Table) : List String → Table → Option Table
  | [], table => change table
  | key :: keys, table =>
    match table.lookup key with
    | some (.table origin members) =>
      (within? change keys members).map fun members => table.replace key (.table origin members)
    | some (.tables (last :: earlier)) =>
      (within? change keys last).map fun last => table.replace key (.tables (last :: earlier))
    | _ => none

end Table

end TopicRegistry.Toml
