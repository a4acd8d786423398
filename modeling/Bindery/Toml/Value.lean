/-!
# Configuration documents as values

A document is a table. While it is read, each table knows how it came about, for that decides
whether later lines may still add to it.
-/

namespace Bindery.Toml

/-- A value of a document. -/
inductive Value where
  | text (text : String)
  /-- A number, a truth value or a time, as it is written. -/
  | scalar (spelling : String)
  | array (elements : List Value)
  | table (entries : List (String × Value))

/-- How a table came about. -/
inductive Origin where
  /-- It stands on the way to a table with a header. -/
  | implied
  /-- Its name is part of a dotted key. -/
  | dotted
  /-- It has a header of its own. -/
  | header
  deriving DecidableEq

/-- A value of a document that is still being read. -/
inductive Node where
  | value (value : Value)
  | table (origin : Origin) (entries : List (String × Node))
  /-- The tables that share a header; the last one is open. -/
  | tables (elements : List (List (String × Node)))

/-- The entries of a table that is still being read, in the order of their first mention. -/
abbrev Entries := List (String × Node)

namespace Entries

/-- The node under a key. -/
def find? (entries : Entries) (key : String) : Option Node :=
  (List.find? (fun entry => entry.1 == key) entries).map (·.2)

/-- Puts a node under a key, in the place of an earlier one. -/
def put (entries : Entries) (key : String) (node : Node) : Entries :=
  if entries.any (·.1 == key) then
    entries.map fun entry => if entry.1 == key then (key, node) else entry
  else entries ++ [(key, node)]

/-- Changes the table that a dotted key leads to; tables that are lacking are made. -/
def alongKey (change : Entries → Option Entries) : List String → Entries → Option Entries
  | [], entries => change entries
  | key :: rest, entries =>
    match entries.find? key with
    | none => do return entries.put key (.table .dotted (← alongKey change rest []))
    | some (.table .dotted inner) => do
      return entries.put key (.table .dotted (← alongKey change rest inner))
    | some _ => none

/-- Changes the table that the front of a header leads to; tables that are lacking are made. -/
def alongHeader (change : Entries → Option Entries) : List String → Entries → Option Entries
  | [], entries => change entries
  | key :: rest, entries =>
    match entries.find? key with
    | none => do return entries.put key (.table .implied (← alongHeader change rest []))
    | some (.table origin inner) => do
      return entries.put key (.table origin (← alongHeader change rest inner))
    | some (.tables elements) => do
      let last ← elements.getLast?
      return entries.put key (.tables (elements.dropLast ++ [← alongHeader change rest last]))
    | some (.value _) => none

/-- Adds a value under a dotted key; none if the key is taken. -/
def add (path : List String) (key : String) (value : Value) (entries : Entries) :
    Option Entries :=
  alongKey (fun inner =>
    if (inner.find? key).isSome then none else some (inner.put key (.value value))) path entries

/-- Opens a table by its header; none if it has one already. -/
def openTable (path : List String) (key : String) (entries : Entries) : Option Entries :=
  alongHeader (fun inner =>
    match inner.find? key with
    | none => some (inner.put key (.table .header []))
    | some (.table .implied present) => some (inner.put key (.table .header present))
    | some _ => none) path entries

/-- Opens another table under a header that several tables share. -/
def openElement (path : List String) (key : String) (entries : Entries) : Option Entries :=
  alongHeader (fun inner =>
    match inner.find? key with
    | none => some (inner.put key (.tables [[]]))
    | some (.tables elements) => some (inner.put key (.tables (elements ++ [[]])))
    | some _ => none) path entries

end Entries

mutual

/-- The value that has been read. -/
def Node.toValue : Node → Value
  | .value value => value
  | .table _ entries => .table (entryValues entries)
  | .tables elements => .array (elementValues elements)

/-- The values of the entries of a table. -/
def entryValues : List (String × Node) → List (String × Value)
  | [] => []
  | (key, node) :: rest => (key, node.toValue) :: entryValues rest

/-- The tables that share a header, as values. -/
def elementValues : List (List (String × Node)) → List Value
  | [] => []
  | entries :: rest => .table (entryValues entries) :: elementValues rest

end

end Bindery.Toml
