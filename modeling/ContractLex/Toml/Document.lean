import ContractLex.Json.Basic

/-!
# TOML documents

A document is a table, and grows by its lines: a header opens a table, a double header adds a table
to a list, and a key with a value puts the value into the table that was opened last. A dotted key
leads to a table below that one. No line may define anew what another line has defined; how a table
came about decides what may still be added to it.

A finished document is a JSON value, in which each table is an object.
-/

namespace ContractLex.Toml

/-- How a table came about. -/
inductive Standing where
  /-- It was opened by a header of its own. -/
  | opened
  /-- It stands in the header of a table below it. -/
  | implied
  /-- It stands in a dotted key. -/
  | dotted
deriving DecidableEq, Repr

inductive Node where
  | leaf (value : Json)
  | table (standing : Standing) (entries : List (String × Node))
  /-- A list of tables, the last apart and the others in reverse. -/
  | tables (earlier : List (List (String × Node))) (last : List (String × Node))

/-- The entries of a table, in the order in which they came up. -/
abbrev Entries := List (String × Node)

namespace Entries

/-- Puts a node in place of the one with the same key, or at the end. -/
def put (key : String) (node : Node) : Entries → Entries
  | [] => [(key, node)]
  | (other, old) :: rest =>
    if other = key then (key, node) :: rest else (other, old) :: put key node rest

/-- Changes the table that a header's path leads to. Tables on the way that do not exist are
implied, and of a list of tables the last one counts. -/
def below (change : Entries → Option Entries) : List String → Entries → Option Entries
  | [], entries => change entries
  | key :: path, entries => do
    let node ← match entries.lookup key with
      | none => (Node.table .implied ·) <$> below change path []
      | some (.leaf _) => none
      | some (.table standing inner) => (Node.table standing ·) <$> below change path inner
      | some (.tables earlier last) => (Node.tables earlier ·) <$> below change path last
    return put key node entries

/-- Opens the table `key`. It must be new, or at most implied. -/
def openTable (key : String) (entries : Entries) : Option Entries :=
  match entries.lookup key with
  | none => some (put key (.table .opened []) entries)
  | some (.table .implied inner) => some (put key (.table .opened inner) entries)
  | some _ => none

def addTable (key : String) (entries : Entries) : Option Entries :=
  match entries.lookup key with
  | none => some (put key (.tables [] []) entries)
  | some (.tables earlier last) => some (put key (.tables (last :: earlier) []) entries)
  | some _ => none

/-- Puts a value where a dotted key leads. Tables on the way that do not exist are made by the key;
the last one must have been made by a key, so `fit` says whether the table at hand may take the
value. -/
def assign (value : Json) (key : String) (fit : Bool) : List String → Entries → Option Entries
  | [], entries =>
    if fit && (entries.lookup key).isNone then some (put key (.leaf value) entries) else none
  | next :: path, entries => do
    let node ← match entries.lookup next with
      | none => (Node.table .dotted ·) <$> assign value key true path []
      | some (.leaf _) => none
      | some (.table .opened _) => none
      | some (.table standing inner) =>
        (Node.table standing ·) <$> assign value key (standing == .dotted) path inner
      | some (.tables earlier last) =>
        (Node.tables earlier ·) <$> assign value key false path last
    return put next node entries

end Entries

mutual

def Node.toJson : Node → Json
  | .leaf value => value
  | .table _ entries => .object (entriesToJson entries)
  | .tables earlier last => .array (tablesToJson earlier [.object (entriesToJson last)])

def entriesToJson : List (String × Node) → List (String × Json)
  | [] => []
  | (key, node) :: rest => (key, node.toJson) :: entriesToJson rest

def tablesToJson : List (List (String × Node)) → List Json → List Json
  | [], done => done
  | entries :: earlier, done => tablesToJson earlier (.object (entriesToJson entries) :: done)

end

/-- A document under way: its entries and the path of the table that was opened last. -/
structure Document where
  entries : Entries := []
  current : List String := []

namespace Document

def openTable (d : Document) (path : List String) : Option Document := do
  let key ← path.getLast?
  return { entries := ← d.entries.below (Entries.openTable key) path.dropLast, current := path }

def addTable (d : Document) (path : List String) : Option Document := do
  let key ← path.getLast?
  return { entries := ← d.entries.below (Entries.addTable key) path.dropLast, current := path }

def assign (d : Document) (path : List String) (value : Json) : Option Document := do
  let key ← path.getLast?
  return { d with
    entries := ← d.entries.below (Entries.assign value key true path.dropLast) d.current }

def toJson (d : Document) : Json := .object (entriesToJson d.entries)

end Document

end ContractLex.Toml
