import LanguageClient.Json.Basic
import LanguageClient.Text.Utf8

/-!
# Tables of TOML

A document is a sequence of sections that are laid into one tree. A table comes about by its
header, by a dotted key, or because a longer header passes through it. Each table is defined
once: a header may only complete a table that other headers passed through, a dotted key
only one that dotted keys began, and a plain value is never entered.
-/

namespace LanguageClient.Toml

inductive Origin where
  /-- By its own header or braces. -/
  | defined
  /-- Because a longer header names it. -/
  | passed
  /-- By a dotted key. -/
  | dotted
  deriving DecidableEq, Repr

inductive Node where
  | leaf (v : Json)
  | table (origin : Origin) (entries : List (Text × Node))
  | tables (items : List (List (Text × Node)))
  deriving Inhabited

abbrev Entries := List (Text × Node)

structure KeyValue where
  path : List Text
  value : Json

namespace Entries

def find? (key : Text) : Entries → Option Node
  | [] => none
  | (k, n) :: rest => if k = key then some n else find? key rest

def put (key : Text) (n : Node) : Entries → Entries
  | [] => [(key, n)]
  | (k, m) :: rest => if k = key then (key, n) :: rest else (k, m) :: put key n rest

def alter (by_ : Origin) (change : Origin → Entries → Option Entries) (origin : Origin)
    (entries : Entries) : List Text → Option Entries
  | [] => change origin entries
  | key :: path =>
    match find? key entries with
    | none => (alter by_ change by_ [] path).map fun sub => put key (.table by_ sub) entries
    | some (.leaf _) => none
    | some (.tables items) =>
      match items.getLast? with
      | none => none
      | some last =>
        (alter by_ change .defined last path).map fun sub =>
          put key (.tables (items.dropLast ++ [sub])) entries
    | some (.table origin sub) =>
      if by_ = .dotted ∧ origin = .defined then none
      else (alter by_ change origin sub path).map fun sub =>
        put key (.table origin sub) entries

/-- Adds a value under a dotted key. The table that takes it must have come about by dotted
keys if the key has dots. -/
def addValue (entries : Entries) (kv : KeyValue) : Option Entries :=
  match kv.path.getLast? with
  | none => none
  | some key =>
    alter .dotted (fun origin sub =>
      if 1 < kv.path.length ∧ origin ≠ .dotted then none
      else if (find? key sub).isSome then none
      else some (put key (.leaf kv.value) sub)) .defined entries kv.path.dropLast

def addValues (entries : Entries) (kvs : List KeyValue) : Option Entries :=
  kvs.foldlM addValue entries

end Entries

/-!
## Sections
-/

inductive Header where
  /-- The start of the document. -/
  | top
  | table (path : List Text)
  | item (path : List Text)

structure Section where
  header : Header
  values : List KeyValue

def fillTable (values : List KeyValue) (key : Text) (entries : Entries) : Option Entries :=
  match Entries.find? key entries with
  | none =>
    (Entries.addValues [] values).map fun sub => Entries.put key (.table .defined sub) entries
  | some (.table .passed sub) =>
    (Entries.addValues sub values).map fun sub => Entries.put key (.table .defined sub) entries
  | some _ => none

def fillItem (values : List KeyValue) (key : Text) (entries : Entries) : Option Entries := do
  let sub ← Entries.addValues [] values
  match Entries.find? key entries with
  | none => return Entries.put key (.tables [sub]) entries
  | some (.tables items) => return Entries.put key (.tables (items ++ [sub])) entries
  | some _ => none

def addSection (root : Entries) (s : Section) : Option Entries :=
  match s.header with
  | .top => Entries.addValues root s.values
  | .table path => do
    let key ← path.getLast?
    Entries.alter .passed (fun _ => fillTable s.values key) .defined root path.dropLast
  | .item path => do
    let key ← path.getLast?
    Entries.alter .passed (fun _ => fillItem s.values key) .defined root path.dropLast

/-!
## Trees as JSON
-/

mutual
def Node.toJson : Node → Json
  | .leaf v => v
  | .table _ entries => Json.ofMembers (entriesJson entries)
  | .tables items => .arr (itemsJson items)

def entriesJson : List (Text × Node) → List (String × Json)
  | [] => []
  | (key, n) :: rest => (String.ofList key, n.toJson) :: entriesJson rest

def itemsJson : List (List (Text × Node)) → List Json
  | [] => []
  | entries :: rest => Json.ofMembers (entriesJson entries) :: itemsJson rest
end

end LanguageClient.Toml
