import ScriptWorker.Toml.Value

/-!
# TOML tables

Statements put together to tables. A table knows how it came to be: one that a header opened is
closed to dotted keys and to a second header; one that only lies on the way of a header may still
be opened by one; one that dotted keys made may only grow by dotted keys.
-/

namespace ScriptWorker.Toml

inductive Origin where
  | header
  | path
  | dotted
  deriving DecidableEq, Repr

/-- What a key stands for while a document is put together. -/
inductive Node where
  | leaf (value : Value)
  | table (origin : Origin) (entries : List (String × Node))
  /-- An array of tables: the finished ones, the last one first, and the one that is open. -/
  | tables (closed : List (List (String × Node))) (last : List (String × Node))
  deriving Inhabited

abbrev Entries := List (String × Node)

namespace Section

def find? (key : String) (entries : Entries) : Option Node :=
  (entries.find? fun entry => entry.1 = key).map Prod.snd

def put (key : String) (node : Node) (entries : Entries) : Entries :=
  if entries.any fun entry => entry.1 = key then
    entries.map fun entry => if entry.1 = key then (key, node) else entry
  else entries ++ [(key, node)]

/-- Change the table that a header path leads to, making tables on the way. -/
def atPath (change : Entries → Option Entries) : KeyPath → Entries → Option Entries
  | [], entries => change entries
  | key :: path, entries =>
    match find? key entries with
    | none => (atPath change path []).map fun inner => put key (.table .path inner) entries
    | some (.leaf _) => none
    | some (.table origin inner) =>
      (atPath change path inner).map fun inner => put key (.table origin inner) entries
    | some (.tables closed last) =>
      (atPath change path last).map fun last => put key (.tables closed last) entries

def addLeaf (key : String) (value : Value) (entries : Entries) : Option Entries :=
  if (find? key entries).isSome then none else some (entries ++ [(key, .leaf value)])

/-- Add a value under a dotted key. The table that takes the value must have been made by dotted keys,
and no table on the way may have been opened by a header. -/
def addDotted (value : Value) : (inner : Bool) → KeyPath → Entries → Option Entries
  | _, [], _ => none
  | _, [key], entries => addLeaf key value entries
  | _, key :: next :: path, entries =>
    match find? key entries with
    | none =>
      (addDotted value true (next :: path) []).map fun inner => put key (.table .dotted inner) entries
    | some (.leaf _) => none
    | some (.table .header _) => none
    | some (.table origin inner) =>
      if path.isEmpty && origin ≠ .dotted then none
      else
        (addDotted value true (next :: path) inner).map fun inner =>
          put key (.table origin inner) entries
    | some (.tables closed last) =>
      if path.isEmpty then none
      else
        (addDotted value true (next :: path) last).map fun last =>
          put key (.tables closed last) entries

/-- Open the table of a header, which no header and no dotted key may have made before. -/
def openTable (key : String) (entries : Entries) : Option Entries :=
  match find? key entries with
  | none => some (put key (.table .header []) entries)
  | some (.table .path inner) => some (put key (.table .header inner) entries)
  | some _ => none

def openNext (key : String) (entries : Entries) : Option Entries :=
  match find? key entries with
  | none => some (put key (.tables [] []) entries)
  | some (.tables closed last) => some (put key (.tables (last :: closed) []) entries)
  | some _ => none

/-- The root table so far, and the path of the table that takes the next pairs. -/
structure Progress where
  root : Entries
  current : KeyPath

def start : Progress := ⟨[], []⟩

def advance (p : Progress) : Statement → Option Progress
  | .pair path value =>
    (atPath (addDotted value false path) p.current p.root).map fun root => ⟨root, p.current⟩
  | .header path => enter openTable path
  | .arrayHeader path => enter openNext path
where
  enter (open_ : String → Entries → Option Entries) (path : KeyPath) : Option Progress :=
    path.getLast?.bind fun key =>
      (atPath (open_ key) path.dropLast p.root).map fun root => ⟨root, path⟩

def build (statements : List Statement) : Option Entries :=
  (statements.foldlM advance start).map Progress.root

end Section

mutual

def toValue : Node → Value
  | .leaf value => value
  | .table _ entries => .table (toEntries entries)
  | .tables closed last => .array ((Value.table (toEntries last) :: toTables closed).reverse)

def toEntries : List (String × Node) → List (String × Value)
  | [] => []
  | (key, node) :: rest => (key, toValue node) :: toEntries rest

def toTables : List (List (String × Node)) → List Value
  | [] => []
  | entries :: rest => .table (toEntries entries) :: toTables rest

end

def inlineTable (pairs : List (KeyPath × Value)) : Option Value :=
  (Section.build (pairs.map fun pair => .pair pair.1 pair.2)).map fun entries =>
    .table (toEntries entries)

end ScriptWorker.Toml
