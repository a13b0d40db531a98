import SourceRepair.Config.Setting

/-!
# The tables of a TOML document

While a document is read, its tables remember how they came about, because that decides what may
still be added to them. A table may be opened once by a header. One that only a deeper header needed
may be opened later. One that arose from a dotted key takes more dotted keys and no header. Values,
with the arrays and tables written inside them, take nothing more.
-/

namespace SourceRepair.Toml

/-- How a table came about. -/
inductive Origin where
  /-- A deeper header needed it. -/
  | implied
  /-- A header opened it. -/
  | opened
  /-- A dotted key needed it. -/
  | dotted
  deriving DecidableEq, Repr

/-- What stands under a key of a document. -/
inductive Node where
  | value (value : Setting)
  | table (origin : Origin) (members : List (String × Node))
  /-- An array of tables that headers open one after another; the last one is open. -/
  | tables (earlier : List (List (String × Node))) (last : List (String × Node))

/-- The members of a table. -/
abbrev Members : Type := List (String × Node)

namespace Node

mutual

/-- The setting that a node stands for. -/
def toSetting : Node → Setting
  | .value setting => setting
  | .table _ members => .table (membersToSettings members)
  | .tables earlier last =>
    .array (tablesToSettings earlier ++ [.table (membersToSettings last)])

/-- The settings of members. -/
def membersToSettings : List (String × Node) → List (String × Setting)
  | [] => []
  | (key, node) :: members => (key, node.toSetting) :: membersToSettings members

/-- The settings of tables in an array. -/
def tablesToSettings : List (List (String × Node)) → List Setting
  | [] => []
  | members :: more => .table (membersToSettings members) :: tablesToSettings more

end

end Node

namespace Members

/-- Replaces the node under a key, or adds the key at the end. -/
def put (key : String) (node : Node) : Members → Members
  | [] => [(key, node)]
  | (k, old) :: members =>
    if k = key then (key, node) :: members else (k, old) :: put key node members

/-- Adds a value under a dotted key, given by its parts before the last and the last one. -/
def insert (value : Setting) (last : String) : List String → Members → Option Members
  | [], members =>
    match members.lookup last with
    | none => some (put last (.value value) members)
    | some _ => none
  | key :: keys, members =>
    match members.lookup key with
    | none => (insert value last keys []).map fun inner => put key (.table .dotted inner) members
    | some (.table .dotted inner) =>
      (insert value last keys inner).map fun inner => put key (.table .dotted inner) members
    | some (.table .implied inner) =>
      if keys = [] then none
      else
        (insert value last keys inner).map fun inner => put key (.table .implied inner) members
    | some _ => none

/-- Changes the table that a header's keys lead to; tables that are missing are implied. -/
def update (change : Members → Option Members) : List String → Members → Option Members
  | [], members => change members
  | key :: keys, members =>
    match members.lookup key with
    | none => (update change keys []).map fun inner => put key (.table .implied inner) members
    | some (.table origin inner) =>
      (update change keys inner).map fun inner => put key (.table origin inner) members
    | some (.tables earlier last) =>
      (update change keys last).map fun last => put key (.tables earlier last) members
    | some (.value _) => none

/-- Opens a table under a key. -/
def openTable (key : String) (members : Members) : Option Members :=
  match members.lookup key with
  | none => some (put key (.table .opened []) members)
  | some (.table .implied inner) => some (put key (.table .opened inner) members)
  | some _ => none

/-- Opens the next table of the array of tables under a key. -/
def openNext (key : String) (members : Members) : Option Members :=
  match members.lookup key with
  | none => some (put key (.tables [] []) members)
  | some (.tables earlier last) => some (put key (.tables (earlier ++ [last]) []) members)
  | some _ => none

end Members

end SourceRepair.Toml
