import PegScan.Data

/-!
# TOML tables
A table that is being filled. How a table came about decides who may still add to it: a
section header defines each table once, and dotted keys add only to tables that no header
has defined. A table that is only implied by longer headers is passed on the way to a further
table, but takes no values.
-/

namespace PegScan.Toml

/-- A table is defined by a header, implied by a longer header, or made by a dotted key. -/
inductive Origin
  | header
  | implied
  | dotted
  deriving DecidableEq, Repr

/-- A dotted key with these parts left may go on in a table. -/
def Origin.admits (path : List String) : Origin → Bool
  | .header => false
  | .implied => 2 ≤ path.length
  | .dotted => true

/-- Values are closed. Of a list of tables, the row that headers refer to comes first. -/
inductive Node
  | value (data : Data)
  | table (origin : Origin) (members : List (String × Node))
  | rows (current : List (String × Node)) (earlier : List (List (String × Node)))

abbrev Table := List (String × Node)

mutual

def Node.toData : Node → Data
  | .value data => data
  | .table _ members => .table (membersData members)
  | .rows current earlier => .list (rowsData earlier [.table (membersData current)])

def membersData : List (String × Node) → List (Option String × Data)
  | [] => []
  | (key, node) :: members => (some key, node.toData) :: membersData members

def rowsData : List (List (String × Node)) → List Data → List Data
  | [], later => later
  | row :: earlier, later => rowsData earlier (.table (membersData row) :: later)

end

namespace Table

def toData (t : Table) : Data := .table (membersData t)

/-- Changes the node of a key, which may be missing, or refuses to. -/
def alter? (key : String) (f : Option Node → Option Node) : Table → Option Table
  | [] => do return [(key, ← f none)]
  | (k, node) :: rest =>
    if k = key then do return (k, ← f (some node)) :: rest
    else do return (k, node) :: (← alter? key f rest)

/-- Gives a dotted key its value. -/
def assign? (value : Data) : List String → Table → Option Table
  | [], _ => none
  | [key], t =>
    t.alter? key fun
      | none => some (.value value)
      | some _ => none
  | key :: path, t =>
    t.alter? key fun
      | none => do return .table .dotted (← assign? value path [])
      | some (.table origin members) => do
        if origin.admits path then return .table origin (← assign? value path members) else none
      | some (.rows current earlier) => do
        if Origin.implied.admits path then return .rows (← assign? value path current) earlier
        else none
      | some (.value _) => none

/-- Changes the table that a header has opened. -/
def within? (f : Table → Option Table) : List String → Table → Option Table
  | [], t => f t
  | key :: path, t =>
    t.alter? key fun
      | some (.table origin members) => do return .table origin (← within? f path members)
      | some (.rows current earlier) => do return .rows (← within? f path current) earlier
      | _ => none

/-- Follows the keys of a header up to its last one, whose node is changed. -/
def openAt? (last : Option Node → Option Node) : List String → Table → Option Table
  | [], _ => none
  | [key], t => t.alter? key last
  | key :: path, t =>
    t.alter? key fun
      | none => do return .table .implied (← openAt? last path [])
      | some (.table origin members) => do return .table origin (← openAt? last path members)
      | some (.rows current earlier) => do return .rows (← openAt? last path current) earlier
      | some (.value _) => none

/-- A header opens a table that is new, or that so far was only implied. -/
def openTable? : List String → Table → Option Table :=
  openAt? fun
    | none => some (.table .header [])
    | some (.table .implied members) => some (.table .header members)
    | some _ => none

/-- A doubled header opens a new row of a list of tables. -/
def openRow? : List String → Table → Option Table :=
  openAt? fun
    | none => some (.rows [] [])
    | some (.rows current earlier) => some (.rows [] (current :: earlier))
    | some _ => none

end Table
end PegScan.Toml
