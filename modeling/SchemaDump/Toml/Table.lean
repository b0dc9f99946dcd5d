/- Tables of TOML and the rules on defining their keys. -/
namespace SchemaDump.Toml

/-- A value. Nothing asks for the content of numbers, truth values, dates and inline tables. -/
inductive Value
  | string (text : String)
  | array (elements : List Value)
  | other

/-- How a table came to be: by a header of its own, by a header of a table within it, or by a
dotted key. -/
inductive Origin
  | header
  | implied
  | dotted
  deriving DecidableEq

/-- What a key stands for. -/
inductive Node
  | value (v : Value)
  | table (origin : Origin) (entries : List (String × Node))
  | tables (elements : List (List (String × Node)))

/-- The entries of a table, in the order of their definitions. -/
abbrev Entries := List (String × Node)

namespace Entries

/-- Changes what a key stands for, if that is allowed; `none` is a key without a meaning yet. -/
def alter (key : String) (change : Option Node → Option Node) : Entries → Option Entries
  | [] => (change none).map fun node => [(key, node)]
  | (k, node) :: entries =>
      if k = key then (change (some node)).map fun node => (k, node) :: entries
      else (alter key change entries).map ((k, node) :: ·)

/-- Changes the table at the end of a path. Missing tables on the way are created, and of an array
of tables the last one is meant. Dotted keys do not reach into a table with its own header. -/
def within (dotted : Bool) (act : Origin → Entries → Option Entries) :
    List String → Origin → Entries → Option Entries
  | [], origin, entries => act origin entries
  | key :: path, _, entries =>
      let created := if dotted then Origin.dotted else .implied
      alter key (fun
        | none => (within dotted act path created []).map (.table created)
        | some (.value _) => none
        | some (.tables elements) => do
            let last ← elements.getLast?
            let last ← within dotted act path .header last
            return .tables (elements.dropLast ++ [last])
        | some (.table origin inner) =>
            if dotted && origin = .header then none
            else (within dotted act path origin inner).map (.table origin)) entries

/-- Defines a key that has no meaning yet. -/
def define (key : String) (v : Value) : Entries → Option Entries :=
  alter key fun
    | none => some (.value v)
    | some _ => none

/-- Defines a dotted key. The table it belongs to has to be one that dotted keys make up. -/
def defineDotted (path : List String) (key : String) (v : Value) : Entries → Option Entries :=
  within true
    (fun origin entries =>
      if path.isEmpty || origin = .dotted then define key v entries else none)
    path .header

/-- Opens a table by its header: a new one, or one that other headers only implied. -/
def openTable (path : List String) (key : String) : Entries → Option Entries :=
  within false
    (fun _ => alter key fun
      | none => some (.table .header [])
      | some (.table .implied inner) => some (.table .header inner)
      | some _ => none)
    path .header

/-- Opens one more table of an array of tables. -/
def openElement (path : List String) (key : String) : Entries → Option Entries :=
  within false
    (fun _ => alter key fun
      | none => some (.tables [[]])
      | some (.tables elements) => some (.tables (elements ++ [[]]))
      | some _ => none)
    path .header

def find? (entries : Entries) (key : String) : Option Node :=
  (List.find? (fun entry => entry.1 = key) entries).map (·.2)

end Entries
end SchemaDump.Toml
