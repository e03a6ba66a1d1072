/-
  SolidTree.Toml.Value
  ────────────────────
  **SETTINGS IN TABLES.**

  The values of a settings file: texts, numbers, truth values, moments in
  time, arrays, and tables of further values.

  While a file is read, a table remembers how it came about, because that
  decides what may still be added to it:

      header   — its own line in brackets; complete when the next one starts
      implied  — named on the way to another table; it may get a header later
      dotted   — named by a dotted key; it may get further dotted keys only
-/
namespace SolidTree

/-! ## §1. Values. -/

/-- A value of a settings file. -/
inductive Toml where
  | text (s : String)
  | integer (n : Int)
  | float (x : Float)
  | boolean (b : Bool)
  /-- A date, a time, or both, as it is written. -/
  | moment (written : String)
  | array (items : List Toml)
  | table (entries : List (String × Toml))

namespace Toml

/-- The value under a key of a table. -/
def get? (entries : List (String × Toml)) (key : String) : Option Toml := entries.lookup key

/-! ## §2. Tables in the making. -/

/-- How a table came about. -/
inductive Origin where
  | header
  | implied
  | dotted
  deriving Repr, DecidableEq

/-- An item of a table that is being read. -/
inductive Draft where
  | value (v : Toml)
  | table (origin : Origin) (entries : List (String × Draft))
  /-- An array of tables, each with a header of its own. -/
  | tables (items : List (List (String × Draft)))

/-- The entries of a table that is being read. -/
abbrev Entries := List (String × Draft)

mutual

/-- The value of an item. -/
def Draft.toToml : Draft → Toml
  | .value v => v
  | .table _ entries => .table (valuesOf entries)
  | .tables items => .array (tablesOf items)

/-- The values of some entries. -/
def valuesOf : List (String × Draft) → List (String × Toml)
  | [] => []
  | (key, item) :: rest => (key, item.toToml) :: valuesOf rest

/-- The tables of an array of them. -/
def tablesOf : List (List (String × Draft)) → List Toml
  | [] => []
  | entries :: rest => .table (valuesOf entries) :: tablesOf rest

end

namespace Entries

/-- The entries with another item under a key that is there. -/
def replace (entries : Entries) (key : String) (item : Draft) : Entries :=
  entries.map fun entry => if entry.1 = key then (key, item) else entry

/-- The entries with a change made in the table at the end of a path. Tables that are
missing on the way are made; an array of tables stands for its last one. A path of a
dotted key does not lead into a table that has a header. -/
def update (dotted : Bool) (edit : Origin → Entries → Option Entries) :
    (path : List String) → Origin → Entries → Option Entries
  | [], origin, entries => edit origin entries
  | key :: rest, _, entries =>
    match entries.lookup key with
    | none =>
      let origin := if dotted then Origin.dotted else .implied
      (update dotted edit rest origin []).map fun inner =>
        entries ++ [(key, .table origin inner)]
    | some (.value _) => none
    | some (.table origin inner) =>
      if dotted ∧ origin = .header then none
      else (update dotted edit rest origin inner).map fun inner =>
        replace entries key (.table origin inner)
    | some (.tables items) =>
      match items.getLast? with
      | none => none
      | some inner => (update dotted edit rest .header inner).map fun inner =>
        replace entries key (.tables (items.dropLast ++ [inner]))

/-- One more value under a dotted key. A dotted key ends in a table that dotted keys
made, and a key by itself in one that they did not. -/
def insert (entries : Entries) (origin : Origin) (path : List String) (key : String)
    (v : Toml) : Option Entries :=
  update true
    (fun origin inner =>
      if (origin == .dotted) == path.isEmpty then none
      else match inner.lookup key with
        | some _ => none
        | none => some (inner ++ [(key, .value v)]))
    path origin entries

/-- A header for a table. A table has one header at most, and dotted keys leave no
place for one. -/
def openTable (entries : Entries) (path : List String) (key : String) : Option Entries :=
  update false
    (fun _ inner =>
      match inner.lookup key with
      | none => some (inner ++ [(key, .table .header [])])
      | some (.table .implied items) => some (replace inner key (.table .header items))
      | _ => none)
    path .header entries

/-- A header for one more table of an array. -/
def appendTable (entries : Entries) (path : List String) (key : String) : Option Entries :=
  update false
    (fun _ inner =>
      match inner.lookup key with
      | none => some (inner ++ [(key, .tables [[]])])
      | some (.tables items) => some (replace inner key (.tables (items ++ [[]])))
      | _ => none)
    path .header entries

end Entries

/-! ## §3. Lines. -/

/-- What a line says. A path ends in its key. -/
inductive Line where
  | header (path : List String) (key : String)
  | arrayHeader (path : List String) (key : String)
  | pair (path : List String) (key : String) (v : Toml)

/-- The entries after a line, and the path of the table that pairs go into. -/
def Line.add (state : Entries × List String) (line : Line) : Option (Entries × List String) :=
  let (entries, current) := state
  match line with
  | .header path key => (entries.openTable path key).map fun e => (e, path ++ [key])
  | .arrayHeader path key => (entries.appendTable path key).map fun e => (e, path ++ [key])
  | .pair path key v =>
    (entries.update false (fun origin inner => Entries.insert inner origin path key v)
      current .header).map fun e => (e, current)

/-- The entries of a file. -/
def ofLines (lines : List Line) : Option (List (String × Toml)) :=
  (lines.foldlM Line.add ([], [])).map fun state => valuesOf state.1

/-- The entries of a table that is written within a line. -/
def ofPairs (pairs : List (List String × String × Toml)) : Option (List (String × Toml)) :=
  (pairs.foldlM (fun entries (path, key, v) => Entries.insert entries .header path key v)
    []).map valuesOf

end Toml

end SolidTree
