import TaggedItems.Settings.Value
/-!
# TOML tables

What a document has defined so far, by full path. No path is defined twice, and a table can be
reached again only in the ways in which it was begun.
-/
namespace TaggedItems.Toml

open Settings (Value)

/-- What stands at a path. -/
inductive Node where
  /-- A value that is complete. -/
  | leaf (v : Value)
  /-- A table with a header of its own. -/
  | headed
  /-- A table that only lies on the way to a header. -/
  | passed
  /-- A table made by dots in a key. -/
  | dotted
  /-- A list of tables, of which the last one is being defined. -/
  | listed
  deriving DecidableEq

/-- The paths that are defined, each with what stands there. -/
abbrev Tables := List (List String × Node)

namespace Tables

/-- What stands at a path. -/
def at? (tables : Tables) (path : List String) : Option Node :=
  (tables.find? (·.1 = path)).map (·.2)

/-- Puts something else in the place of what stands at a path. -/
def replace (tables : Tables) (path : List String) (node : Node) : Tables :=
  tables.map fun entry => if entry.1 = path then (path, node) else entry

/-- Goes through the tables on the way to a key, making those that are missing. A table with a
header of its own may not be met. One that only lay on the way to a header is from then on a table
made by dots, so it gets no header of its own any more. -/
def passDots (tables : Tables) (base : List String) : List String → Option Tables
  | [] => some tables
  | step :: rest =>
    let path := base ++ [step]
    match tables.at? path with
    | none => passDots (tables ++ [(path, .dotted)]) path rest
    | some .passed => passDots (tables.replace path .dotted) path rest
    | some .dotted | some .listed => passDots tables path rest
    | some .headed | some (.leaf _) => none

/-- Goes through the tables on the way to a header, making those that are missing. -/
def passHeaders (tables : Tables) (base : List String) : List String → Option Tables
  | [] => some tables
  | step :: rest =>
    let path := base ++ [step]
    match tables.at? path with
    | none => passHeaders (tables ++ [(path, .passed)]) path rest
    | some (.leaf _) => none
    | some _ => passHeaders tables path rest

/-- Gives a key within a table its value. Dots do not add a value to a table of a list itself, only
to tables within it. -/
def setValue (tables : Tables) (base key : List String) (v : Value) : Option Tables := do
  let way := key.dropLast
  let passed ← passDots tables base way
  if way ≠ [] ∧ passed.at? (base ++ way) = some .listed then none
  else match passed.at? (base ++ key) with
    | none => pure (passed ++ [(base ++ key, .leaf v)])
    | some _ => none

/-- Begins the table of a header. A table that only lay on a way may be begun now. -/
def beginTable (tables : Tables) (path : List String) : Option Tables := do
  let passed ← passHeaders tables [] path.dropLast
  match passed.at? path with
  | none => pure (passed ++ [(path, .headed)])
  | some .passed => pure (passed.replace path .headed)
  | some _ => none

/-- Begins the next table of a list. What the one before it holds no longer stands in the way. -/
def beginListed (tables : Tables) (path : List String) : Option Tables := do
  let passed ← passHeaders tables [] path.dropLast
  match passed.at? path with
  | none => pure (passed ++ [(path, .listed)])
  | some .listed => pure (passed.filter fun entry => entry.1 = path ∨ ¬ path <+: entry.1)
  | some _ => none

/-- The keys of the document itself, with their values. -/
def topLevel (tables : Tables) : List (String × Value) :=
  tables.filterMap fun entry =>
    match entry with
    | ([key], .leaf v) => some (key, v)
    | ([key], _) => some (key, .composite)
    | _ => none

end Tables
end TaggedItems.Toml
