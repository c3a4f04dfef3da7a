import TaggedItems.Catalog.Operation
/-!
# Runs

A catalog's life: operations, the closing and opening of its file, and damage done to the file from
outside. `Reachable` are the catalogs that a fresh one can become.
-/
namespace TaggedItems

/-- The public operations with their arguments. -/
inductive Operation where
  | addTag (name : String)
  | addItem (content : String) (predicates : PredicateSet)
  | tagItem (item : Identity) (predicates : PredicateSet)
  | updateContent (item : Identity) (content : String)
  | getItem (item : Identity)
  | getItems (predicates : PredicateSet) (target : Option Identity)
  | deleteItems (query : Query)
  | put (query : Query) (content : String)
  | itemCount
  deriving DecidableEq

/-- What an operation answers. -/
inductive Answer where
  | identity (id : Option Identity)
  | done (success : Bool)
  | item (found : Option Item)
  | items (found : List Item)
  | deleted (items : List Identity)
  | stored (outcome : Catalog.Outcome)
  | count (items : Nat)
  deriving DecidableEq

/-- Changes to the tables from outside. A table that goes takes its counter along, and the links
go with either of the tables that they refer to. -/
inductive Damage where
  | dropLinks
  | dropTags
  | dropItems
  | dropAll
  | spoil (item : Identity)
  deriving DecidableEq

/-- What can happen to a catalog. -/
inductive Event where
  | operation (o : Operation)
  | reopen
  | damage (d : Damage)
  deriving DecidableEq

namespace Catalog

/-- Carries out an operation. -/
def perform (catalog : Catalog) : Operation → Answer × Catalog
  | .addTag name => (catalog.addTag name).map .identity id
  | .addItem content predicates => (catalog.addItem content predicates).map .identity id
  | .tagItem item predicates => (catalog.tagItem item predicates).map .done id
  | .updateContent item content => (catalog.updateContent item content).map .done id
  | .getItem item => (.item (catalog.getItem item), catalog)
  | .getItems predicates target => (.items (catalog.getItems predicates target), catalog)
  | .deleteItems query => (catalog.deleteItems query).map .deleted id
  | .put query content => (catalog.put query content).map .stored id
  | .itemCount => (.count catalog.itemCount, catalog)

/-- Opening creates the tables that are missing. -/
def reopen (catalog : Catalog) : Catalog :=
  ⟨catalog.tags.getD .empty, catalog.items.getD .empty, catalog.links.getD []⟩

/-- Makes an item's content unreadable. -/
def spoil (item : Identity) (table : Table Record) : Table Record :=
  { table with
    rows := table.rows.map fun record =>
      if record.id = item then { record with content := .unreadable } else record }

/-- Does damage. What is missing already cannot be damaged further. -/
def damage (catalog : Catalog) : Damage → Catalog
  | .dropLinks => { catalog with links := none }
  | .dropTags => { catalog with links := none, tags := none }
  | .dropItems => { catalog with links := none, items := none }
  | .dropAll => ⟨none, none, none⟩
  | .spoil item => { catalog with items := catalog.items.map (spoil item) }

/-- One event. Only operations answer. -/
def step (catalog : Catalog) : Event → Option Answer × Catalog
  | .operation o => (catalog.perform o).map some id
  | .reopen => (none, catalog.reopen)
  | .damage d => (none, catalog.damage d)

/-- Events one after the other: each with its answer, and the catalog in the end. -/
def run (catalog : Catalog) : List Event → List (Event × Option Answer) × Catalog
  | [] => ([], catalog)
  | event :: later =>
    let (answer, changed) := catalog.step event
    let (answers, final) := changed.run later
    ((event, answer) :: answers, final)

/-- What a fresh catalog can become. -/
inductive Reachable : Catalog → Prop
  | initial : Reachable initial
  | step {catalog : Catalog} (event : Event) :
      Reachable catalog → Reachable (catalog.step event).2

end Catalog
end TaggedItems
