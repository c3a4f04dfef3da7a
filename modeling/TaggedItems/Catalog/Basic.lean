import TaggedItems.Item
/-!
# Catalogs

A catalog holds tags, items and the links between them in three tables. Each table may be missing,
and an item's content may be unreadable, because others can change the tables from outside.
-/
namespace TaggedItems

/-- Numbered rows, and the counter from which their numbers came. -/
structure Table (Row : Type) where
  counter : Identity
  rows : List Row
  deriving DecidableEq

/-- A table that has handed out no number yet. -/
def Table.empty {Row : Type} : Table Row := ⟨0, []⟩

/-- What is stored as the content of an item. -/
inductive Content where
  | text (s : String)
  | unreadable
  deriving DecidableEq

/-- An item as its table holds it. -/
structure Record where
  id : Identity
  content : Content
  deriving DecidableEq

/-- Says that an item carries a tag. -/
structure Link where
  item : Identity
  tag : Identity
  deriving DecidableEq

/-- The three tables, each there or missing. -/
structure Catalog where
  tags : Option (Table Tag)
  items : Option (Table Record)
  links : Option (List Link)
  deriving DecidableEq

/-- Why a statement fails. -/
inductive Fault where
  | noTags
  | noItems
  | noLinks
  | unreadable (item : Identity)
  deriving DecidableEq

/-- The text of an item's content. -/
def Record.read (record : Record) : Except Fault String :=
  match record.content with
  | .text s => .ok s
  | .unreadable => .error (.unreadable record.id)

namespace Catalog

/-- A fresh catalog has all its tables, and nothing in them. -/
def initial : Catalog := ⟨some .empty, some .empty, some []⟩

/-- The tag table, which a statement that names it needs. -/
def tagTable (catalog : Catalog) : Except Fault (Table Tag) :=
  match catalog.tags with
  | some table => .ok table
  | none => .error .noTags

/-- The item table, which a statement that names it needs. -/
def itemTable (catalog : Catalog) : Except Fault (Table Record) :=
  match catalog.items with
  | some table => .ok table
  | none => .error .noItems

/-- The link table, which a statement that names it needs. -/
def linkTable (catalog : Catalog) : Except Fault (List Link) :=
  match catalog.links with
  | some table => .ok table
  | none => .error .noLinks

end Catalog
end TaggedItems
