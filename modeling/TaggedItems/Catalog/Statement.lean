import TaggedItems.Catalog.Basic
/-!
# Statements

The single steps from which operations are composed. Each names certain tables, fails if one of
them is missing, and leaves all other tables as they are.
-/
namespace TaggedItems.Catalog

/-- The tag of a name, if the name was ever kept. -/
def findTag (catalog : Catalog) (name : String) : Except Fault (Option Tag) := do
  let table ← catalog.tagTable
  pure (table.rows.find? (·.name = name))

/-- The tag of a name, which is created at its first use. The counter advances by one in either
case, so tags are numbered by the uses that came before them. -/
def keepTag (catalog : Catalog) (name : String) : Except Fault (Tag × Catalog) := do
  let table ← catalog.tagTable
  let next := table.counter + 1
  match table.rows.find? (·.name = name) with
  | some tag => pure (tag, { catalog with tags := some ⟨next, table.rows⟩ })
  | none =>
    let tag := ⟨next, name⟩
    pure (tag, { catalog with tags := some ⟨next, table.rows ++ [tag]⟩ })

/-- Adds an item under the next number. -/
def insertItem (catalog : Catalog) (content : String) : Except Fault (Identity × Catalog) := do
  let table ← catalog.itemTable
  let next := table.counter + 1
  pure (next, { catalog with items := some ⟨next, table.rows ++ [⟨next, .text content⟩]⟩ })

/-- Whether there is an item of this number. Its content is not read. -/
def itemExists (catalog : Catalog) (item : Identity) : Except Fault Bool := do
  let table ← catalog.itemTable
  pure (table.rows.any (·.id = item))

/-- Replaces an item's content, readable or not, and says whether there was an item. -/
def replaceContent (catalog : Catalog) (item : Identity) (content : String) :
    Except Fault (Bool × Catalog) := do
  let table ← catalog.itemTable
  let replace (record : Record) : Record :=
    if record.id = item then { record with content := .text content } else record
  pure (table.rows.any (·.id = item),
    { catalog with items := some { table with rows := table.rows.map replace } })

/-- Removes an item together with its links, and says whether there was one. -/
def removeItem (catalog : Catalog) (item : Identity) : Except Fault (Bool × Catalog) := do
  let table ← catalog.itemTable
  if table.rows.any (·.id = item) then
    pure (true, { catalog with
      items := some { table with rows := table.rows.filter (·.id ≠ item) }
      links := catalog.links.map (·.filter (·.item ≠ item)) })
  else pure (false, catalog)

/-- Links an item to a tag, once at most. -/
def associate (catalog : Catalog) (item tag : Identity) : Except Fault Catalog := do
  let links ← catalog.linkTable
  if ⟨item, tag⟩ ∈ links then pure catalog
  else pure { catalog with links := some (links ++ [⟨item, tag⟩]) }

/-- Takes a link away, if there is one. -/
def dissociate (catalog : Catalog) (item tag : Identity) : Except Fault Catalog := do
  let links ← catalog.linkTable
  pure { catalog with links := some (links.filter (· ≠ ⟨item, tag⟩)) }

/-- The number of items, with or without tags. -/
def countItems (catalog : Catalog) : Except Fault Nat := do
  let table ← catalog.itemTable
  pure table.rows.length

end TaggedItems.Catalog
