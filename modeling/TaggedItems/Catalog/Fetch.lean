import TaggedItems.Catalog.Basic
import TaggedItems.Join
/-!
# Fetching items

One item is fetched by an outer join, so that it is found without any tag. All tagged items are
fetched by one inner join, whose rows are put in order and gathered into items. Either way all three
tables are named, and the content is read once for each item that is found. Main statements:
`byItem_perm` and `byItem_ordered`.
-/
namespace TaggedItems.Catalog

/-- The links of an item. -/
def linksOf (links : List Link) (record : Record) : List Link := links.filter (·.item = record.id)

/-- The tag of a link. -/
def tagsOf (tags : List Tag) (link : Link) : List Tag := tags.filter (·.id = link.tag)

/-- One item's rows: each tag's name, or a single row without a name. -/
def outerRows (tags : List Tag) (links : List Link) (records : List Record) :
    List (Record × Option String) :=
  let linked := Join.left records (linksOf links)
  let named := Join.left linked fun (_, link) => link.toList.flatMap (tagsOf tags)
  named.map fun ((record, _), tag) => (record, tag.map (·.name))

/-- The item that its rows describe. The content is taken from the first row. -/
def gatherOne : List (Record × Option String) → Except Fault (Option Item)
  | [] => .ok none
  | (record, name) :: rest => do
    let content ← record.read
    pure (some ⟨record.id, content, .ofList (((record, name) :: rest).filterMap (·.2))⟩)

/-- One item with all its tags. An item without tags is found too. -/
def fetchItem (catalog : Catalog) (item : Identity) : Except Fault (Option Item) := do
  let items ← catalog.itemTable
  let links ← catalog.linkTable
  let tags ← catalog.tagTable
  gatherOne (outerRows tags.rows links (items.rows.filter (·.id = item)))

/-- A row for every link: the item and the name of the tag. -/
def innerRows (tags : List Tag) (links : List Link) (records : List Record) :
    List (Record × String) :=
  let linked := Join.inner records (linksOf links)
  let named := Join.inner linked fun (_, link) => tagsOf tags link
  named.map fun ((record, _), tag) => (record, tag.name)

/-- Adds a row to the items gathered so far, the latest of which comes first. A row of the latest
item is a further tag of it; any other row starts an item, whose content is read. -/
def gatherRow (gathered : List Item) (row : Record × String) : Except Fault (List Item) :=
  match gathered with
  | latest :: earlier =>
    if latest.id = row.1.id then .ok (latest.tag row.2 :: earlier)
    else row.1.read.map fun content =>
      (⟨row.1.id, content, TagSet.empty.insert row.2⟩ : Item) :: latest :: earlier
  | [] => row.1.read.map fun content => [⟨row.1.id, content, TagSet.empty.insert row.2⟩]

/-- The items that rows describe, where the rows of an item stand side by side. -/
def gather (rows : List (Record × String)) : Except Fault (List Item) :=
  (rows.foldlM gatherRow []).map List.reverse

/-- Puts a row in front of the first row whose item is not below its own. -/
def placeRow (row : Record × String) : List (Record × String) → List (Record × String)
  | [] => [row]
  | other :: rest =>
    if row.1.id ≤ other.1.id then row :: other :: rest else other :: placeRow row rest

/-- Rows in ascending order of their items. The rows of one item keep their order. -/
def byItem (rows : List (Record × String)) : List (Record × String) := rows.foldr placeRow []

theorem placeRow_perm (row : Record × String) (rows : List (Record × String)) :
    (placeRow row rows).Perm (row :: rows) := by
  induction rows with
  | nil => exact .refl _
  | cons other rest ih =>
    unfold placeRow
    split
    · exact .refl _
    · exact (ih.cons other).trans (.swap row other rest)

theorem byItem_perm (rows : List (Record × String)) : (byItem rows).Perm rows := by
  induction rows with
  | nil => exact .refl _
  | cons row rest ih => exact (placeRow_perm row (byItem rest)).trans (ih.cons row)

theorem placeRow_ordered {row : Record × String} {rows : List (Record × String)}
    (h : rows.Pairwise fun a b => a.1.id ≤ b.1.id) :
    (placeRow row rows).Pairwise fun a b => a.1.id ≤ b.1.id := by
  induction rows with
  | nil => simp [placeRow]
  | cons other rest ih =>
    obtain ⟨above, ordered⟩ := List.pairwise_cons.mp h
    unfold placeRow
    split
    · rename_i le
      refine List.pairwise_cons.mpr ⟨fun a ha => ?_, h⟩
      rcases List.mem_cons.mp ha with rfl | later
      · exact le
      · exact Int.le_trans le (above a later)
    · rename_i notLe
      refine List.pairwise_cons.mpr ⟨fun a ha => ?_, ih ordered⟩
      rcases List.mem_cons.mp ((placeRow_perm row rest).mem_iff.mp ha) with rfl | later
      · exact Int.le_of_lt (Int.not_le.mp notLe)
      · exact above a later

/-- The rows that come out stand in ascending order of their items. -/
theorem byItem_ordered (rows : List (Record × String)) :
    (byItem rows).Pairwise fun a b => a.1.id ≤ b.1.id := by
  induction rows with
  | nil => exact .nil
  | cons row rest ih => exact placeRow_ordered ih

/-- Every item that has a tag, with all its tags, in ascending order of identity. -/
def fetchTagged (catalog : Catalog) : Except Fault (List Item) := do
  let items ← catalog.itemTable
  let links ← catalog.linkTable
  let tags ← catalog.tagTable
  gather (byItem (innerRows tags.rows links items.rows))

/-- The items that a query matches. With a target that item alone is a candidate, and without one
every tagged item is. -/
def fetchMatching (catalog : Catalog) (predicates : PredicateSet) (target : Option Identity) :
    Except Fault (List Item) := do
  let candidates ← match target with
    | some item => Option.toList <$> catalog.fetchItem item
    | none => catalog.fetchTagged
  pure (candidates.filter (·.satisfies predicates))

end TaggedItems.Catalog
