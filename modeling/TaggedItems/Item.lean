import TaggedItems.Json.Text
import TaggedItems.PredicateSet
import TaggedItems.TagSet
/-!
# Tags and items

A tag is a numbered name. An item is a numbered content together with the names of its tags, and it
is found by the predicates that it satisfies.
-/
namespace TaggedItems

/-- A name and the number that it got at its first use. -/
structure Tag where
  id : Identity
  name : String
  deriving DecidableEq

/-- The name, then the number. -/
def Tag.text (tag : Tag) : String := tag.name ++ "#" ++ Decimal.text tag.id

/-- The names as an array. -/
def TagSet.json (set : TagSet) : String := Json.array (set.names.map Json.string)

/-- A content with its identity and its tags. -/
structure Item where
  id : Identity
  content : String
  tags : TagSet
  deriving DecidableEq

namespace Item

/-- Adds a tag. -/
def tag (item : Item) (name : String) : Item := { item with tags := item.tags.insert name }

/-- Adds a tag, and says whether it is new. -/
def addTag (item : Item) (name : String) : Bool × Item :=
  ((item.tags.add name).1, item.tag name)

/-- A predicate that names the item's own identity refuses the item, whatever its sign. Any other
predicate is met if its tag is there when it is asked for and not there when it is refused. -/
def meets (item : Item) (p : Predicate) : Bool :=
  if p.identity? = some item.id then false
  else match p.sign with
    | .includes => item.tags.contains p.name
    | .excludes => !item.tags.contains p.name

/-- Every predicate is met. The empty set is satisfied by every item. -/
def satisfies (item : Item) (predicates : PredicateSet) : Bool :=
  predicates.toList.all item.meets

/-- The identity, the tags, and the size of the content in UTF-8 bytes. -/
def text (item : Item) : String :=
  Decimal.text item.id ++ item.tags.text ++ " (" ++ Decimal.text item.content.utf8ByteSize
    ++ " bytes)"

def json (item : Item) : String :=
  Json.object
    [("Id", Decimal.text item.id),
     ("Content", Json.string item.content),
     ("Tags", item.tags.json)]

end Item
end TaggedItems
