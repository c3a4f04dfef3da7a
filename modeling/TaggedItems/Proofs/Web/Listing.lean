import TaggedItems.Proofs.Ascending
import TaggedItems.Proofs.Json.Delimiting
import TaggedItems.Web.Service
/-!
# What a listing tells

The items that a query finds are sent as an array. Its text tells the items apart by their numbers,
their contents and the names of their tags, and by nothing else: how the tags came to be there
leaves no trace (`ofItems_body_eq_iff`).
-/
namespace TaggedItems

/-! ## How tags come to be there -/

/-- How a set of tags came about: by collecting names, or by adding one to a set that was there. -/
inductive TagSet.History where
  | collected (names : List String)
  | inserted (before : History) (name : String)

namespace TagSet.History

/-- The set that is there in the end. -/
def set : History → TagSet
  | .collected names => .ofList names
  | .inserted before name => before.set.insert name

/-- The names that occur, latest first. -/
def names : History → List String
  | .collected names => names
  | .inserted before name => name :: before.names

theorem mem_set {history : History} {name : String} :
    name ∈ history.set ↔ name ∈ history.names := by
  induction history with
  | collected names => exact mem_ofList
  | inserted before latest ih => rw [set, mem_insert, ih, names, List.mem_cons]

/-- The order and the number of times do not matter. -/
theorem set_eq_iff {history other : History} :
    history.set = other.set ↔ ∀ name, name ∈ history.names ↔ name ∈ other.names := by
  simp only [TagSet.ext_iff, mem_set]

end TagSet.History

/-- What an item is made from. -/
structure Item.Draft where
  id : Identity
  content : String
  tags : TagSet.History

namespace Item.Draft

def item (draft : Draft) : Item := ⟨draft.id, draft.content, draft.tags.set⟩

/-- The number, the content and the names of the tags are the same. -/
structure Alike (draft other : Draft) : Prop where
  id : draft.id = other.id
  content : draft.content = other.content
  tags : ∀ name, name ∈ draft.tags.names ↔ name ∈ other.tags.names

theorem item_eq_iff {draft other : Draft} : draft.item = other.item ↔ draft.Alike other := by
  rw [item, item, Item.mk.injEq, TagSet.History.set_eq_iff]
  constructor
  · rintro ⟨id, content, tags⟩
    exact ⟨id, content, tags⟩
  · rintro ⟨id, content, tags⟩
    exact ⟨id, content, tags⟩

end Item.Draft

/-! ## The text of an item -/

theorem TagSet.selfDelimiting_json : Json.SelfDelimiting TagSet.json := by
  intro a b u v same
  have opens (name : String) : ∃ c rest, (Json.string name).toList = c :: rest ∧ c ≠ ']' :=
    ⟨'"', _, Json.toList_string name, by decide⟩
  obtain ⟨names, ends⟩ := Json.selfDelimiting_array Json.selfDelimiting_string opens same
  exact ⟨TagSet.mk.injEq .. ▸ names, ends⟩

/-- The number ends at a comma; content and tags end by themselves. -/
theorem Item.toList_json (item : Item) :
    item.json.toList =
      "\x7b\"Id\":".toList ++ (Decimal.chars item.id ++ ',' ::
        ("\"Content\":".toList ++ ((Json.string item.content).toList ++
          (",\"Tags\":".toList ++ (item.tags.json.toList ++ ['\x7d']))))) := by
  have id : (Json.string "Id").toList = "\"Id\"".toList := by decide
  have content : (Json.string "Content").toList = "\"Content\"".toList := by decide
  have tags : (Json.string "Tags").toList = "\"Tags\"".toList := by decide
  simp [Item.json, Json.object, Json.toList_commas_cons, Decimal.text, id, content, tags]

theorem Item.selfDelimiting_json : Json.SelfDelimiting Item.json := by
  intro a b u v same
  simp only [Item.toList_json, List.append_assoc, List.cons_append] at same
  obtain ⟨id, same⟩ := Json.number_inj (List.append_cancel_left same)
  obtain ⟨content, same⟩ := Json.selfDelimiting_string (List.append_cancel_left same)
  obtain ⟨tags, same⟩ := TagSet.selfDelimiting_json (List.append_cancel_left same)
  exact ⟨Item.mk.injEq .. ▸ ⟨id, content, tags⟩, (List.cons.inj same).2⟩

theorem Item.json_opens (item : Item) : ∃ c rest, item.json.toList = c :: rest ∧ c ≠ ']' :=
  ⟨'\x7b', _, Item.toList_json item, by decide⟩

/-- A listing tells all about its items. -/
theorem Web.ofItems_body_inj {items others : List Item}
    (same : (Response.ofItems items).body = (Response.ofItems others).body) : items = others := by
  have text : (Json.array (items.map Item.json)).toList ++ [] =
      (Json.array (others.map Item.json)).toList ++ [] := by
    rw [List.append_nil, List.append_nil]
    exact congrArg String.toList same
  exact (Json.selfDelimiting_array Item.selfDelimiting_json Item.json_opens text).1

/-- The texts of two listings are equal exactly if both have the same number of items, and items in
the same place have the same number, the same content and tags of the same names. -/
theorem Web.ofItems_body_eq_iff (drafts others : List Item.Draft) :
    (Response.ofItems (drafts.map Item.Draft.item)).body =
        (Response.ofItems (others.map Item.Draft.item)).body ↔
      List.Forall₂ Item.Draft.Alike drafts others := by
  have items : drafts.map Item.Draft.item = others.map Item.Draft.item ↔
      List.Forall₂ Item.Draft.Alike drafts others := by
    rw [← List.forall₂_eq_eq_eq, List.forall₂_map_left_iff, List.forall₂_map_right_iff]
    simp only [Item.Draft.item_eq_iff]
  rw [← items]
  exact ⟨ofItems_body_inj, fun same => same ▸ rfl⟩

/-- The content looks like the end of an item, and the tag that came last stands first. -/
example : (Item.Draft.item ⟨7, "\"\x7d\x01", .inserted (.collected ["é", "b", "é"]) "a"⟩).json =
    "\x7b\"Id\":7,\"Content\":\"\\\"\x7d\\u0001\",\"Tags\":[\"a\",\"b\",\"é\"]\x7d" := by
  decide +kernel

end TaggedItems
