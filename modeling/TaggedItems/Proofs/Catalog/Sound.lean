import Mathlib.Data.List.Nodup
import TaggedItems.Catalog.Run
import TaggedItems.Proofs.Work
/-!
# Sound catalogs

What every catalog keeps, damaged or not: numbers come from the counters and are used once, tag
names are distinct, and links are distinct and refer to rows that are there. A missing table counts
as an empty one here. Each statement is opened once (`keepTag_eq_ok`, `removeItem_eq_ok`, ...), and
`Sound` is then kept statement by statement.
-/
namespace TaggedItems

/-- The rows' numbers are distinct and were handed out by the counter. -/
structure Table.Numbered {Row : Type} (number : Row → Int) (table : Table Row) : Prop where
  distinct : (table.rows.map number).Nodup
  handedOut : ∀ row ∈ table.rows, 1 ≤ number row ∧ number row ≤ table.counter
  counter_nonneg : (0 : Int) ≤ table.counter

namespace Table.Numbered
variable {Row : Type} {number : Row → Int} {table : Table Row}

theorem empty : (Table.empty : Table Row).Numbered number :=
  ⟨List.nodup_nil, by simp [Table.empty], Int.le_refl 0⟩

/-- A number above the counter is fresh. -/
theorem ne_next (h : table.Numbered number) {row : Row} (held : row ∈ table.rows) :
    number row ≠ table.counter + 1 := by
  have := (h.handedOut row held).2
  omega

theorem advance (h : table.Numbered number) :
    (⟨table.counter + 1, table.rows⟩ : Table Row).Numbered number := by
  refine ⟨h.distinct, fun row held => ?_, ?_⟩
  · obtain ⟨low, high⟩ := h.handedOut row held
    exact ⟨low, by dsimp; omega⟩
  · have := h.counter_nonneg
    dsimp
    omega

theorem add (h : table.Numbered number) {row : Row} (next : number row = table.counter + 1) :
    (⟨table.counter + 1, table.rows ++ [row]⟩ : Table Row).Numbered number := by
  have nonneg := h.counter_nonneg
  refine ⟨?_, fun other held => ?_, by dsimp; omega⟩
  · rw [List.map_append, List.nodup_append]
    refine ⟨h.distinct, List.nodup_singleton _, fun a ha b hb => ?_⟩
    obtain ⟨other, held, rfl⟩ := List.mem_map.mp ha
    obtain rfl : b = number row := by simpa using hb
    exact next ▸ h.ne_next held
  · rcases List.mem_append.mp held with old | new
    · obtain ⟨low, high⟩ := h.handedOut other old
      exact ⟨low, by dsimp; omega⟩
    · obtain rfl : other = row := by simpa using new
      exact ⟨by omega, by dsimp; omega⟩

/-- Rows may be taken away, or changed but for their numbers. -/
theorem replace (h : table.Numbered number) {rows : List Row}
    (fewer : (rows.map number).Sublist (table.rows.map number)) :
    (⟨table.counter, rows⟩ : Table Row).Numbered number := by
  refine ⟨h.distinct.sublist fewer, fun row held => ?_, h.counter_nonneg⟩
  obtain ⟨old, oldHeld, same⟩ := List.mem_map.mp (fewer.subset (List.mem_map_of_mem held))
  exact same ▸ h.handedOut old oldHeld

/-- A number stands for one row. -/
theorem unique (h : table.Numbered number) {a b : Row} (ha : a ∈ table.rows)
    (hb : b ∈ table.rows) (same : number a = number b) : a = b :=
  List.inj_on_of_nodup_map h.distinct ha hb same

end Table.Numbered

/-- A record with another content, if it is the item's. -/
def Record.withContent (item : Identity) (content : Content) (record : Record) : Record :=
  if record.id = item then { record with content } else record

@[simp] theorem Record.withContent_id (item : Identity) (content : Content) (record : Record) :
    (record.withContent item content).id = record.id := by
  unfold Record.withContent
  split <;> rfl

namespace Catalog
variable {c d : Catalog}

/-- The tag table, empty if it is missing. -/
def heldTags (c : Catalog) : Table Tag := c.tags.getD .empty

/-- The item table, empty if it is missing. -/
def heldItems (c : Catalog) : Table Record := c.items.getD .empty

/-- The link table, empty if it is missing. -/
def heldLinks (c : Catalog) : List Link := c.links.getD []

/-- The item has a row. -/
def Holds (c : Catalog) (item : Identity) : Prop := ∃ record ∈ c.heldItems.rows, record.id = item

instance (c : Catalog) (item : Identity) : Decidable (c.Holds item) :=
  inferInstanceAs (Decidable (∃ record ∈ c.heldItems.rows, record.id = item))

/-- The invariant of the tables. -/
structure Sound (c : Catalog) : Prop where
  tags : c.heldTags.Numbered Tag.id
  names : (c.heldTags.rows.map Tag.name).Nodup
  items : c.heldItems.Numbered Record.id
  links : c.heldLinks.Nodup
  refer : ∀ link ∈ c.heldLinks, c.Holds link.item ∧ ∃ tag ∈ c.heldTags.rows, tag.id = link.tag

/-- All three tables are there. -/
structure Whole (c : Catalog) : Prop where
  tags : c.tags = some c.heldTags
  items : c.items = some c.heldItems
  links : c.links = some c.heldLinks

theorem whole_iff : c.Whole ↔ c.tags ≠ none ∧ c.items ≠ none ∧ c.links ≠ none := by
  constructor
  · rintro ⟨tags, items, links⟩
    exact ⟨by simp [tags], by simp [items], by simp [links]⟩
  · rintro ⟨tags, items, links⟩
    obtain ⟨_, tags⟩ := Option.ne_none_iff_exists'.mp tags
    obtain ⟨_, items⟩ := Option.ne_none_iff_exists'.mp items
    obtain ⟨_, links⟩ := Option.ne_none_iff_exists'.mp links
    exact ⟨by simp [heldTags, tags], by simp [heldItems, items], by simp [heldLinks, links]⟩

/-! ## The statements, opened -/

theorem tagTable_eq_ok {table : Table Tag} (h : c.tagTable = .ok table) :
    c.tags = some c.heldTags ∧ table = c.heldTags := by
  cases held : c.tags <;> simp_all [tagTable, heldTags]

theorem itemTable_eq_ok {table : Table Record} (h : c.itemTable = .ok table) :
    c.items = some c.heldItems ∧ table = c.heldItems := by
  cases held : c.items <;> simp_all [itemTable, heldItems]

theorem linkTable_eq_ok {links : List Link} (h : c.linkTable = .ok links) :
    c.links = some c.heldLinks ∧ links = c.heldLinks := by
  cases held : c.links <;> simp_all [linkTable, heldLinks]

/-- The counter goes on whether or not the name was kept before. -/
theorem keepTag_eq_ok {name : String} {tag : Tag} (h : c.keepTag name = .ok (tag, d)) :
    c.tags = some c.heldTags ∧
      (tag ∈ c.heldTags.rows ∧ tag.name = name ∧
          d = { c with tags := some ⟨c.heldTags.counter + 1, c.heldTags.rows⟩ } ∨
        (∀ other ∈ c.heldTags.rows, other.name ≠ name) ∧ tag = ⟨c.heldTags.counter + 1, name⟩ ∧
          d = { c with tags := some ⟨c.heldTags.counter + 1, c.heldTags.rows ++ [tag]⟩ }) := by
  obtain ⟨table, read, h⟩ := bind_eq_ok.mp h
  obtain ⟨held, rfl⟩ := tagTable_eq_ok read
  refine ⟨held, ?_⟩
  dsimp only at h
  split at h
  · rename_i kept look
    cases h
    exact .inl ⟨List.mem_of_find?_eq_some look, by simpa using List.find?_some look, rfl⟩
  · rename_i look
    cases h
    exact .inr ⟨by simpa using look, rfl, rfl⟩

theorem findTag_eq_ok {name : String} {found : Option Tag} (h : c.findTag name = .ok found) :
    c.tags = some c.heldTags ∧ found = c.heldTags.rows.find? (·.name = name) := by
  obtain ⟨table, read, h⟩ := bind_eq_ok.mp h
  obtain ⟨held, rfl⟩ := tagTable_eq_ok read
  cases h
  exact ⟨held, rfl⟩

theorem associate_eq_ok {item tag : Identity} (h : c.associate item tag = .ok d) :
    c.links = some c.heldLinks ∧
      (⟨item, tag⟩ ∈ c.heldLinks ∧ d = c ∨
        ⟨item, tag⟩ ∉ c.heldLinks ∧
          d = { c with links := some (c.heldLinks ++ [⟨item, tag⟩]) }) := by
  obtain ⟨links, read, h⟩ := bind_eq_ok.mp h
  obtain ⟨held, rfl⟩ := linkTable_eq_ok read
  refine ⟨held, ?_⟩
  split at h
  · rename_i linked
    cases h
    exact .inl ⟨linked, rfl⟩
  · rename_i fresh
    cases h
    exact .inr ⟨fresh, rfl⟩

theorem dissociate_eq_ok {item tag : Identity} (h : c.dissociate item tag = .ok d) :
    c.links = some c.heldLinks ∧
      d = { c with links := some (c.heldLinks.filter (· ≠ ⟨item, tag⟩)) } := by
  obtain ⟨links, read, h⟩ := bind_eq_ok.mp h
  obtain ⟨held, rfl⟩ := linkTable_eq_ok read
  cases h
  exact ⟨held, rfl⟩

theorem insertItem_eq_ok {content : String} {item : Identity}
    (h : c.insertItem content = .ok (item, d)) :
    c.items = some c.heldItems ∧ item = c.heldItems.counter + 1 ∧
      d = { c with items := some ⟨item, c.heldItems.rows ++ [⟨item, .text content⟩]⟩ } := by
  obtain ⟨table, read, h⟩ := bind_eq_ok.mp h
  obtain ⟨held, rfl⟩ := itemTable_eq_ok read
  cases h
  exact ⟨held, rfl, rfl⟩

theorem itemExists_eq_ok {item : Identity} {answer : Bool} (h : c.itemExists item = .ok answer) :
    c.items = some c.heldItems ∧ (answer = true ↔ c.Holds item) := by
  obtain ⟨table, read, h⟩ := bind_eq_ok.mp h
  obtain ⟨held, rfl⟩ := itemTable_eq_ok read
  cases h
  exact ⟨held, by simp [Holds]⟩

/-- The catalog in which an item has another content. -/
def withContent (c : Catalog) (item : Identity) (content : Content) : Catalog :=
  { c with items := c.items.map fun table =>
      ⟨table.counter, table.rows.map (Record.withContent item content)⟩ }

@[simp] theorem heldItems_withContent (c : Catalog) (item : Identity) (content : Content) :
    (c.withContent item content).heldItems =
      ⟨c.heldItems.counter, c.heldItems.rows.map (Record.withContent item content)⟩ := by
  cases held : c.items <;> simp [heldItems, withContent, held, Table.empty]

/-- The catalog without an item and its links. -/
def without (c : Catalog) (item : Identity) : Catalog :=
  { c with
    items := c.items.map fun table => ⟨table.counter, table.rows.filter (·.id ≠ item)⟩
    links := c.links.map (·.filter (·.item ≠ item)) }

@[simp] theorem heldItems_without (c : Catalog) (item : Identity) :
    (c.without item).heldItems =
      ⟨c.heldItems.counter, c.heldItems.rows.filter (·.id ≠ item)⟩ := by
  cases held : c.items <;> simp [heldItems, without, held, Table.empty]

@[simp] theorem heldLinks_without (c : Catalog) (item : Identity) :
    (c.without item).heldLinks = c.heldLinks.filter (·.item ≠ item) := by
  cases held : c.links <;> simp [heldLinks, without, held]

theorem replaceContent_eq_ok {item : Identity} {content : String} {answer : Bool}
    (h : c.replaceContent item content = .ok (answer, d)) :
    c.items = some c.heldItems ∧ (answer = true ↔ c.Holds item) ∧
      d = c.withContent item (.text content) := by
  obtain ⟨table, read, h⟩ := bind_eq_ok.mp h
  obtain ⟨held, rfl⟩ := itemTable_eq_ok read
  cases h
  refine ⟨held, by simp [Holds], ?_⟩
  simp only [withContent, held]
  rfl

theorem removeItem_eq_ok {item : Identity} {answer : Bool}
    (h : c.removeItem item = .ok (answer, d)) :
    c.items = some c.heldItems ∧
      (c.Holds item ∧ answer = true ∧ d = c.without item ∨
        ¬ c.Holds item ∧ answer = false ∧ d = c) := by
  obtain ⟨table, read, h⟩ := bind_eq_ok.mp h
  obtain ⟨held, rfl⟩ := itemTable_eq_ok read
  have holds : c.heldItems.rows.any (·.id = item) ↔ c.Holds item := by simp [Holds]
  refine ⟨held, ?_⟩
  simp only [holds] at h
  split at h
  · rename_i there
    cases h
    exact .inl ⟨there, rfl, by simp only [without, held]; rfl⟩
  · rename_i absent
    cases h
    exact .inr ⟨absent, rfl, rfl⟩

/-! ## Which tables are there afterwards -/

theorem keepTag_frame {name : String} {tag : Tag} (h : c.keepTag name = .ok (tag, d)) :
    d.tags ≠ none ∧ d.items = c.items ∧ d.links = c.links := by
  obtain ⟨-, ⟨-, -, rfl⟩ | ⟨-, -, rfl⟩⟩ := keepTag_eq_ok h <;> simp

theorem associate_frame {item tag : Identity} (h : c.associate item tag = .ok d) :
    d.tags = c.tags ∧ d.items = c.items ∧ d.links ≠ none := by
  obtain ⟨held, ⟨-, rfl⟩ | ⟨-, rfl⟩⟩ := associate_eq_ok h <;> simp [held]

theorem dissociate_frame {item tag : Identity} (h : c.dissociate item tag = .ok d) :
    d.tags = c.tags ∧ d.items = c.items ∧ d.links ≠ none := by
  obtain ⟨-, rfl⟩ := dissociate_eq_ok h
  simp

theorem insertItem_whole {content : String} {item : Identity} (whole : c.Whole)
    (h : c.insertItem content = .ok (item, d)) : d.Whole := by
  obtain ⟨-, -, rfl⟩ := insertItem_eq_ok h
  rw [whole_iff] at whole ⊢
  exact ⟨whole.1, by simp, whole.2.2⟩

theorem Whole.withContent (whole : c.Whole) (item : Identity) (content : Content) :
    (c.withContent item content).Whole := by
  obtain ⟨tags, items, links⟩ := whole_iff.mp whole
  exact whole_iff.mpr ⟨tags, by simpa [Catalog.withContent] using items, links⟩

/-! ## A statement fails over a missing table only -/

@[simp] theorem fails_keepTag {name : String} : Fails (c.keepTag name) ↔ c.tags = none := by
  cases held : c.tags with
  | none => simp [keepTag, tagTable, held, bind, Except.bind]
  | some table =>
    simp only [keepTag, tagTable, held, bind, Except.bind, reduceCtorEq, iff_false]
    split <;> exact not_fails_ok _

@[simp] theorem fails_findTag {name : String} : Fails (c.findTag name) ↔ c.tags = none := by
  cases held : c.tags <;> simp [findTag, tagTable, held, bind, Except.bind, pure, Except.pure]

@[simp] theorem fails_associate {item tag : Identity} :
    Fails (c.associate item tag) ↔ c.links = none := by
  cases held : c.links with
  | none => simp [associate, linkTable, held, bind, Except.bind]
  | some links =>
    simp only [associate, linkTable, held, bind, Except.bind, reduceCtorEq, iff_false]
    split <;> exact not_fails_ok _

@[simp] theorem fails_dissociate {item tag : Identity} :
    Fails (c.dissociate item tag) ↔ c.links = none := by
  cases held : c.links <;> simp [dissociate, linkTable, held, bind, Except.bind, pure, Except.pure]

@[simp] theorem fails_insertItem {content : String} :
    Fails (c.insertItem content) ↔ c.items = none := by
  cases held : c.items <;> simp [insertItem, itemTable, held, bind, Except.bind, pure, Except.pure]

@[simp] theorem fails_itemExists {item : Identity} :
    Fails (c.itemExists item) ↔ c.items = none := by
  cases held : c.items <;> simp [itemExists, itemTable, held, bind, Except.bind, pure, Except.pure]

@[simp] theorem fails_replaceContent {item : Identity} {content : String} :
    Fails (c.replaceContent item content) ↔ c.items = none := by
  cases held : c.items <;>
    simp [replaceContent, itemTable, held, bind, Except.bind, pure, Except.pure]

@[simp] theorem fails_removeItem {item : Identity} :
    Fails (c.removeItem item) ↔ c.items = none := by
  cases held : c.items with
  | none => simp [removeItem, itemTable, held, bind, Except.bind]
  | some table =>
    simp only [removeItem, itemTable, held, bind, Except.bind, reduceCtorEq, iff_false]
    split <;> exact not_fails_ok _

@[simp] theorem fails_countItems : Fails c.countItems ↔ c.items = none := by
  cases held : c.items <;> simp [countItems, itemTable, held, bind, Except.bind, pure, Except.pure]

theorem Holds.there {item : Identity} (h : c.Holds item) : c.items ≠ none := by
  intro missing
  obtain ⟨record, held, -⟩ := h
  simp [heldItems, missing, Table.empty] at held

theorem replaceContent_of_holds {item : Identity} (holds : c.Holds item) (content : String) :
    c.replaceContent item content = .ok (true, c.withContent item (.text content)) := by
  obtain ⟨⟨answer, replaced⟩, work⟩ :=
    exists_ok_of_not_fails (mt fails_replaceContent.mp holds.there)
  obtain ⟨-, answered, rfl⟩ := replaceContent_eq_ok work
  rw [work, answered.mpr holds]

/-! ## Each statement keeps the invariant -/

theorem initial_sound : initial.Sound where
  tags := Table.Numbered.empty
  names := List.nodup_nil
  items := Table.Numbered.empty
  links := List.nodup_nil
  refer := fun _ linked => absurd linked List.not_mem_nil

theorem keepTag_sound {name : String} {tag : Tag} (sound : c.Sound)
    (h : c.keepTag name = .ok (tag, d)) : d.Sound := by
  obtain ⟨tags, names, items, links, refer⟩ := sound
  obtain ⟨-, ⟨-, -, rfl⟩ | ⟨fresh, rfl, rfl⟩⟩ := keepTag_eq_ok h
  · exact ⟨tags.advance, names, items, links, refer⟩
  · have distinct :
        ((c.heldTags.rows ++ [Tag.mk (c.heldTags.counter + 1) name]).map Tag.name).Nodup := by
      rw [List.map_append, List.nodup_append]
      refine ⟨names, List.nodup_singleton _, ?_⟩
      intro a ha b hb
      obtain ⟨other, held, rfl⟩ := List.mem_map.mp ha
      obtain rfl : b = name := by simpa using hb
      exact fresh other held
    refine ⟨tags.add rfl, distinct, items, links, ?_⟩
    intro link linked
    obtain ⟨holds, tag, held, same⟩ := refer link linked
    exact ⟨holds, tag, List.mem_append_left _ held, same⟩

/-- A link may be added between rows that are there. -/
theorem associate_sound {item tag : Identity} (sound : c.Sound) (holds : c.Holds item)
    (tagged : ∃ row ∈ c.heldTags.rows, row.id = tag) (h : c.associate item tag = .ok d) :
    d.Sound := by
  obtain ⟨-, ⟨-, rfl⟩ | ⟨fresh, rfl⟩⟩ := associate_eq_ok h
  · exact sound
  · have distinct : (c.heldLinks ++ [Link.mk item tag]).Nodup := by
      rw [List.nodup_append]
      refine ⟨sound.links, List.nodup_singleton _, ?_⟩
      rintro a ha b hb rfl
      exact fresh (List.mem_singleton.mp hb ▸ ha)
    refine ⟨sound.tags, sound.names, sound.items, distinct, ?_⟩
    intro link linked
    rcases List.mem_append.mp linked with old | new
    · exact sound.refer link old
    · obtain rfl := List.mem_singleton.mp new
      exact ⟨holds, tagged⟩

theorem dissociate_sound {item tag : Identity} (sound : c.Sound)
    (h : c.dissociate item tag = .ok d) : d.Sound := by
  obtain ⟨-, rfl⟩ := dissociate_eq_ok h
  refine ⟨sound.tags, sound.names, sound.items, sound.links.filter _, ?_⟩
  intro link linked
  exact sound.refer link (List.mem_of_mem_filter linked)

theorem insertItem_sound {content : String} {item : Identity} (sound : c.Sound)
    (h : c.insertItem content = .ok (item, d)) : d.Sound := by
  obtain ⟨-, rfl, rfl⟩ := insertItem_eq_ok h
  refine ⟨sound.tags, sound.names, sound.items.add rfl, sound.links, ?_⟩
  intro link linked
  obtain ⟨⟨record, held, is⟩, tagged⟩ := sound.refer link linked
  exact ⟨⟨record, List.mem_append_left _ held, is⟩, tagged⟩

/-- Contents may change in any way. -/
theorem Sound.withContent (sound : c.Sound) (item : Identity) (content : Content) :
    (c.withContent item content).Sound := by
  have items : (c.withContent item content).heldItems.Numbered Record.id := by
    rw [heldItems_withContent]
    apply sound.items.replace
    simp [Function.comp_def]
  refine ⟨sound.tags, sound.names, items, sound.links, ?_⟩
  intro link linked
  obtain ⟨⟨record, held, is⟩, tagged⟩ := sound.refer link linked
  have there : record.withContent item content ∈ (c.withContent item content).heldItems.rows := by
    rw [heldItems_withContent]
    exact List.mem_map_of_mem held
  exact ⟨⟨_, there, by simpa using is⟩, tagged⟩

/-- The links go with their item, so none is left that refers to nothing. -/
theorem Sound.without (sound : c.Sound) (item : Identity) : (c.without item).Sound := by
  have items : (c.without item).heldItems.Numbered Record.id := by
    rw [heldItems_without]
    exact sound.items.replace (List.filter_sublist.map _)
  have links : (c.without item).heldLinks.Nodup := by
    rw [heldLinks_without]
    exact sound.links.filter _
  refine ⟨sound.tags, sound.names, items, links, ?_⟩
  intro link linked
  rw [heldLinks_without, List.mem_filter] at linked
  obtain ⟨⟨record, held, is⟩, tagged⟩ := sound.refer link linked.1
  have there : record ∈ (c.without item).heldItems.rows := by
    rw [heldItems_without, List.mem_filter]
    exact ⟨held, by simpa [is] using linked.2⟩
  exact ⟨⟨record, there, is⟩, tagged⟩

end Catalog
end TaggedItems
