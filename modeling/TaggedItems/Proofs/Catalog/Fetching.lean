import TaggedItems.Proofs.Catalog.Contents
/-!
# Fetching one item

The outer join finds an item with the content and the tags that the tables say it has
(`fetchItem_eq`). It fails if a table is missing or the item's content is unreadable, and not
otherwise (`fails_fetchItem`).
-/
namespace TaggedItems.Catalog
variable {c : Catalog} {item : Identity}

/-- The item is there with this content and exactly these tags. -/
def Shows (c : Catalog) (item : Item) : Prop :=
  c.contentOf item.id = some (.text item.content) ∧ item.tags = c.tagsOn item.id

theorem shows_congr {d : Catalog} {shown : Item}
    (content : d.contentOf shown.id = c.contentOf shown.id)
    (carries : ∀ name, d.Carries shown.id name ↔ c.Carries shown.id name) :
    d.Shows shown ↔ c.Shows shown := by
  rw [Shows, content, tagsOn_congr carries, Shows]

/-- Under one number there is one item to show. -/
theorem Shows.eq {a b : Item} (ha : c.Shows a) (hb : c.Shows b) (same : a.id = b.id) : a = b := by
  obtain ⟨id, text, names⟩ := a
  obtain ⟨_, otherText, otherNames⟩ := b
  obtain rfl : id = _ := same
  obtain ⟨content, tags⟩ := ha
  obtain ⟨otherContent, otherTags⟩ := hb
  have one : text = otherText := by simpa using content.symm.trans otherContent
  have sets : names = otherNames := tags.trans otherTags.symm
  rw [one, sets]

theorem linked_iff_carries {name : String} :
    (∃ link ∈ c.heldLinks, link.item = item ∧
      ∃ tag ∈ c.heldTags.rows, tag.id = link.tag ∧ tag.name = name) ↔ c.Carries item name := by
  constructor
  · rintro ⟨⟨_, _⟩, linked, rfl, tag, held, rfl, rfl⟩
    exact ⟨tag, held, rfl, linked⟩
  · rintro ⟨tag, held, is, linked⟩
    exact ⟨_, linked, rfl, tag, held, rfl, is⟩

/-! ## One item -/

/-- A left join drops no row. -/
theorem left_ne_nil {α β : Type} {rows : List α} (partners : α → List β) (h : rows ≠ []) :
    Join.left rows partners ≠ [] := by
  obtain ⟨row, rest, rfl⟩ := List.exists_cons_of_ne_nil h
  simp only [Join.left, List.flatMap_cons, ne_eq, List.append_eq_nil_iff, not_and]
  intro empty
  split at empty
  · simp at empty
  · rename_i some
    simp_all

theorem outerRows_ne_nil {tags : List Tag} {links : List Link} {records : List Record}
    (h : records ≠ []) : outerRows tags links records ≠ [] := by
  simp only [outerRows, ne_eq, List.map_eq_nil_iff]
  exact left_ne_nil _ (left_ne_nil _ h)

theorem mem_outerRows {tags : List Tag} {links : List Link} {records : List Record}
    {record : Record} {name : String} :
    (record, some name) ∈ outerRows tags links records ↔
      record ∈ records ∧ ∃ link ∈ links, link.item = record.id ∧
        ∃ tag ∈ tags, tag.id = link.tag ∧ tag.name = name := by
  simp only [outerRows, List.mem_map, Prod.mk.injEq, Option.map_eq_some_iff]
  constructor
  · rintro ⟨⟨⟨_, link⟩, _⟩, joined, rfl, tag, rfl, rfl⟩
    obtain ⟨left, tagged⟩ := Join.mem_left.mp joined
    obtain ⟨held, linked⟩ := Join.mem_left.mp left
    cases link with
    | none => simp at tagged
    | some link =>
      obtain ⟨linked, of⟩ := List.mem_filter.mp linked
      have : tag ∈ tags ∧ tag.id = link.tag := by simpa [tagsOf] using tagged
      exact ⟨held, link, linked, by simpa using of, tag, this.1, this.2, rfl⟩
  · rintro ⟨held, link, linked, of, tag, tagged, is, rfl⟩
    refine ⟨((record, some link), some tag), Join.mem_left.mpr ⟨Join.mem_left.mpr ⟨held, ?_⟩, ?_⟩,
      rfl, tag, rfl, rfl⟩
    · exact List.mem_filter.mpr ⟨linked, by simpa using of⟩
    · simpa [tagsOf] using ⟨tagged, is⟩

theorem record_of_outerRows {tags : List Tag} {links : List Link} {records : List Record}
    {row : Record × Option String} (h : row ∈ outerRows tags links records) : row.1 ∈ records := by
  obtain ⟨⟨⟨record, link⟩, tag⟩, joined, rfl⟩ := List.mem_map.mp h
  exact (Join.mem_left.mp (Join.mem_left.mp joined).1).1

/-- Rows of one record give that record's content, and the names of all rows. -/
theorem gatherOne_eq {rows : List (Record × Option String)} {record : Record} (some : rows ≠ [])
    (one : ∀ row ∈ rows, row.1 = record) :
    gatherOne rows = record.read.map fun content =>
      Option.some ⟨record.id, content, .ofList (rows.filterMap (·.2))⟩ := by
  obtain ⟨⟨first, name⟩, rest, rfl⟩ := List.exists_cons_of_ne_nil some
  obtain rfl : first = record := one _ List.mem_cons_self
  cases read : first.read <;>
    simp [gatherOne, read, bind, Except.bind, pure, Except.pure, Except.map]

theorem rows_of_item (sound : c.Sound) :
    c.heldItems.rows.filter (·.id = item) =
      ((c.contentOf item).map fun content => (⟨item, content⟩ : Record)).toList := by
  cases content : c.contentOf item with
  | none =>
    simp only [Option.map_none, Option.toList_none, List.filter_eq_nil_iff, decide_eq_true_eq]
    intro record held is
    exact contentOf_eq_none_iff.mp content ⟨record, held, is⟩
  | some content' =>
    have held := (contentOf_eq_some_iff sound).mp content
    have nodup : c.heldItems.rows.Nodup := sound.items.distinct.of_map _
    rw [Option.map_some, Option.toList_some, ← List.perm_singleton,
      List.perm_ext_iff_of_nodup (nodup.filter _) (List.nodup_singleton _)]
    intro record
    simp only [List.mem_filter, decide_eq_true_eq, List.mem_singleton]
    constructor
    · rintro ⟨there, rfl⟩
      exact sound.items.unique there held rfl
    · rintro rfl
      exact ⟨held, rfl⟩

/-- The rows of one record name its tags. -/
theorem names_of_outerRows (record : Record) :
    TagSet.ofList ((outerRows c.heldTags.rows c.heldLinks [record]).filterMap (·.2)) =
      c.tagsOn record.id := by
  ext name
  simp only [TagSet.mem_ofList, mem_tagsOn, List.mem_filterMap]
  rw [← linked_iff_carries]
  constructor
  · rintro ⟨⟨other, _⟩, there, rfl⟩
    obtain ⟨of, linked⟩ := mem_outerRows.mp there
    obtain rfl := List.mem_singleton.mp of
    exact linked
  · intro linked
    exact ⟨_, mem_outerRows.mpr ⟨List.mem_singleton_self _, linked⟩, rfl⟩

theorem fetchItem_eq_gatherOne (whole : c.Whole) :
    c.fetchItem item = gatherOne (outerRows c.heldTags.rows c.heldLinks
      (c.heldItems.rows.filter (·.id = item))) := by
  simp only [fetchItem, itemTable, linkTable, tagTable, whole.tags, whole.items, whole.links]
  rfl

/-- In a whole catalog an item is found with its content and its tags, unless it is unreadable. -/
theorem fetchItem_eq (sound : c.Sound) (whole : c.Whole) :
    c.fetchItem item = match c.contentOf item with
      | none => .ok none
      | some .unreadable => .error (.unreadable item)
      | some (.text content) => .ok (some ⟨item, content, c.tagsOn item⟩) := by
  rw [fetchItem_eq_gatherOne whole, rows_of_item sound]
  cases held : c.contentOf item with
  | none => rfl
  | some content =>
    simp only [Option.map_some, Option.toList_some]
    have one : ∀ row ∈ outerRows c.heldTags.rows c.heldLinks [⟨item, content⟩],
        row.1 = ⟨item, content⟩ :=
      fun row there => List.mem_singleton.mp (record_of_outerRows there)
    rw [gatherOne_eq (outerRows_ne_nil (List.cons_ne_nil _ _)) one, names_of_outerRows]
    cases content <;> rfl

theorem fails_tables (h : ¬ c.Whole) {α : Type}
    (f : Table Record → List Link → Table Tag → Except Fault α) :
    Fails (do
      let items ← c.itemTable
      let links ← c.linkTable
      let tags ← c.tagTable
      f items links tags) := by
  rw [whole_iff] at h
  cases items : c.items with
  | none => exact ⟨.noItems, by simp [itemTable, items, bind, Except.bind]⟩
  | some _ =>
    cases links : c.links with
    | none => exact ⟨.noLinks, by simp [itemTable, linkTable, items, links, bind, Except.bind]⟩
    | some _ =>
      have tags : c.tags = none := by simpa [items, links] using h
      exact ⟨.noTags,
        by simp [itemTable, linkTable, tagTable, items, links, tags, bind, Except.bind]⟩

theorem fails_fetchItem (sound : c.Sound) :
    Fails (c.fetchItem item) ↔ ¬ c.Whole ∨ c.contentOf item = some .unreadable := by
  by_cases whole : c.Whole
  · rw [fetchItem_eq sound whole]
    cases c.contentOf item with
    | none => simp [whole]
    | some content => cases content <;> simp [whole]
  · exact iff_of_true (fails_tables whole _) (.inl whole)

/-- What is found is what the catalog shows under that number. -/
theorem fetchItem_eq_ok (sound : c.Sound) {found : Option Item}
    (h : c.fetchItem item = .ok found) {shown : Item} :
    found = some shown ↔ c.Shows shown ∧ shown.id = item := by
  have whole : c.Whole := by
    by_contra missing
    exact not_fails_ok _ (h ▸ (fails_fetchItem sound).mpr (.inl missing))
  rw [fetchItem_eq sound whole] at h
  obtain ⟨id, text, tags⟩ := shown
  split at h
  · rename_i absent
    obtain rfl : none = found := by simpa using h
    simp only [reduceCtorEq, Shows, false_iff, not_and]
    rintro ⟨held, -⟩ rfl
    simp [absent] at held
  · simp at h
  · rename_i content held
    obtain rfl : some ⟨item, content, c.tagsOn item⟩ = found := by simpa using h
    simp only [Option.some.injEq, Item.mk.injEq, Shows]
    constructor
    · rintro ⟨rfl, rfl, rfl⟩
      exact ⟨⟨held, rfl⟩, rfl⟩
    · rintro ⟨⟨other, rfl⟩, rfl⟩
      exact ⟨rfl, by simpa using held.symm.trans other, rfl⟩

theorem fetchItem_eq_some_iff (sound : c.Sound) (whole : c.Whole) {shown : Item} :
    c.fetchItem item = .ok (some shown) ↔ c.Shows shown ∧ shown.id = item := by
  constructor
  · intro fetched
    exact (fetchItem_eq_ok sound fetched).mp rfl
  · rintro ⟨⟨content, tags⟩, rfl⟩
    rw [fetchItem_eq sound whole, content]
    simp only [← tags]

end TaggedItems.Catalog
