import TaggedItems.Proofs.Ascending
import TaggedItems.Proofs.Catalog.Sound
/-!
# What a catalog says about an item

Users see an item's content and the names of its tags, and nothing else of the three tables. Both
are read off here (`contentOf`, `tagsOn`), and each statement is described by what it does to them.
-/
namespace TaggedItems.Catalog
variable {c d : Catalog} {item i : Identity} {name : String}

/-- The content of an item, if it has a row. -/
def contentOf (c : Catalog) (item : Identity) : Option Content :=
  (c.heldItems.rows.find? (·.id = item)).map (·.content)

/-- The item is linked to the tag of this name. -/
def Carries (c : Catalog) (item : Identity) (name : String) : Prop :=
  ∃ tag ∈ c.heldTags.rows, tag.name = name ∧ ⟨item, tag.id⟩ ∈ c.heldLinks

/-- The names of the tags of an item. -/
def tagsOn (c : Catalog) (item : Identity) : TagSet :=
  .ofList ((c.heldTags.rows.filter fun tag => ⟨item, tag.id⟩ ∈ c.heldLinks).map (·.name))

@[simp] theorem mem_tagsOn : name ∈ c.tagsOn item ↔ c.Carries item name := by
  rw [tagsOn, TagSet.mem_ofList]
  simp only [List.mem_map, List.mem_filter, decide_eq_true_eq, Carries]
  constructor
  · rintro ⟨tag, ⟨held, linked⟩, rfl⟩
    exact ⟨tag, held, rfl, linked⟩
  · rintro ⟨tag, held, rfl, linked⟩
    exact ⟨tag, ⟨held, linked⟩, rfl⟩

theorem tagsOn_congr (same : ∀ name, d.Carries i name ↔ c.Carries i name) :
    d.tagsOn i = c.tagsOn i := by
  ext name
  simp only [mem_tagsOn, same]

theorem contentOf_eq_none_iff : c.contentOf item = none ↔ ¬ c.Holds item := by
  simp [contentOf, Holds]

theorem holds_iff_contentOf : c.Holds item ↔ ∃ content, c.contentOf item = some content := by
  rw [← not_iff_not, ← contentOf_eq_none_iff, Option.eq_none_iff_forall_ne_some, not_exists]

/-- A row is found by its number, as no other row has it. -/
theorem contentOf_eq_some_iff (sound : c.Sound) {content : Content} :
    c.contentOf item = some content ↔ ⟨item, content⟩ ∈ c.heldItems.rows := by
  have found (content : Content) (h : c.contentOf item = some content) :
      ⟨item, content⟩ ∈ c.heldItems.rows := by
    obtain ⟨record, look, rfl⟩ := Option.map_eq_some_iff.mp h
    obtain rfl : record.id = item := by simpa using List.find?_some look
    exact List.mem_of_find?_eq_some look
  refine ⟨found content, fun held => ?_⟩
  obtain ⟨other, look⟩ := holds_iff_contentOf.mp ⟨_, held, rfl⟩
  cases sound.items.unique (found other look) held rfl
  exact look

/-- Only items that are there have tags. -/
theorem Carries.holds (sound : c.Sound) (h : c.Carries item name) : c.Holds item := by
  obtain ⟨tag, -, -, linked⟩ := h
  exact (sound.refer _ linked).1

/-- The numbers of the items that are there. -/
def itemNumbers (c : Catalog) : List Identity := c.heldItems.rows.map Record.id

theorem Sound.nodup_itemNumbers (sound : c.Sound) : c.itemNumbers.Nodup := sound.items.distinct

theorem mem_itemNumbers : item ∈ c.itemNumbers ↔ c.Holds item := List.mem_map

theorem itemCount_eq (c : Catalog) : c.itemCount = c.itemNumbers.length := by
  cases held : c.items <;>
    simp [itemCount, countItems, itemTable, itemNumbers, heldItems, held, Table.empty, bind,
      Except.bind, pure, Except.pure, Except.toOption]

/-! ## Statements that change tags -/

/-- A name that is only kept is no tag of any item: a new number has no links yet. -/
theorem carries_keepTag {tag : Tag} {kept : String} (sound : c.Sound)
    (h : c.keepTag kept = .ok (tag, d)) : d.Carries i name ↔ c.Carries i name := by
  obtain ⟨-, ⟨-, -, rfl⟩ | ⟨fresh, rfl, rfl⟩⟩ := keepTag_eq_ok h
  · exact Iff.rfl
  · constructor
    · rintro ⟨tag, held, is, linked⟩
      rcases List.mem_append.mp held with old | new
      · exact ⟨tag, old, is, linked⟩
      · obtain rfl := List.mem_singleton.mp new
        obtain ⟨-, tag, held, same⟩ := sound.refer _ linked
        exact absurd same (sound.tags.ne_next held)
    · rintro ⟨tag, held, is, linked⟩
      exact ⟨tag, List.mem_append_left _ held, is, linked⟩

theorem mem_of_keepTag {tag : Tag} (h : c.keepTag name = .ok (tag, d)) :
    tag ∈ d.heldTags.rows ∧ tag.name = name := by
  obtain ⟨-, ⟨held, is, rfl⟩ | ⟨-, rfl, rfl⟩⟩ := keepTag_eq_ok h
  · exact ⟨held, is⟩
  · exact ⟨List.mem_append_right _ (List.mem_singleton_self _), rfl⟩

theorem carries_associate {tag : Tag} (sound : c.Sound) (kept : tag ∈ c.heldTags.rows)
    (h : c.associate item tag.id = .ok d) :
    d.Carries i name ↔ c.Carries i name ∨ i = item ∧ name = tag.name := by
  obtain ⟨-, ⟨linked, rfl⟩ | ⟨-, rfl⟩⟩ := associate_eq_ok h
  · constructor
    · exact .inl
    · rintro (carries | ⟨rfl, rfl⟩)
      · exact carries
      · exact ⟨tag, kept, rfl, linked⟩
  · constructor
    · rintro ⟨other, held, rfl, linked⟩
      rcases List.mem_append.mp linked with old | new
      · exact .inl ⟨other, held, rfl, old⟩
      · obtain ⟨rfl, same⟩ := Link.mk.injEq _ _ _ _ ▸ List.mem_singleton.mp new
        obtain rfl := sound.tags.unique held kept same
        exact .inr ⟨rfl, rfl⟩
    · rintro (⟨other, held, rfl, linked⟩ | ⟨rfl, rfl⟩)
      · exact ⟨other, held, rfl, List.mem_append_left _ linked⟩
      · exact ⟨tag, kept, rfl, List.mem_append_right _ (List.mem_singleton_self _)⟩

/-- Tag names are distinct, so the name goes with the link. -/
theorem carries_dissociate {tag : Tag} (sound : c.Sound) (kept : tag ∈ c.heldTags.rows)
    (h : c.dissociate item tag.id = .ok d) :
    d.Carries i name ↔ c.Carries i name ∧ ¬ (i = item ∧ name = tag.name) := by
  obtain ⟨-, rfl⟩ := dissociate_eq_ok h
  constructor
  · rintro ⟨other, held, rfl, linked⟩
    obtain ⟨linked, differs⟩ := List.mem_filter.mp linked
    refine ⟨⟨other, held, rfl, linked⟩, ?_⟩
    rintro ⟨rfl, same⟩
    obtain rfl := List.inj_on_of_nodup_map sound.names held kept same
    simp at differs
  · rintro ⟨⟨other, held, rfl, linked⟩, differs⟩
    refine ⟨other, held, rfl, List.mem_filter.mpr ⟨linked, ?_⟩⟩
    simp only [ne_eq, Link.mk.injEq, decide_not, Bool.not_eq_eq_eq_not, Bool.not_true,
      decide_eq_false_iff_not]
    rintro ⟨rfl, same⟩
    exact differs ⟨rfl, congrArg Tag.name (sound.tags.unique held kept same)⟩

/-! ## Statements that change items -/

@[simp] theorem carries_withContent {content : Content} :
    (c.withContent item content).Carries i name ↔ c.Carries i name := Iff.rfl

theorem contentOf_withContent {content : Content} :
    (c.withContent item content).contentOf i =
      if i = item then (c.contentOf i).map fun _ => content else c.contentOf i := by
  simp only [contentOf, heldItems_withContent, List.find?_map, Function.comp_def,
    Record.withContent_id, Option.map_map]
  cases look : c.heldItems.rows.find? (·.id = i) with
  | none => simp
  | some record =>
    have is : record.id = i := by simpa using List.find?_some look
    by_cases same : i = item <;> simp [Record.withContent, is, same]

theorem contentOf_without :
    (c.without item).contentOf i = if i = item then none else c.contentOf i := by
  simp only [contentOf, heldItems_without, List.find?_filter]
  by_cases same : i = item
  · subst same
    simp
  · rw [if_neg same]
    congr 2
    funext record
    by_cases is : record.id = i <;> simp [is, same]

theorem carries_without :
    (c.without item).Carries i name ↔ c.Carries i name ∧ i ≠ item := by
  simp only [Carries, heldLinks_without, List.mem_filter, decide_eq_true_eq]
  constructor
  · rintro ⟨tag, held, is, linked, other⟩
    exact ⟨⟨tag, held, is, linked⟩, other⟩
  · rintro ⟨⟨tag, held, is, linked⟩, other⟩
    exact ⟨tag, held, is, linked, other⟩

theorem contentOf_insertItem {content : String} (sound : c.Sound)
    (h : c.insertItem content = .ok (item, d)) :
    d.contentOf i = if i = item then some (.text content) else c.contentOf i := by
  obtain ⟨-, rfl, rfl⟩ := insertItem_eq_ok h
  change ((c.heldItems.rows ++ [_]).find? (fun record : Record => decide (record.id = i))).map _ = _
  rw [List.find?_append]
  by_cases same : i = c.heldItems.counter + 1
  · have fresh : c.heldItems.rows.find? (fun record : Record => decide (record.id = i)) = none := by
      simp only [List.find?_eq_none, decide_eq_true_eq]
      intro record held is
      exact sound.items.ne_next held (is.trans same)
    rw [fresh, if_pos same]
    simp [same]
  · rw [if_neg same]
    simp [contentOf, Ne.symm same]

theorem carries_insertItem {content : String} (h : c.insertItem content = .ok (item, d)) :
    d.Carries i name ↔ c.Carries i name := by
  obtain ⟨-, -, rfl⟩ := insertItem_eq_ok h
  exact Iff.rfl

end TaggedItems.Catalog
