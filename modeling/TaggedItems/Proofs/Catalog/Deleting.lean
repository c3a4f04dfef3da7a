import TaggedItems.Proofs.Catalog.Finding
/-!
# Deleting what a query finds

A deletion takes away the items that its query finds, with their links, and nothing else
(`deleteItems_eq`). All of them were read before, so whatever cannot be read is still there
afterwards, and every other query fails or finds what it did, without the items that are gone
(`getItems_withoutAll`).
-/
namespace TaggedItems.Catalog
variable {c d : Catalog} {predicates : PredicateSet} {target : Option Identity}
  {items : List Identity}

/-! ## The tables without some items -/

theorem withoutAll_eq (c : Catalog) (items : List Identity) :
    c.withoutAll items =
      { c with
        items := c.items.map fun table => ⟨table.counter, table.rows.filter (·.id ∉ items)⟩
        links := c.links.map (·.filter (·.item ∉ items)) } := by
  induction items generalizing c with
  | nil => simp [withoutAll]
  | cons item rest ih =>
    apply (ih (c.without item)).trans
    simp only [without, Option.map_map, Function.comp_def, List.filter_filter, List.mem_cons,
      not_or, Bool.decide_and, ne_eq, Bool.and_comm]

theorem item_of_mem_withoutAll {link : Link} (h : link ∈ (c.withoutAll items).heldLinks) :
    link.item ∉ items := by
  rw [withoutAll_eq] at h
  cases held : c.links with
  | none => simp [heldLinks, held] at h
  | some links => exact (by simpa [heldLinks, held] using h : _ ∧ _).2

theorem counter_withoutAll (c : Catalog) (items : List Identity) :
    (c.withoutAll items).items.map Table.counter = c.items.map Table.counter := by
  rw [withoutAll_eq, Option.map_map]
  rfl

theorem incomplete_withoutAll : (c.withoutAll items).Incomplete ↔ c.Incomplete := by
  simp [Incomplete, withoutAll_eq]

theorem tagsOn_withoutAll {item : Identity} (kept : item ∉ items) :
    (c.withoutAll items).tagsOn item = c.tagsOn item := by
  apply tagsOn_congr
  intro name
  rw [carries_withoutAll, and_iff_left kept]

/-! ## Queries without some items -/

theorem shows_withoutAll {item : Item} :
    (c.withoutAll items).Shows item ↔ c.Shows item ∧ item.id ∉ items := by
  rw [Shows, contentOf_withoutAll]
  by_cases gone : item.id ∈ items
  · simp [gone]
  · rw [if_neg gone, tagsOn_withoutAll gone, and_iff_left gone]
    rfl

theorem finds_withoutAll {item : Item} :
    (c.withoutAll items).Finds predicates target item ↔
      c.Finds predicates target item ∧ item.id ∉ items := by
  unfold Finds
  rw [shows_withoutAll]
  tauto

/-- Items that can be read disturb no query, so none is freed by their going. -/
theorem blocksFetch_withoutAll (readable : ∀ item ∈ items, c.contentOf item ≠ some .unreadable) :
    (c.withoutAll items).BlocksFetch target ↔ c.BlocksFetch target := by
  have unreadable (item : Identity) :
      (c.withoutAll items).contentOf item = some .unreadable ↔
        c.contentOf item = some .unreadable := by
    rw [contentOf_withoutAll]
    split
    · rename_i gone
      simp [readable item gone]
    · rfl
  rw [BlocksFetch, incomplete_withoutAll, BlocksFetch]
  cases target with
  | some item => rw [Disturbs, unreadable, Disturbs]
  | none =>
    simp only [Disturbs, unreadable, carries_withoutAll]
    refine or_congr_right (exists_congr fun item => exists_congr fun name => ?_)
    constructor
    · rintro ⟨⟨carries, -⟩, bad⟩
      exact ⟨carries, bad⟩
    · rintro ⟨carries, bad⟩
      exact ⟨⟨carries, fun gone => readable item gone bad⟩, bad⟩

theorem getItems_withoutAll (sound : c.Sound)
    (readable : ∀ item ∈ items, c.contentOf item ≠ some .unreadable) (predicates : PredicateSet)
    (target : Option Identity) :
    (c.withoutAll items).getItems predicates target =
      (c.getItems predicates target).filter (·.id ∉ items) := by
  have soundAfter := withoutAll_sound sound items
  by_cases blocked : c.BlocksFetch target
  · rw [getItems_of_blocked sound blocked,
      getItems_of_blocked soundAfter ((blocksFetch_withoutAll readable).mpr blocked)]
    rfl
  · apply getItems_eq soundAfter (mt (blocksFetch_withoutAll readable).mp blocked)
      ((getItems_ascending sound predicates target).filter _)
    intro item
    rw [List.mem_filter, mem_getItems sound blocked, finds_withoutAll, decide_eq_true_eq]

/-! ## Deletion -/

/-- A deletion that fails is one that finds nothing. -/
theorem deleteItems_eq (sound : c.Sound) (query : Query) :
    c.deleteItems query =
      ((c.getItems query.predicates query.target).map (·.id),
        c.withoutAll ((c.getItems query.predicates query.target).map (·.id))) := by
  have work : c.deleteItems query =
      ((c.transact (deleteWork query)).1.getD [], (c.transact (deleteWork query)).2) := rfl
  have done : deleteWork query c =
      (c.fetchMatching query.predicates query.target).map fun found =>
        (found.map (·.id), c.withoutAll (found.map (·.id))) := deleteWork_eq sound
  cases fetched : c.fetchMatching query.predicates query.target with
  | ok found =>
    rw [fetched] at done
    rw [work, transact_of_ok done, getItems_of_ok fetched]
    rfl
  | error fault =>
    rw [fetched] at done
    rw [work, transact_of_error done, getItems_of_fails ⟨fault, fetched⟩]
    rfl

/-- `d` is what a deletion by a query leaves of `c`, and `deleted` is its answer. -/
structure Deleted (c : Catalog) (query : Query) (deleted : List Identity) (d : Catalog) : Prop where
  told : deleted = (c.getItems query.predicates query.target).map (·.id)
  ascending : deleted.Pairwise (· < ·)
  gone : d.getItems query.predicates query.target = []
  again : d.deleteItems query = ([], d)
  others : ∀ predicates target, d.getItems predicates target =
    (c.getItems predicates target).filter (·.id ∉ deleted)
  removed : ∀ item ∈ deleted, ¬ d.Holds item
  survivors : ∀ item, item ∉ deleted →
    d.contentOf item = c.contentOf item ∧ d.tagsOn item = c.tagsOn item
  unlinked : ∀ link ∈ d.heldLinks, link.item ∉ deleted
  tags : d.tags = c.tags
  counter : d.items.map Table.counter = c.items.map Table.counter

/-- In whatever state the tables are, a deletion removes what its query finds, tells just that, and
leaves all other items as they are to every query. -/
theorem deleteItems_removes_found (h : Reachable c) (query : Query) :
    Deleted c query (c.deleteItems query).1 (c.deleteItems query).2 := by
  have sound := reachable_sound h
  rw [deleteItems_eq sound query]
  generalize found : c.getItems query.predicates query.target = items
  have soundAfter := withoutAll_sound sound (items.map (·.id))
  have readable : ∀ item ∈ items.map (·.id), c.contentOf item ≠ some .unreadable := by
    intro _ there
    obtain ⟨item, listed, rfl⟩ := List.mem_map.mp there
    have shown := (finds_of_mem_getItems sound (found ▸ listed)).1
    simp [shown.1]
  have others := getItems_withoutAll sound readable
  have gone : (c.withoutAll (items.map (·.id))).getItems query.predicates query.target = [] := by
    rw [others, found, List.filter_eq_nil_iff]
    intro item listed
    simpa using ⟨item, listed, rfl⟩
  have again : (c.withoutAll (items.map (·.id))).deleteItems query =
      ([], c.withoutAll (items.map (·.id))) := by
    rw [deleteItems_eq soundAfter, gone]
    rfl
  have ascending : (items.map (·.id)).Pairwise (· < ·) := by
    rw [List.pairwise_map, ← found]
    exact getItems_ascending sound _ _
  have removed : ∀ item ∈ items.map (·.id), ¬ (c.withoutAll (items.map (·.id))).Holds item := by
    intro item there
    rw [← contentOf_eq_none_iff, contentOf_withoutAll, if_pos there]
  have survivors : ∀ item, item ∉ items.map (·.id) →
      (c.withoutAll (items.map (·.id))).contentOf item = c.contentOf item ∧
        (c.withoutAll (items.map (·.id))).tagsOn item = c.tagsOn item := by
    intro item kept
    exact ⟨by rw [contentOf_withoutAll, if_neg kept], tagsOn_withoutAll kept⟩
  exact ⟨by rw [found], ascending, gone, again, others, removed, survivors,
    fun _ => item_of_mem_withoutAll, by rw [withoutAll_eq], counter_withoutAll c _⟩

/-- Two items have the same tag, and the content of the first one cannot be read. -/
def blemished : Catalog :=
  ⟨some ⟨3, [⟨1, "foo"⟩, ⟨2, "bar"⟩]⟩, some ⟨2, [⟨1, .unreadable⟩, ⟨2, .text "second"⟩]⟩,
    some [⟨1, 1⟩, ⟨2, 2⟩, ⟨2, 1⟩]⟩

/-- The second item is deleted by its number, and the broad query for its tag goes on failing. -/
theorem blemished_deletes :
    Reachable blemished ∧
      blemished.deleteItems ⟨.ofList [⟨.includes, "foo"⟩], some 2⟩ =
        ([2], ⟨blemished.tags, some ⟨2, [⟨1, .unreadable⟩]⟩, some [⟨1, 1⟩]⟩) ∧
      Deleted blemished ⟨.ofList [⟨.includes, "foo"⟩], some 2⟩ [2]
        ⟨blemished.tags, some ⟨2, [⟨1, .unreadable⟩]⟩, some [⟨1, 1⟩]⟩ := by
  have life : blemished = (initial.run
      [.operation (.addItem "first" (.ofList [⟨.includes, "foo"⟩])),
        .operation (.addItem "second" (.ofList [⟨.includes, "foo"⟩, ⟨.includes, "bar"⟩])),
        .damage (.spoil 1)]).2 := by
    decide +kernel
  have reachable : Reachable blemished := life ▸ Reachable.initial.run _
  have done : blemished.deleteItems ⟨.ofList [⟨.includes, "foo"⟩], some 2⟩ =
      ([2], ⟨blemished.tags, some ⟨2, [⟨1, .unreadable⟩]⟩, some [⟨1, 1⟩]⟩) := by
    decide +kernel
  have deleted := deleteItems_removes_found reachable ⟨.ofList [⟨.includes, "foo"⟩], some 2⟩
  rw [done] at deleted
  exact ⟨reachable, done, deleted⟩

end TaggedItems.Catalog
