import TaggedItems.Proofs.Catalog.Failure
/-!
# What queries find

A query that cannot be fetched finds nothing. Any other finds what the tables show, each item once
and in ascending order, so two queries find the same list as soon as they find the same items
(`getItems_eq`). Hence catalogs that show the same items give the same answers
(`SeenAlike.answers`).
-/
namespace TaggedItems.Catalog
variable {c d e : Catalog} {predicates : PredicateSet} {target : Option Identity} {item : Item}
  {items : List Item} {id : Identity}

theorem getItems_of_ok (h : c.fetchMatching predicates target = .ok items) :
    c.getItems predicates target = items := by
  simp [getItems, h, Except.toOption]

theorem getItems_of_fails (h : Fails (c.fetchMatching predicates target)) :
    c.getItems predicates target = [] := by
  obtain ⟨fault, failed⟩ := h
  simp [getItems, failed, Except.toOption]

theorem getItems_of_blocked (sound : c.Sound) (blocked : c.BlocksFetch target) :
    c.getItems predicates target = [] :=
  getItems_of_fails ((fails_fetchMatching_iff sound).mpr blocked)

theorem fetchMatching_eq_getItems (sound : c.Sound) (free : ¬ c.BlocksFetch target)
    (predicates : PredicateSet) :
    c.fetchMatching predicates target = .ok (c.getItems predicates target) := by
  obtain ⟨items, fetched⟩ := exists_ok_of_not_fails (mt (fails_fetchMatching_iff sound).mp free)
  rw [getItems_of_ok fetched, fetched]

theorem getItems_ascending (sound : c.Sound) (predicates : PredicateSet)
    (target : Option Identity) :
    (c.getItems predicates target).Pairwise fun a b => a.id < b.id := by
  by_cases blocked : c.BlocksFetch target
  · rw [getItems_of_blocked sound blocked]
    exact .nil
  · exact (fetchMatching_eq_ok sound (fetchMatching_eq_getItems sound blocked predicates)).1

theorem mem_getItems (sound : c.Sound) (free : ¬ c.BlocksFetch target) :
    item ∈ c.getItems predicates target ↔ c.Finds predicates target item :=
  (fetchMatching_eq_ok sound (fetchMatching_eq_getItems sound free predicates)).2 item

theorem finds_of_mem_getItems (sound : c.Sound) (h : item ∈ c.getItems predicates target) :
    c.Finds predicates target item := by
  by_cases blocked : c.BlocksFetch target
  · rw [getItems_of_blocked sound blocked] at h
    exact absurd h List.not_mem_nil
  · exact (mem_getItems sound blocked).mp h

/-- What is found is determined by its items, as they come in order. -/
theorem getItems_eq (sound : c.Sound) (free : ¬ c.BlocksFetch target)
    (ascending : items.Pairwise fun a b => a.id < b.id)
    (mem : ∀ item, item ∈ items ↔ c.Finds predicates target item) :
    c.getItems predicates target = items := by
  apply eq_of_pairwise_of_mem_iff (fun _ _ below above => Int.lt_asymm below above)
    (getItems_ascending sound predicates target) ascending
  intro item
  rw [mem_getItems sound free, mem]

/-! ## Single items -/

theorem getItem_eq_some_iff (sound : c.Sound) (whole : c.Whole) :
    c.getItem id = some item ↔ c.Shows item ∧ item.id = id := by
  rw [← fetchItem_eq_some_iff sound whole]
  cases fetched : c.fetchItem id <;> simp [getItem, fetched, Except.toOption]

/-- With all tables there, a target that cannot be read is not found, and it is not shown either. -/
theorem mem_getItems_target (sound : c.Sound) (whole : c.Whole) :
    item ∈ c.getItems predicates (some id) ↔ c.Finds predicates (some id) item := by
  by_cases blocked : c.BlocksFetch (some id)
  · rw [getItems_of_blocked sound blocked]
    refine iff_of_false List.not_mem_nil ?_
    rintro ⟨⟨content, -⟩, -, rfl⟩
    cases content.symm.trans ((blocksFetch_iff whole).mp blocked)
  · exact mem_getItems sound blocked

/-- A target is found alone. -/
theorem getItems_target_eq (sound : c.Sound) (whole : c.Whole) (shown : c.Shows item) :
    c.getItems predicates (some item.id) = if item.satisfies predicates then [item] else [] := by
  apply eq_of_pairwise_of_mem_iff (fun _ _ below above => Int.lt_asymm below above)
    (getItems_ascending sound predicates _) (by split <;> simp)
  intro other
  rw [mem_getItems_target sound whole]
  constructor
  · rintro ⟨otherShown, satisfied, same⟩
    obtain rfl := otherShown.eq shown same
    simp [satisfied]
  · intro found
    split at found
    · rename_i satisfied
      obtain rfl := List.mem_singleton.mp found
      exact ⟨shown, satisfied, rfl⟩
    · cases found

/-- What is told of a number depends on the item that is shown under it. -/
theorem getItem_congr (soundC : c.Sound) (soundD : d.Sound) (wholeC : c.Whole) (wholeD : d.Whole)
    (same : ∀ item, item.id = id → (d.Shows item ↔ c.Shows item)) :
    d.getItem id = c.getItem id := by
  ext item
  rw [getItem_eq_some_iff soundD wholeD, getItem_eq_some_iff soundC wholeC]
  exact and_congr_left (same item)

theorem getItems_target_congr (soundC : c.Sound) (soundD : d.Sound) (wholeC : c.Whole)
    (wholeD : d.Whole) (same : ∀ item, item.id = id → (d.Shows item ↔ c.Shows item)) :
    d.getItems predicates (some id) = c.getItems predicates (some id) := by
  apply eq_of_pairwise_of_mem_iff (fun _ _ below above => Int.lt_asymm below above)
    (getItems_ascending soundD predicates _) (getItems_ascending soundC predicates _)
  intro item
  rw [mem_getItems_target soundD wholeD, mem_getItems_target soundC wholeC]
  constructor
  · rintro ⟨shows, satisfied, rfl⟩
    exact ⟨(same item rfl).mp shows, satisfied, rfl⟩
  · rintro ⟨shows, satisfied, rfl⟩
    exact ⟨(same item rfl).mpr shows, satisfied, rfl⟩

/-- Without a target those items are found that are found by their number and have a tag. -/
theorem exists_mem_getItems_iff (sound : c.Sound) (whole : c.Whole) (free : ¬ c.BlocksFetch none) :
    (∃ found ∈ c.getItems predicates none, found.id = id) ↔
      c.getItems predicates (some id) ≠ [] ∧
        ∃ shown, c.getItem id = some shown ∧ shown.tags ≠ .empty := by
  simp only [mem_getItems sound free, getItem_eq_some_iff sound whole, TagSet.ne_empty_iff]
  constructor
  · rintro ⟨found, ⟨shows, satisfied, tagged⟩, rfl⟩
    have alone : found ∈ c.getItems predicates (some found.id) :=
      (mem_getItems_target sound whole).mpr ⟨shows, satisfied, rfl⟩
    exact ⟨List.ne_nil_of_mem alone, found, ⟨shows, rfl⟩, tagged⟩
  · rintro ⟨some, shown, ⟨shows, rfl⟩, tagged⟩
    obtain ⟨found, alone⟩ := List.exists_mem_of_ne_nil _ some
    obtain ⟨otherShows, satisfied, same⟩ := (mem_getItems_target sound whole).mp alone
    obtain rfl := otherShows.eq shows same
    exact ⟨found, ⟨shows, satisfied, tagged⟩, rfl⟩

/-! ## Catalogs that look alike -/

/-- Both have the item with the same content and the same names of tags, or do not have it. -/
structure AlikeAt (id : Identity) (c d : Catalog) : Prop where
  content : c.contentOf id = d.contentOf id
  tags : c.tagsOn id = d.tagsOn id

namespace AlikeAt

theorem refl (id : Identity) (c : Catalog) : AlikeAt id c c := ⟨rfl, rfl⟩

theorem symm (alike : AlikeAt id c d) : AlikeAt id d c := ⟨alike.content.symm, alike.tags.symm⟩

theorem trans (first : AlikeAt id c d) (second : AlikeAt id d e) : AlikeAt id c e :=
  ⟨first.content.trans second.content, first.tags.trans second.tags⟩

theorem holds (alike : AlikeAt id c d) : c.Holds id ↔ d.Holds id := by
  rw [holds_iff_contentOf, alike.content, holds_iff_contentOf]

theorem carries (alike : AlikeAt id c d) {name : String} :
    c.Carries id name ↔ d.Carries id name := by
  rw [← mem_tagsOn, alike.tags, mem_tagsOn]

theorem shows (alike : AlikeAt item.id c d) : c.Shows item ↔ d.Shows item := by
  rw [Shows, alike.content, alike.tags, Shows]

end AlikeAt

/-- Both have the same items, with the same contents and the same names of tags. The tags may have
other numbers. -/
structure SeenAlike (c d : Catalog) : Prop where
  contents : ∀ i, c.contentOf i = d.contentOf i
  tags : ∀ i, c.tagsOn i = d.tagsOn i

/-- Both answer alike whatever is asked. -/
structure SameAnswers (c d : Catalog) : Prop where
  item : ∀ i, c.getItem i = d.getItem i
  items : ∀ predicates target, c.getItems predicates target = d.getItems predicates target
  count : c.itemCount = d.itemCount

namespace SeenAlike

theorem alikeAt (alike : SeenAlike c d) (id : Identity) : AlikeAt id c d :=
  ⟨alike.contents id, alike.tags id⟩

theorem of_alikeAt (alike : ∀ id, AlikeAt id c d) : SeenAlike c d :=
  ⟨fun id => (alike id).content, fun id => (alike id).tags⟩

theorem disturbs (alike : SeenAlike c d) : c.Disturbs target ↔ d.Disturbs target := by
  cases target <;> simp only [Disturbs, alike.contents, (alike.alikeAt _).carries]

theorem finds (alike : SeenAlike c d) :
    c.Finds predicates target item ↔ d.Finds predicates target item := by
  simp only [Finds, (alike.alikeAt _).shows]

theorem itemCount_eq (alike : SeenAlike c d) (soundC : c.Sound) (soundD : d.Sound) :
    c.itemCount = d.itemCount := by
  have numbers : c.itemNumbers.Perm d.itemNumbers := by
    apply (List.perm_ext_iff_of_nodup soundC.nodup_itemNumbers soundD.nodup_itemNumbers).mpr
    intro i
    rw [mem_itemNumbers, mem_itemNumbers, (alike.alikeAt i).holds]
  rw [Catalog.itemCount_eq, Catalog.itemCount_eq, numbers.length_eq]

/-- What users ask is answered from what is shown alone. -/
theorem answers (alike : SeenAlike c d) (soundC : c.Sound) (soundD : d.Sound) (wholeC : c.Whole)
    (wholeD : d.Whole) : SameAnswers c d := by
  have item (i : Identity) : c.getItem i = d.getItem i :=
    getItem_congr soundD soundC wholeD wholeC fun _ _ => (alike.alikeAt _).shows
  have blocks (target : Option Identity) : c.BlocksFetch target ↔ d.BlocksFetch target := by
    rw [blocksFetch_iff wholeC, blocksFetch_iff wholeD, alike.disturbs]
  have items (predicates : PredicateSet) (target : Option Identity) :
      c.getItems predicates target = d.getItems predicates target := by
    by_cases blocked : c.BlocksFetch target
    · rw [getItems_of_blocked soundC blocked,
        getItems_of_blocked soundD ((blocks target).mp blocked)]
    · apply getItems_eq soundC blocked (getItems_ascending soundD predicates target)
      intro item
      rw [mem_getItems soundD (mt (blocks target).mpr blocked), alike.finds]
  exact ⟨item, items, alike.itemCount_eq soundC soundD⟩

end SeenAlike

end TaggedItems.Catalog
