import TaggedItems.Proofs.Catalog.Finding
import TaggedItems.Proofs.Shelf
import TaggedItems.Proofs.Spelling
/-!
# What queries find after an addition

A new item has the greatest number so far, so a query without a target finds it last, if it has a
tag and satisfies what is asked, and finds everything else as before (`addItem_appends`). The
predicates under which an item was added are satisfied by it unless one of their names spells its
number.
-/
namespace TaggedItems

/-- Every name is asked about once, so what was asked for at an addition is what is there. -/
theorem PredicateSet.accepts_own {predicates : PredicateSet} {id : Identity} {content : String} :
    predicates.Accepts ⟨id, content, .ofList predicates.includedNames⟩ ↔
      ∀ p ∈ predicates.toList, p.identity? ≠ some id := by
  have own : ∀ p ∈ predicates.toList,
      (p.sign = .includes ↔ p.name ∈ TagSet.ofList predicates.includedNames) := by
    intro p there
    rw [TagSet.mem_ofList, mem_includedNames]
    obtain ⟨sign, name⟩ := p
    constructor
    · rintro rfl
      exact there
    · intro included
      cases predicates.eq_of_name there included rfl
      rfl
  exact forall₂_congr fun p there => and_iff_left (own p there)

namespace Catalog
variable {c d : Catalog} {id : Identity} {content : String} {predicates : PredicateSet}

theorem lt_next_of_holds (sound : c.Sound) (h : c.Holds id) : id < c.heldItems.counter + 1 := by
  obtain ⟨record, held, rfl⟩ := h
  exact Int.lt_add_one_of_le (sound.items.handedOut record held).2

namespace Inserted

theorem shows_other (h : Inserted id content predicates c d) {item : Item} (other : item.id ≠ id) :
    d.Shows item ↔ c.Shows item :=
  shows_congr ((h.contents item.id).trans (if_neg other)) (h.others item.id other)

theorem tagsOn_new (h : Inserted id content predicates c d) :
    d.tagsOn id = .ofList predicates.includedNames := by
  ext name
  rw [mem_tagsOn, h.own, TagSet.mem_ofList]

theorem shows_new (h : Inserted id content predicates c d) {item : Item} (same : item.id = id) :
    d.Shows item ↔ item = ⟨id, content, .ofList predicates.includedNames⟩ := by
  obtain ⟨_, text, tags⟩ := item
  subst same
  rw [Shows, h.contents, if_pos rfl, h.tagsOn_new]
  simp [eq_comm]

/-- A number that was not handed out yet shows nothing. -/
theorem not_shows (h : Inserted id content predicates c d) (sound : c.Sound) {item : Item}
    (same : item.id = id) : ¬ c.Shows item := by
  rintro ⟨content, -⟩
  have holds : c.Holds (c.heldItems.counter + 1) :=
    holds_iff_contentOf.mpr ⟨_, h.next ▸ same ▸ content⟩
  exact not_holds_next sound holds

theorem getItems_target (h : Inserted id content predicates c d) (sound : c.Sound)
    (whole : c.Whole) (asked : PredicateSet) {target : Identity} (other : target ≠ id) :
    d.getItems asked (some target) = c.getItems asked (some target) :=
  getItems_target_congr sound h.sound whole (h.whole whole) fun _ same =>
    h.shows_other (same ▸ other)

/-- The new item is found if it has a tag, and everything else is found as it was before. -/
theorem finds_broad (h : Inserted id content predicates c d) (sound : c.Sound)
    {asked : PredicateSet} {item : Item} :
    d.Finds asked none item ↔ c.Finds asked none item ∨
      item = ⟨id, content, .ofList predicates.includedNames⟩ ∧ predicates.includes ≠ [] ∧
        item.satisfies asked = true := by
  have tagged : (∃ name, name ∈ TagSet.ofList predicates.includedNames) ↔
      predicates.includes ≠ [] := by
    rw [← not_iff_not, not_exists, not_not]
    simp only [TagSet.mem_ofList, ← List.eq_nil_iff_forall_not_mem, PredicateSet.includedNames,
      List.map_eq_nil_iff]
  simp only [Finds]
  by_cases same : item.id = id
  · have before : ¬ c.Shows item := h.not_shows sound same
    rw [h.shows_new same]
    constructor
    · rintro ⟨rfl, satisfied, named⟩
      exact .inr ⟨rfl, tagged.mp named, satisfied⟩
    · rintro (⟨shown, -⟩ | ⟨rfl, included, satisfied⟩)
      · exact absurd shown before
      · exact ⟨rfl, satisfied, tagged.mpr included⟩
  · have differs : item ≠ ⟨id, content, .ofList predicates.includedNames⟩ := by
      rintro rfl
      exact same rfl
    rw [h.shows_other same, or_iff_left fun new => differs new.1]

/-- The new item can be read, and the others carry what they did. -/
theorem not_blocksFetch_broad (h : Inserted id content predicates c d) (whole : c.Whole)
    (readable : ¬ c.Disturbs none) : ¬ d.BlocksFetch none := by
  rw [blocksFetch_iff (h.whole whole)]
  rintro ⟨item, name, carries, unreadable⟩
  rw [h.contents] at unreadable
  by_cases same : item = id
  · rw [if_pos same] at unreadable
    cases unreadable
  · rw [if_neg same] at unreadable
    exact readable ⟨item, name, (h.others item same name).mp carries, unreadable⟩

/-- The new number is above all others, so the new item is the last one. -/
theorem getItems_broad (h : Inserted id content predicates c d) (sound : c.Sound)
    (whole : c.Whole) (readable : ¬ c.Disturbs none) (asked : PredicateSet) :
    d.getItems asked none = c.getItems asked none ++
      if predicates.includes ≠ [] ∧
          Item.satisfies ⟨id, content, .ofList predicates.includedNames⟩ asked = true
        then [⟨id, content, .ofList predicates.includedNames⟩] else [] := by
  have free : ¬ c.BlocksFetch none := mt (blocksFetch_iff whole).mp readable
  apply getItems_eq h.sound (h.not_blocksFetch_broad whole readable)
  · rw [List.pairwise_append]
    refine ⟨getItems_ascending sound asked none, by split <;> simp, fun old there new last => ?_⟩
    have held : c.Holds old.id :=
      holds_iff_contentOf.mpr ⟨_, (finds_of_mem_getItems sound there).1.1⟩
    have below : old.id < id := h.next ▸ lt_next_of_holds sound held
    split at last
    · obtain rfl := List.mem_singleton.mp last
      exact below
    · cases last
  · intro item
    rw [List.mem_append, mem_getItems sound free, h.finds_broad sound]
    apply or_congr_right
    split
    · rename_i matched
      rw [List.mem_singleton]
      constructor
      · rintro rfl
        exact ⟨rfl, matched⟩
      · exact And.left
    · rename_i unmatched
      refine iff_of_false List.not_mem_nil ?_
      rintro ⟨rfl, matched⟩
      exact unmatched matched

/-- The new item is found by its number. -/
theorem getItems_own (h : Inserted id content predicates c d) (whole : c.Whole) :
    d.getItems .empty (some id) = [⟨id, content, .ofList predicates.includedNames⟩] :=
  (getItems_target_eq h.sound (h.whole whole) ((h.shows_new rfl).mpr rfl)).trans (if_pos rfl)

end Inserted

/-- Whole tables allow every insertion. -/
theorem exists_inserted (sound : c.Sound) (whole : c.Whole) (content : String)
    (predicates : PredicateSet) :
    ∃ id d, insertTagged content predicates c = .ok (id, d) ∧
      Inserted id content predicates c d := by
  obtain ⟨⟨id, d⟩, work⟩ :=
    exists_ok_of_not_fails (mt fails_insertTagged.mp (not_blocksInsert whole predicates))
  exact ⟨id, d, work, insertTagged_eq_ok sound work⟩

/-- `d` is `c` with a new item, as queries see it. -/
structure Appended (c : Catalog) (new : Item) (predicates : PredicateSet) (d : Catalog) : Prop where
  above : ∀ item, c.Holds item → item < new.id
  broad : ∀ asked, d.getItems asked none = c.getItems asked none ++
    if predicates.includes ≠ [] ∧ new.satisfies asked = true then [new] else []
  targeted : ∀ asked target, target ≠ new.id →
    d.getItems asked (some target) = c.getItems asked (some target)
  own : new ∈ d.getItems predicates none ↔ predicates.includes ≠ [] ∧
    ∀ p ∈ predicates.toList, ∀ n : Nat, n ≤ 2 ^ 63 - 1 → Decimal.Spells p.name.toList n →
      new.id ≠ n

theorem Inserted.appended (h : Inserted id content predicates c d) (sound : c.Sound)
    (whole : c.Whole) (readable : ¬ c.Disturbs none) :
    Appended c ⟨id, content, .ofList predicates.includedNames⟩ predicates d := by
  have free : ¬ d.BlocksFetch none := h.not_blocksFetch_broad whole readable
  have own : Item.mk id content (.ofList predicates.includedNames) ∈ d.getItems predicates none ↔
      predicates.includes ≠ [] ∧ ∀ p ∈ predicates.toList, ∀ n : Nat, n ≤ 2 ^ 63 - 1 →
        Decimal.Spells p.name.toList n → id ≠ n := by
    have before : ¬ c.Finds predicates none ⟨id, content, .ofList predicates.includedNames⟩ :=
      fun found => h.not_shows sound rfl found.1
    rw [mem_getItems h.sound free, h.finds_broad sound, or_iff_right before,
      ← PredicateSet.accepts_iff, PredicateSet.accepts_own]
    simp only [ne_eq, Predicate.identity?_eq_some_iff, true_and]
    refine and_congr_right fun _ => forall₂_congr fun p _ => ?_
    constructor
    · intro other n bounded spells same
      exact other ⟨n, spells, bounded, same⟩
    · rintro other ⟨n, spells, bounded, same⟩
      exact other n bounded spells same
  exact ⟨fun item held => h.next ▸ lt_next_of_holds sound held,
    h.getItems_broad sound whole readable,
    fun asked _ other => h.getItems_target sound whole asked other, own⟩

/-- An addition to whole tables, in which every tagged item can be read, succeeds. Every query
without a target then finds the new item last, if it has a tag and satisfies what is asked, and
every other query finds what it found. -/
theorem addItem_appends (h : Reachable c) (whole : c.Whole)
    (readable : ∀ item name, c.Carries item name → c.contentOf item ≠ some .unreadable)
    (content : String) (predicates : PredicateSet) :
    ∃ id d, c.addItem content predicates = (some id, d) ∧
      Appended c ⟨id, content, .ofList predicates.includedNames⟩ predicates d := by
  have sound := reachable_sound h
  obtain ⟨id, d, work, inserted⟩ := exists_inserted sound whole content predicates
  have undisturbed : ¬ c.Disturbs none := by
    rintro ⟨item, name, carries, unreadable⟩
    exact readable item name carries unreadable
  exact ⟨id, d, transact_of_ok work, inserted.appended sound whole undisturbed⟩

/-- The first item cannot be read, and it has no tag. -/
def spotted : Catalog :=
  ⟨some ⟨1, [⟨1, "foo"⟩]⟩, some ⟨2, [⟨1, .unreadable⟩, ⟨2, .text "second"⟩]⟩, some [⟨2, 1⟩]⟩

theorem spotted_reachable : Reachable spotted := by
  have life : spotted = (initial.run
      [.operation (.addItem "first" .empty),
        .operation (.addItem "second" (.ofList [⟨.includes, "foo"⟩])), .damage (.spoil 1)]).2 := by
    decide +kernel
  exact life ▸ Reachable.initial.run _

/-- The third item has its own number among its tags, so it is found by its other tag only. -/
theorem spotted_appends :
    Reachable spotted ∧ ∃ d,
      spotted.addItem "third" (.ofList [⟨.includes, "03"⟩, ⟨.includes, "foo"⟩]) = (some 3, d) ∧
      Appended spotted ⟨3, "third", .ofList ["03", "foo"]⟩
        (.ofList [⟨.includes, "03"⟩, ⟨.includes, "foo"⟩]) d ∧
      (d.getItems (.ofList [⟨.includes, "03"⟩, ⟨.includes, "foo"⟩]) none).map (·.id) = [] ∧
      (d.getItems (.ofList [⟨.includes, "foo"⟩]) none).map (·.id) = [2, 3] := by
  have readable : ∀ item name, spotted.Carries item name →
      spotted.contentOf item ≠ some .unreadable := by
    rintro item name ⟨tag, -, -, linked⟩
    obtain ⟨rfl, -⟩ := Link.mk.injEq _ _ _ _ ▸ List.mem_singleton.mp linked
    decide
  obtain ⟨id, d, added, appended⟩ :=
    addItem_appends spotted_reachable ⟨rfl, rfl, rfl⟩ readable "third"
    (.ofList [⟨.includes, "03"⟩, ⟨.includes, "foo"⟩])
  have done : spotted.addItem "third" (.ofList [⟨.includes, "03"⟩, ⟨.includes, "foo"⟩]) =
      (some 3, ⟨some ⟨3, [⟨1, "foo"⟩, ⟨2, "03"⟩]⟩,
        some ⟨3, [⟨1, .unreadable⟩, ⟨2, .text "second"⟩, ⟨3, .text "third"⟩]⟩,
        some [⟨2, 1⟩, ⟨3, 2⟩, ⟨3, 1⟩]⟩) := by
    decide +kernel
  cases added.symm.trans done
  exact ⟨spotted_reachable, _, done, appended, by decide +kernel, by decide +kernel⟩

end Catalog
end TaggedItems
