import TaggedItems.Proofs.Catalog.Failure
import TaggedItems.Proofs.Shelf
/-!
# Catalogs represent shelves

As long as nothing damages it, a catalog is a shelf to its users: the three tables represent the
entries (`Represents`), each use keeps that and gets the answer of the shelf (`step_represents`),
and so does every sequence of uses from the start (`run_answers_as_shelf`).
-/
namespace TaggedItems.Catalog
variable {c d : Catalog} {s : Shelf} {item : Identity} {predicates : PredicateSet}

/-- All tables are there, every content is readable, and users see what the shelf holds. -/
structure Represents (c : Catalog) (s : Shelf) : Prop where
  sound : c.Sound
  whole : c.Whole
  issued : s.issued = c.heldItems.counter
  contents : ∀ i, c.contentOf i = (s.entries.lookup i).map (.text ·.content)
  tags : ∀ i entry, s.entries.lookup i = some entry → entry.tags = c.tagsOn i

/-- The tags of an entry change as those of the item do. -/
theorem tagsOn_retag (h : Retagged item predicates.toList c d) {entry : Entry}
    (same : entry.tags = c.tagsOn item) : (entry.retag predicates).tags = d.tagsOn item := by
  ext name
  rw [Entry.retag, TagSet.mem_sdiff, TagSet.mem_union, TagSet.mem_ofList, TagSet.mem_ofList, same,
    PredicateSet.mem_includedNames, PredicateSet.excludes, PredicateSet.mem_names_of_sign,
    mem_tagsOn, mem_tagsOn, h.own]

namespace Represents

theorem holds (r : Represents c s) : c.Holds item ↔ item ∈ s.entries := by
  rw [holds_iff_contentOf, Finmap.mem_iff, r.contents]
  simp

/-- An item is shown as the shelf has it. -/
theorem shows_iff (r : Represents c s) {found : Item} :
    c.Shows found ↔ s.item? found.id = some found := by
  rw [Shelf.item?_eq_some_iff, Shows, r.contents]
  constructor
  · rintro ⟨content, tags⟩
    obtain ⟨entry, held, same⟩ := Option.map_eq_some_iff.mp content
    refine ⟨rfl, held.trans ?_⟩
    obtain ⟨text, names⟩ := entry
    cases same
    rw [tags, ← r.tags _ _ held]
  · rintro ⟨-, held⟩
    exact ⟨by rw [held]; rfl, r.tags _ _ held⟩

theorem readable (r : Represents c s) (i : Identity) : c.contentOf i ≠ some .unreadable := by
  rw [r.contents]
  cases s.entries.lookup i <;> simp

/-- Nothing that an operation may need is missing. -/
theorem free (r : Represents c s) (o : Operation) : ¬ c.Blocked o := by
  obtain ⟨tags, items, -⟩ := whole_iff.mp r.whole
  have fetch := not_blocksFetch r.whole r.readable
  have insert := not_blocksInsert r.whole
  have retag := not_blocksRetag r.whole
  cases o with
  | addTag _ => exact tags
  | addItem _ predicates => exact insert predicates
  | tagItem item predicates => exact retag item predicates
  | updateContent _ _ => exact items
  | getItem item => exact fetch (some item)
  | getItems _ target => exact fetch target
  | deleteItems query => exact fetch query.target
  | put query _ =>
    obtain ⟨predicates, _ | item⟩ := query
    · exact insert predicates
    · exact retag item predicates
  | itemCount => exact items

/-! ## Each work keeps the representation -/

theorem keepTag (r : Represents c s) {name : String} {tag : Tag}
    (h : c.keepTag name = .ok (tag, d)) : Represents d s := by
  obtain ⟨there, items, links⟩ := keepTag_frame h
  have held : d.heldItems = c.heldItems := by simp only [heldItems, items]
  have whole : d.Whole := by
    rw [whole_iff, items, links]
    exact ⟨there, (whole_iff.mp r.whole).2⟩
  have contents (i : Identity) : d.contentOf i = (s.entries.lookup i).map (.text ·.content) := by
    rw [← r.contents, contentOf, held]
    rfl
  have tags : ∀ i entry, s.entries.lookup i = some entry → entry.tags = d.tagsOn i := by
    intro i entry there
    rw [tagsOn_congr fun name => carries_keepTag r.sound h, r.tags i entry there]
  exact ⟨keepTag_sound r.sound h, whole, by rw [held, r.issued], contents, tags⟩

theorem inserted {content : String} (r : Represents c s)
    (h : Inserted item content predicates c d) :
    item = s.issued + 1 ∧ Represents d (s.add content predicates) := by
  have next : item = s.issued + 1 := by rw [h.next, r.issued]
  have issued : (s.add content predicates).issued = d.heldItems.counter := by
    rw [h.items]
    exact next.symm
  have contents (i : Identity) :
      d.contentOf i = ((s.add content predicates).entries.lookup i).map (.text ·.content) := by
    rw [h.contents, Shelf.lookup_add, ← next]
    split
    · rfl
    · exact r.contents i
  have tags : ∀ i entry, (s.add content predicates).entries.lookup i = some entry →
      entry.tags = d.tagsOn i := by
    intro i entry there
    rw [Shelf.lookup_add, ← next] at there
    split at there
    · rename_i same
      cases there
      ext name
      rw [same, mem_tagsOn, h.own, TagSet.mem_ofList]
    · rename_i differs
      rw [tagsOn_congr (h.others i differs), r.tags i entry there]
  exact ⟨next, h.sound, h.whole r.whole, issued, contents, tags⟩

theorem retagged (r : Represents c s) (h : Retagged item predicates.toList c d) :
    Represents d (s.change item (.retag predicates)) := by
  have issued : (s.change item (.retag predicates)).issued = d.heldItems.counter := by
    rw [Shelf.issued_change, h.heldItems, r.issued]
  have contents (i : Identity) : d.contentOf i =
      ((s.change item (.retag predicates)).entries.lookup i).map (.text ·.content) := by
    rw [h.contentOf, r.contents, Shelf.lookup_change]
    split
    · simp [Function.comp_def, Entry.retag]
    · rfl
  have tags : ∀ i entry, (s.change item (.retag predicates)).entries.lookup i = some entry →
      entry.tags = d.tagsOn i := by
    intro i entry there
    rw [Shelf.lookup_change] at there
    split at there
    · rename_i same
      subst same
      obtain ⟨old, held, rfl⟩ := Option.map_eq_some_iff.mp there
      exact tagsOn_retag h (r.tags i old held)
    · rename_i differs
      rw [tagsOn_congr (h.others i differs), r.tags i entry there]
  exact ⟨h.sound, h.whole r.whole, issued, contents, tags⟩

theorem rewritten (r : Represents c s) (content : String) :
    Represents (c.withContent item (.text content)) (s.change item (.rewrite content)) := by
  have issued : (s.change item (.rewrite content)).issued =
      (c.withContent item (.text content)).heldItems.counter := by
    rw [Shelf.issued_change, heldItems_withContent, r.issued]
  have contents (i : Identity) : (c.withContent item (.text content)).contentOf i =
      ((s.change item (.rewrite content)).entries.lookup i).map (.text ·.content) := by
    rw [contentOf_withContent, Shelf.lookup_change, r.contents]
    split
    · simp [Function.comp_def, Entry.rewrite]
    · rfl
  have tags : ∀ i entry, (s.change item (.rewrite content)).entries.lookup i = some entry →
      entry.tags = (c.withContent item (.text content)).tagsOn i := by
    intro i entry there
    rw [tagsOn_congr fun _ => carries_withContent]
    rw [Shelf.lookup_change] at there
    split at there
    · obtain ⟨old, held, rfl⟩ := Option.map_eq_some_iff.mp there
      exact r.tags i old held
    · exact r.tags i entry there
  exact ⟨r.sound.withContent item _, r.whole.withContent item _, issued, contents, tags⟩

theorem put (r : Represents c s) {query : Query} {content : String} {outcome : Outcome}
    (h : putWork query content c = .ok (outcome, d)) :
    outcome = (s.put query content).1 ∧ Represents d (s.put query content).2 := by
  obtain ⟨predicates, _ | item⟩ := query
  · obtain ⟨item, rfl, inserted⟩ := putWork_eq_ok_of_none r.sound h
    obtain ⟨next, represents⟩ := r.inserted inserted
    exact ⟨congrArg Outcome.created next, represents⟩
  · rcases putWork_eq_ok_of_target r.sound h with
      ⟨there, rfl, tagged, retagged, rfl⟩ | ⟨absent, rfl, rfl⟩
    · have tagged := r.retagged retagged
      simp only [Shelf.put, if_pos (r.holds.mp there), String.isEmpty_iff, true_and]
      split
      · exact tagged
      · exact tagged.rewritten content
    · simp only [Shelf.put, if_neg (mt r.holds.mpr absent), true_and]
      exact r

theorem withoutAll (r : Represents c s) (items : List Identity) :
    Represents (c.withoutAll items) (s.delete items) := by
  have issued : (s.delete items).issued = (c.withoutAll items).heldItems.counter := by
    rw [withoutAll_counter]
    exact r.issued
  have contents (i : Identity) : (c.withoutAll items).contentOf i =
      ((s.delete items).entries.lookup i).map (.text ·.content) := by
    rw [contentOf_withoutAll, Shelf.lookup_delete, r.contents]
    split <;> rfl
  have tags : ∀ i entry, (s.delete items).entries.lookup i = some entry →
      entry.tags = (c.withoutAll items).tagsOn i := by
    intro i entry there
    rw [Shelf.lookup_delete] at there
    split at there
    · cases there
    · rename_i kept
      have same (name : String) : (c.withoutAll items).Carries i name ↔ c.Carries i name := by
        rw [carries_withoutAll, and_iff_left kept]
      rw [tagsOn_congr same, r.tags i entry there]
  exact ⟨withoutAll_sound r.sound items, withoutAll_whole r.whole items, issued, contents, tags⟩

/-! ## Each answer is the shelf's -/

theorem fetched (r : Represents c s) {found : Option Item} (h : c.fetchItem item = .ok found) :
    found = s.item? item := by
  ext shown
  rw [fetchItem_eq_ok r.sound h, r.shows_iff]
  constructor
  · rintro ⟨held, rfl⟩
    exact held
  · intro held
    obtain ⟨rfl, -⟩ := Shelf.item?_eq_some_iff.mp held
    exact ⟨held, rfl⟩

theorem matched (r : Represents c s) {target : Option Identity} {found : List Item}
    (h : c.fetchMatching predicates target = .ok found) : found = s.find predicates target := by
  obtain ⟨ascending, mem⟩ := fetchMatching_eq_ok r.sound h
  apply eq_of_pairwise_of_mem_iff (fun _ _ below above => Int.lt_asymm below above) ascending
    (s.find_ascending predicates target)
  intro item
  rw [mem, Shelf.mem_find, PredicateSet.accepts_iff, ← r.shows_iff]
  cases target with
  | some id => exact Iff.rfl
  | none => rw [TagSet.ne_empty_iff]; exact Iff.rfl

/-- The numbers of the rows are the numbers of the entries, each once. -/
theorem counted (r : Represents c s) {items : Nat} (h : c.countItems = .ok items) :
    items = s.entries.keys.card := by
  obtain ⟨table, read, done⟩ := bind_eq_ok.mp h
  obtain ⟨-, rfl⟩ := itemTable_eq_ok read
  cases done
  have numbers : (c.heldItems.rows.map Record.id).toFinset = s.entries.keys := by
    ext item
    rw [List.mem_toFinset, Finmap.mem_keys, ← r.holds, List.mem_map]
    rfl
  rw [← numbers, List.toFinset_card_of_nodup r.sound.items.distinct, List.length_map]

end Represents

/-! ## Runs -/

/-- What a user learns from an event who does not look at the numbers of tags. -/
def observed : Event × Option Answer → Option Answer
  | (.operation (.addTag _), _) => none
  | (_, answer) => answer

/-- One case for each operation: it does what the shelf does, and gets the same answer. -/
theorem attempt_represents {o : Operation} {answer : Answer} (r : Represents c s)
    (h : c.attempt o = .ok (answer, d)) :
    observed (.operation o, some answer) = (s.perform o).1 ∧ Represents d (s.perform o).2 := by
  cases attempt_succeeds r.sound h with
  | addTag work => exact ⟨rfl, r.keepTag work⟩
  | addItem work =>
    obtain ⟨next, represents⟩ := r.inserted (insertTagged_eq_ok r.sound work)
    exact ⟨by rw [next]; rfl, represents⟩
  | tagItem work =>
    rcases retag_eq_ok r.sound work with ⟨there, rfl, retagged⟩ | ⟨absent, rfl, rfl⟩
    · exact ⟨by simp [observed, Shelf.perform, r.holds.mp there], r.retagged retagged⟩
    · have absent := mt r.holds.mpr absent
      refine ⟨by simp [observed, Shelf.perform, absent], ?_⟩
      rwa [Shelf.perform, Shelf.change_eq_self absent]
  | updateContent work =>
    rename_i item content found
    obtain ⟨-, there, rfl⟩ := replaceContent_eq_ok work
    have found_eq : found = decide (item ∈ s.entries) := by
      rw [Bool.eq_iff_iff, there, r.holds, decide_eq_true_iff]
    exact ⟨by rw [found_eq]; rfl, r.rewritten content⟩
  | getItem work => exact ⟨by rw [r.fetched work]; rfl, r⟩
  | getItems work => exact ⟨by rw [r.matched work]; rfl, r⟩
  | deleteItems work =>
    rw [r.matched work]
    exact ⟨rfl, r.withoutAll _⟩
  | put work =>
    obtain ⟨outcome_eq, represents⟩ := r.put work
    exact ⟨by rw [outcome_eq]; rfl, represents⟩
  | itemCount work => exact ⟨by rw [r.counted work]; rfl, r⟩

theorem initial_represents : Represents initial .initial where
  sound := initial_sound
  whole := ⟨rfl, rfl, rfl⟩
  issued := rfl
  contents := fun i => by rw [Shelf.initial, Finmap.lookup_empty]; rfl
  tags := fun i entry held => by rw [Shelf.initial, Finmap.lookup_empty] at held; cases held

/-- Opening creates no table where none is missing. -/
theorem reopen_eq_self (whole : c.Whole) : c.reopen = c := by
  obtain ⟨tags, items, links⟩ := whole
  calc c.reopen
    _ = ⟨some c.heldTags, some c.heldItems, some c.heldLinks⟩ := rfl
    _ = c := by rw [← tags, ← items, ← links]

theorem step_represents (r : Represents c s) (use : Use) :
    observed (use.event, (c.step use.event).1) = (s.step use).1 ∧
      Represents (c.step use.event).2 (s.step use).2 := by
  cases use with
  | operation o =>
    obtain ⟨⟨answer, d⟩, done⟩ :=
      exists_ok_of_not_fails (mt (fails_attempt r.sound o).mp (r.free o))
    have performed : c.perform o = (answer, d) := by rw [perform_eq, done]
    have step : c.step (.operation o) = (some answer, d) := by
      simp only [step, performed, Prod.map, id]
    rw [Use.event, step]
    exact attempt_represents r done
  | reopen =>
    have same : (c.step .reopen).2 = c := reopen_eq_self r.whole
    exact ⟨rfl, same.symm ▸ r⟩

theorem run_represents (r : Represents c s) (uses : List Use) :
    (c.run (uses.map Use.event)).1.map observed = (s.run uses).1 ∧
      Represents (c.run (uses.map Use.event)).2 (s.run uses).2 := by
  induction uses generalizing c s with
  | nil => exact ⟨rfl, r⟩
  | cons use later ih =>
    obtain ⟨answer, represents⟩ := step_represents r use
    obtain ⟨answers, final⟩ := ih represents
    exact ⟨congrArg₂ List.cons answer answers, final⟩

/-- Whatever users do with a fresh catalog, and however often it is reopened, they get the answers
of a shelf, and the tables represent that shelf in the end. -/
theorem run_answers_as_shelf (uses : List Use) :
    (initial.run (uses.map Use.event)).1.map observed = (Shelf.initial.run uses).1 ∧
      Represents (initial.run (uses.map Use.event)).2 (Shelf.initial.run uses).2 :=
  run_represents initial_represents uses

end TaggedItems.Catalog
