import TaggedItems.Proofs.Catalog.Finding
import TaggedItems.Proofs.Shelf
import TaggedItems.Proofs.Spelling
/-!
# Retagging

What is seen of an item that was retagged. To retag it again is to lay the later predicates over the
earlier ones (`retags_compose`). Queries find the item by what was imposed on it, unless one of the
names spells its number, and they find every other item as before (`tagItem_establishes`).
-/
namespace TaggedItems.Catalog
variable {c d e : Catalog} {item : Identity} {predicates earlier later : PredicateSet}

/-- Whole tables allow every retagging of an item that is there. -/
theorem exists_retagged (sound : c.Sound) (whole : c.Whole) (holds : c.Holds item)
    (predicates : PredicateSet) :
    ∃ d, c.tagItem item predicates = (true, d) ∧ Retagged item predicates.toList c d := by
  obtain ⟨⟨found, d⟩, tag⟩ :=
    exists_ok_of_not_fails (mt fails_retag_iff.mp (not_blocksRetag whole item predicates))
  obtain ⟨-, rfl, retagged⟩ | ⟨absent, -⟩ := retag_eq_ok sound tag
  · exact ⟨d, tagItem_of_ok tag, retagged⟩
  · exact absurd holds absent

theorem retagged_of_tagItem (sound : c.Sound) (h : c.tagItem item predicates = (true, d)) :
    c.Holds item ∧ Retagged item predicates.toList c d := by
  cases tag : retag item predicates c with
  | error fault => cases h.symm.trans (tagItem_of_fails ⟨fault, tag⟩)
  | ok result =>
    obtain ⟨found, tagged⟩ := result
    cases h.symm.trans (tagItem_of_ok tag)
    obtain ⟨holds, -, retagged⟩ | ⟨-, other, -⟩ := retag_eq_ok sound tag
    · exact ⟨holds, retagged⟩
    · cases other

/-! ## One retagging after the other -/

namespace Retagged

/-- About a name in both sets the later set decides, as nothing is left of what was imposed
before. -/
theorem laidOver (first : Retagged item earlier.toList c d)
    (second : Retagged item later.toList d e) :
    Retagged item (later.laidOver earlier).toList c e := by
  refine ⟨second.sound, second.items.trans first.items, second.whole ∘ first.whole, fun name => ?_,
    fun other differs name =>
      (second.others other differs name).trans (first.others other differs name)⟩
  rw [second.own, first.own]
  -- Either no later predicate has the name, or the one that has it decides alone.
  by_cases free : ∀ p ∈ later.toList, p.name ≠ name
  · have left (sign : Sign) :
        ⟨sign, name⟩ ∈ (later.laidOver earlier).toList ↔ ⟨sign, name⟩ ∈ earlier.toList := by
      rw [PredicateSet.mem_laidOver, or_iff_right fun there => free _ there rfl, and_iff_right free]
    have absent (sign : Sign) : ⟨sign, name⟩ ∉ later.toList := fun there => free _ there rfl
    simp only [left, absent, or_false, not_false_eq_true, and_true]
  · have decided (sign : Sign) :
        ⟨sign, name⟩ ∈ (later.laidOver earlier).toList ↔ ⟨sign, name⟩ ∈ later.toList := by
      rw [PredicateSet.mem_laidOver, or_iff_left fun rest => free rest.1]
    obtain ⟨⟨sign, _⟩, there, rfl⟩ : ∃ p ∈ later.toList, p.name = name := by simpa using free
    rw [decided, decided]
    cases sign with
    | includes => simp [there, later.not_excludes there]
    | excludes => simp [there]

theorem alikeAt_other {ps : List Predicate} (h : Retagged item ps c d) {other : Identity}
    (differs : other ≠ item) : AlikeAt other d c :=
  ⟨h.contentOf other, tagsOn_congr (h.others other differs)⟩

/-- The tags that the item has now depend on those that it had. -/
theorem alikeAt_own {ps : List Predicate} {f : Catalog} (one : Retagged item ps c d)
    (other : Retagged item ps e f) (alike : AlikeAt item c e) : AlikeAt item d f := by
  refine ⟨?_, tagsOn_congr fun name => ?_⟩
  · rw [one.contentOf, other.contentOf, alike.content]
  · rw [one.own, other.own, alike.carries]

/-- What is seen in the end depends on the predicates alone. -/
theorem alike {ps : List Predicate} (one : Retagged item ps c d) (other : Retagged item ps c e) :
    SeenAlike d e := by
  apply SeenAlike.of_alikeAt
  intro i
  by_cases same : i = item
  · exact same ▸ one.alikeAt_own other (.refl item c)
  · exact (one.alikeAt_other same).trans (other.alikeAt_other same).symm

end Retagged

/-- Two retaggings show what a single one shows that lays the later set over the earlier, and to
retag with the same set again shows nothing new. -/
theorem retags_compose (h : Reachable c) (whole : c.Whole) (holds : c.Holds item)
    (earlier later : PredicateSet) :
    ∃ d e f again, c.tagItem item earlier = (true, d) ∧ d.tagItem item later = (true, e) ∧
      c.tagItem item (later.laidOver earlier) = (true, f) ∧ SeenAlike e f ∧ SameAnswers e f ∧
      d.tagItem item earlier = (true, again) ∧ SeenAlike again d ∧ SameAnswers again d := by
  obtain ⟨d, tagged, first⟩ := exists_retagged (reachable_sound h) whole holds earlier
  have wholeFirst := first.whole whole
  have holdsFirst := first.holds.mpr holds
  obtain ⟨e, retagged, second⟩ := exists_retagged first.sound wholeFirst holdsFirst later
  obtain ⟨f, atOnce, both⟩ :=
    exists_retagged (reachable_sound h) whole holds (later.laidOver earlier)
  obtain ⟨again, repeated, twice⟩ := exists_retagged first.sound wholeFirst holdsFirst earlier
  have composed : SeenAlike e f := (first.laidOver second).alike both
  have unchanged : SeenAlike again d := by
    -- A set that is laid over itself stays as it is.
    have merged := first.laidOver twice
    rw [PredicateSet.laidOver_self] at merged
    exact merged.alike first
  exact ⟨d, e, f, again, tagged, retagged, atOnce, composed,
    composed.answers second.sound both.sound (second.whole wholeFirst) (both.whole whole), repeated,
    unchanged, unchanged.answers twice.sound first.sound (twice.whole wholeFirst) wholeFirst⟩

/-- Two items that share a tag. -/
def paired : Catalog :=
  ⟨some ⟨3, [⟨1, "foo"⟩, ⟨2, "bar"⟩]⟩, some ⟨2, [⟨1, .text "first"⟩, ⟨2, .text "second"⟩]⟩,
    some [⟨1, 1⟩, ⟨2, 2⟩, ⟨2, 1⟩]⟩

theorem paired_reachable : Reachable paired := by
  have life : paired = (initial.run
      [.operation (.addItem "first" (.ofList [⟨.includes, "foo"⟩])),
        .operation (.addItem "second" (.ofList [⟨.includes, "foo"⟩, ⟨.includes, "bar"⟩]))]).2 := by
    decide +kernel
  exact life ▸ Reachable.initial.run _

/-- Two names change their signs in between. One of them is new, so its tag is left over from the
two steps and never comes up in the single one. -/
theorem paired_retags :
    ∃ d e f again, paired.tagItem 2 (.ofList [⟨.excludes, "foo"⟩, ⟨.includes, "new"⟩]) = (true, d) ∧
      d.tagItem 2 (.ofList [⟨.excludes, "bar"⟩, ⟨.includes, "foo"⟩, ⟨.excludes, "new"⟩]) =
        (true, e) ∧
      paired.tagItem 2 (.ofList [⟨.excludes, "bar"⟩, ⟨.includes, "foo"⟩, ⟨.excludes, "new"⟩]) =
        (true, f) ∧
      SameAnswers e f ∧ e.getItem 2 = some ⟨2, "second", .ofList ["foo"]⟩ ∧
      e.heldTags ≠ f.heldTags ∧
      d.tagItem 2 (.ofList [⟨.excludes, "foo"⟩, ⟨.includes, "new"⟩]) = (true, again) ∧
      SameAnswers again d ∧ d.getItem 2 = some ⟨2, "second", .ofList ["bar", "new"]⟩ := by
  have holds : paired.Holds 2 := ⟨⟨2, .text "second"⟩, by decide, rfl⟩
  obtain ⟨d, e, f, again, tagged, retagged, atOnce, -, composed, repeated, -, unchanged⟩ :=
    retags_compose paired_reachable ⟨rfl, rfl, rfl⟩ holds
      (.ofList [⟨.excludes, "foo"⟩, ⟨.includes, "new"⟩])
      (.ofList [⟨.excludes, "bar"⟩, ⟨.includes, "foo"⟩, ⟨.excludes, "new"⟩])
  have merged : PredicateSet.laidOver
      (.ofList [⟨.excludes, "bar"⟩, ⟨.includes, "foo"⟩, ⟨.excludes, "new"⟩])
      (.ofList [⟨.excludes, "foo"⟩, ⟨.includes, "new"⟩]) =
        .ofList [⟨.excludes, "bar"⟩, ⟨.includes, "foo"⟩, ⟨.excludes, "new"⟩] := by
    decide +kernel
  rw [merged] at atOnce
  obtain rfl := congrArg Prod.snd tagged
  obtain rfl := congrArg Prod.snd retagged
  obtain rfl := congrArg Prod.snd atOnce
  exact ⟨_, _, _, again, tagged, retagged, atOnce, composed, by decide +kernel, by decide +kernel,
    repeated, unchanged, by decide +kernel⟩

/-! ## What was imposed is found -/

namespace Retagged

theorem shows_other {ps : List Predicate} (h : Retagged item ps c d) {other : Item}
    (differs : other.id ≠ item) : d.Shows other ↔ c.Shows other :=
  shows_congr (h.contentOf other.id) (h.others other.id differs)

/-- All that was imposed is there, so only a name that spells its number lets the item be
refused. -/
theorem satisfies_iff {shown : Item} (h : Retagged shown.id predicates.toList c d)
    (shows : d.Shows shown) : shown.satisfies predicates = true ↔ ¬ predicates.Spells shown.id := by
  have imposed : ∀ p ∈ predicates.toList, (p.sign = .includes ↔ p.name ∈ shown.tags) := by
    intro p there
    rw [shows.2, mem_tagsOn, h.own]
    obtain ⟨sign, name⟩ := p
    cases sign with
    | includes => simp [there, predicates.not_excludes there]
    | excludes => simp [there]
  rw [← PredicateSet.accepts_iff, PredicateSet.not_spells_iff]
  exact forall₂_congr fun p there => and_iff_left (imposed p there)

end Retagged

/-- `d` is `c` after an item was retagged, which now is `shown`, as queries see it. -/
structure Established (c : Catalog) (predicates : PredicateSet) (shown : Item) (d : Catalog) :
    Prop where
  now : d.getItem shown.id = some shown
  accepted : ¬ predicates.Spells shown.id → d.getItems predicates (some shown.id) = [shown]
  refused : predicates.Spells shown.id → d.getItems predicates (some shown.id) = []
  broad : (∃ found ∈ d.getItems predicates none, found.id = shown.id) ↔
    ¬ predicates.Spells shown.id ∧ shown.tags ≠ .empty
  others : ∀ other, other ≠ shown.id → d.getItem other = c.getItem other
  elsewhere : ∀ asked found, found.id ≠ shown.id →
    (found ∈ d.getItems asked none ↔ found ∈ c.getItems asked none)

theorem Retagged.established {shown : Item} (h : Retagged shown.id predicates.toList c d)
    (sound : c.Sound) (whole : c.Whole) (readable : ∀ i, c.contentOf i ≠ some .unreadable)
    (shows : d.Shows shown) : Established c predicates shown d := by
  have wholeAfter := h.whole whole
  have free := not_blocksFetch whole readable none
  have freeAfter : ¬ d.BlocksFetch none :=
    not_blocksFetch wholeAfter (fun i => h.contentOf i ▸ readable i) none
  have satisfied := h.satisfies_iff shows
  have alone : d.getItems predicates (some shown.id) =
      if shown.satisfies predicates then [shown] else [] :=
    getItems_target_eq h.sound wholeAfter shows
  have now : d.getItem shown.id = some shown :=
    (getItem_eq_some_iff h.sound wholeAfter).mpr ⟨shows, rfl⟩
  have broad : (∃ found ∈ d.getItems predicates none, found.id = shown.id) ↔
      ¬ predicates.Spells shown.id ∧ shown.tags ≠ .empty := by
    rw [exists_mem_getItems_iff h.sound wholeAfter freeAfter, alone, now, ← satisfied]
    simp
  have others (other : Identity) (differs : other ≠ shown.id) :
      d.getItem other = c.getItem other :=
    getItem_congr sound h.sound whole wholeAfter fun _ same => h.shows_other (same ▸ differs)
  have elsewhere (asked : PredicateSet) (found : Item) (differs : found.id ≠ shown.id) :
      found ∈ d.getItems asked none ↔ found ∈ c.getItems asked none := by
    rw [mem_getItems h.sound freeAfter, mem_getItems sound free, Finds, h.shows_other differs,
      Finds]
  exact ⟨now, fun accepted => by rw [alone, if_pos (satisfied.mpr accepted)],
    fun refused => by rw [alone, if_neg fun meets => satisfied.mp meets refused], broad, others,
    elsewhere⟩

/-- In whole tables that can be read, an item that was retagged satisfies what was imposed on it
unless one of the names spells its number, whether that name was to be added or removed. It is found
without a target if it has a tag left, and nothing else is found differently. -/
theorem tagItem_establishes (h : Reachable c) (whole : c.Whole)
    (readable : ∀ i, c.contentOf i ≠ some .unreadable)
    (tagged : c.tagItem item predicates = (true, d)) :
    ∃ shown, shown.id = item ∧ Established c predicates shown d := by
  have sound := reachable_sound h
  obtain ⟨holds, retagged⟩ := retagged_of_tagItem sound tagged
  obtain ⟨content, held⟩ := holds_iff_contentOf.mp holds
  cases content with
  | unreadable => exact absurd held (readable item)
  | text content =>
    have shows : d.Shows ⟨item, content, d.tagsOn item⟩ :=
      ⟨(retagged.contentOf item).trans held, rfl⟩
    exact ⟨⟨item, content, d.tagsOn item⟩, rfl, retagged.established sound whole readable shows⟩

/-- The item has its own number among its tags now, so what was imposed does not find it. -/
theorem paired_establishes :
    Reachable paired ∧ paired.Whole ∧ (∀ i, paired.contentOf i ≠ some .unreadable) ∧
      ∃ d, paired.tagItem 2 (.ofList [⟨.includes, "02"⟩, ⟨.excludes, "foo"⟩]) = (true, d) ∧
        Established paired (.ofList [⟨.includes, "02"⟩, ⟨.excludes, "foo"⟩])
          ⟨2, "second", .ofList ["02", "bar"]⟩ d ∧
        d.getItems (.ofList [⟨.includes, "02"⟩, ⟨.excludes, "foo"⟩]) (some 2) = [] ∧
        (d.getItems (.ofList [⟨.excludes, "foo"⟩]) none).map (·.id) = [2] := by
  have readable : ∀ i, paired.contentOf i ≠ some .unreadable := by
    intro i unreadable
    have held := (contentOf_eq_some_iff (reachable_sound paired_reachable)).mp unreadable
    simp [paired, heldItems] at held
  have done : paired.tagItem 2 (.ofList [⟨.includes, "02"⟩, ⟨.excludes, "foo"⟩]) =
      (true, ⟨some ⟨4, [⟨1, "foo"⟩, ⟨2, "bar"⟩, ⟨4, "02"⟩]⟩,
        some ⟨2, [⟨1, .text "first"⟩, ⟨2, .text "second"⟩]⟩, some [⟨1, 1⟩, ⟨2, 2⟩, ⟨2, 4⟩]⟩) := by
    decide +kernel
  obtain ⟨shown, own, established⟩ :=
    tagItem_establishes paired_reachable ⟨rfl, rfl, rfl⟩ readable done
  have now : shown = ⟨2, "second", .ofList ["02", "bar"]⟩ := by
    apply Option.some.inj
    rw [← established.now, own]
    decide +kernel
  exact ⟨paired_reachable, ⟨rfl, rfl, rfl⟩, readable, _, done, now ▸ established, by decide +kernel,
    by decide +kernel⟩

end TaggedItems.Catalog
