import TaggedItems.Proofs.Catalog.Deleting
import TaggedItems.Proofs.Catalog.Putting
import TaggedItems.Proofs.Catalog.Retagging
/-!
# Operations on different items

An operation that is given an item looks at that item alone, and leaves all others as they are seen
(`perform_confined`), although it may number tags that they come to share. So two of them that are
given different items may be done in either order: each answers the same, and the same is seen
afterwards (`operations_commute`).
-/
namespace TaggedItems

/-- The operations that are given one item, which may be there or not. -/
inductive Operation.Targets (item : Identity) : Operation → Prop
  | tagItem (predicates : PredicateSet) : Targets item (.tagItem item predicates)
  | updateContent (content : String) : Targets item (.updateContent item content)
  | put (predicates : PredicateSet) (content : String) :
      Targets item (.put ⟨predicates, some item⟩ content)
  | deleteItems (predicates : PredicateSet) : Targets item (.deleteItems ⟨predicates, some item⟩)

namespace Catalog
variable {c d : Catalog} {item i j : Identity} {α β : Type}

/-- All tables are there and keep their invariant. -/
structure Orderly (c : Catalog) : Prop where
  sound : c.Sound
  whole : c.Whole

/-! ## What is confined to one item -/

/-- What is done depends on what is seen of one item, and changes nothing that is seen of others. -/
structure Confined (item : Identity) (f : Catalog → α × Catalog) : Prop where
  orderly : ∀ {c}, c.Orderly → (f c).2.Orderly
  others : ∀ {c}, c.Orderly → ∀ other, other ≠ item → AlikeAt other (f c).2 c
  own : ∀ {c d}, c.Orderly → d.Orderly → AlikeAt item c d →
    (f c).1 = (f d).1 ∧ AlikeAt item (f c).2 (f d).2

namespace Confined
variable {f g : Catalog → α × Catalog}

theorem done (answer : α) : Confined item fun c => (answer, c) where
  orderly := id
  others := fun _ _ _ => .refl _ _
  own := fun _ _ alike => ⟨rfl, alike⟩

theorem bind {next : α → Catalog → β × Catalog} (first : Confined item f)
    (second : ∀ answer, Confined item (next answer)) :
    Confined item fun c => next (f c).1 (f c).2 where
  orderly := fun orderly => (second _).orderly (first.orderly orderly)
  others := fun orderly other differs =>
    ((second _).others (first.orderly orderly) other differs).trans
      (first.others orderly other differs)
  own := fun hc hd alike => by
    obtain ⟨answer, own⟩ := first.own hc hd alike
    rw [answer]
    exact (second _).own (first.orderly hc) (first.orderly hd) own

theorem map (confined : Confined item f) (tell : α → β) :
    Confined item fun c => (tell (f c).1, (f c).2) :=
  confined.bind fun answer => done (tell answer)

theorem congr (confined : Confined item f) (same : ∀ c, c.Orderly → g c = f c) :
    Confined item g where
  orderly := fun orderly => by
    rw [same _ orderly]
    exact confined.orderly orderly
  others := fun orderly => by
    rw [same _ orderly]
    exact confined.others orderly
  own := fun hc hd => by
    rw [same _ hc, same _ hd]
    exact confined.own hc hd

/-- What is seen of the item that the first one is given does not depend on the second. -/
theorem alikeAt_own {h : Catalog → β × Catalog} (hf : Confined i f) (hh : Confined j h)
    (differs : i ≠ j) (orderly : c.Orderly) : AlikeAt i (h (f c).2).2 (f (h c).2).2 :=
  (hh.others (hf.orderly orderly) i differs).trans
    (hf.own orderly (hh.orderly orderly) (hh.others orderly i differs).symm).2

/-- Either order shows the same of every item. -/
theorem seenAlike {h : Catalog → β × Catalog} (hf : Confined i f) (hh : Confined j h)
    (differs : i ≠ j) (orderly : c.Orderly) : SeenAlike (h (f c).2).2 (f (h c).2).2 := by
  apply SeenAlike.of_alikeAt
  intro k
  by_cases first : k = i
  · exact first ▸ hf.alikeAt_own hh differs orderly
  · by_cases second : k = j
    · exact second ▸ (hh.alikeAt_own hf differs.symm orderly).symm
    · have afterFirst := hh.others (hf.orderly orderly) k second
      have afterSecond := hf.others (hh.orderly orderly) k first
      exact (afterFirst.trans (hf.others orderly k first)).trans
        (afterSecond.trans (hh.others orderly k second)).symm

end Confined

/-! ## Each operation that is given an item is confined to it -/

theorem tagItem_of_absent (orderly : c.Orderly) (absent : ¬ c.Holds item)
    (predicates : PredicateSet) : c.tagItem item predicates = (false, c) :=
  tagItem_of_ok (retag_of_absent (whole_iff.mp orderly.whole).2.1 absent)

theorem tagItem_confined (item : Identity) (predicates : PredicateSet) :
    Confined item fun c => c.tagItem item predicates := by
  refine ⟨fun {c} orderly => ?_, fun {c} orderly other differs => ?_, fun {c d} hc hd alike => ?_⟩
  · by_cases holds : c.Holds item
    · obtain ⟨d, tagged, retagged⟩ := exists_retagged orderly.sound orderly.whole holds predicates
      rw [tagged]
      exact ⟨retagged.sound, retagged.whole orderly.whole⟩
    · rwa [tagItem_of_absent orderly holds]
  · by_cases holds : c.Holds item
    · obtain ⟨d, tagged, retagged⟩ := exists_retagged orderly.sound orderly.whole holds predicates
      rw [tagged]
      exact retagged.alikeAt_other differs
    · rw [tagItem_of_absent orderly holds]
      exact .refl other c
  · by_cases holds : c.Holds item
    · obtain ⟨_, tagged, one⟩ := exists_retagged hc.sound hc.whole holds predicates
      obtain ⟨_, otherTagged, other⟩ :=
        exists_retagged hd.sound hd.whole (alike.holds.mp holds) predicates
      rw [tagged, otherTagged]
      exact ⟨rfl, one.alikeAt_own other alike⟩
    · rw [tagItem_of_absent hc holds, tagItem_of_absent hd (mt alike.holds.mpr holds)]
      exact ⟨rfl, alike⟩

theorem updateContent_confined (item : Identity) (content : String) :
    Confined item fun c => c.updateContent item content := by
  have replaced : Confined item fun c =>
      (decide (c.Holds item), c.withContent item (.text content)) := by
    refine ⟨fun {c} orderly => ?_, fun {c} orderly other differs => ?_, fun {c d} hc hd alike => ?_⟩
    · exact ⟨orderly.sound.withContent item _, orderly.whole.withContent item _⟩
    · exact ⟨by rw [contentOf_withContent, if_neg differs], rfl⟩
    · refine ⟨decide_eq_decide.mpr alike.holds, ?_, alike.tags⟩
      rw [contentOf_withContent, contentOf_withContent, alike.content]
  exact replaced.congr fun c orderly =>
    updateContent_eq (whole_iff.mp orderly.whole).2.1 item content

/-- A query with a target removes that item or nothing. -/
theorem deleteItems_confined (item : Identity) (predicates : PredicateSet) :
    Confined item fun c => c.deleteItems ⟨predicates, some item⟩ := by
  have removed : Confined item fun c =>
      ((c.getItems predicates (some item)).map (·.id),
        c.withoutAll ((c.getItems predicates (some item)).map (·.id))) := by
    refine ⟨fun {c} orderly => ?_, fun {c} orderly other differs => ?_, fun {c d} hc hd alike => ?_⟩
    · exact ⟨withoutAll_sound orderly.sound _, withoutAll_whole orderly.whole _⟩
    · have kept : other ∉ (c.getItems predicates (some item)).map (·.id) := by
        intro gone
        obtain ⟨found, there, rfl⟩ := List.mem_map.mp gone
        exact differs (finds_of_mem_getItems orderly.sound there).2.2
      exact ⟨by rw [contentOf_withoutAll, if_neg kept], tagsOn_withoutAll kept⟩
    · have found : c.getItems predicates (some item) = d.getItems predicates (some item) :=
        getItems_target_congr hd.sound hc.sound hd.whole hc.whole fun shown same =>
          (same ▸ alike : AlikeAt shown.id c d).shows
      refine ⟨by rw [found], ?_, tagsOn_congr fun name => ?_⟩
      · rw [found, contentOf_withoutAll, contentOf_withoutAll, alike.content]
      · rw [found, carries_withoutAll, carries_withoutAll, alike.carries]
  exact removed.congr fun c orderly => deleteItems_eq orderly.sound _

/-- With all tables there, a put is a retagging, and then a replacement if there was an item. -/
theorem put_target_eq (orderly : c.Orderly) (item : Identity) (predicates : PredicateSet)
    (content : String) :
    c.put ⟨predicates, some item⟩ content =
      if (c.tagItem item predicates).1 then
        (.updated item, if content = "" then (c.tagItem item predicates).2
          else ((c.tagItem item predicates).2.updateContent item content).2)
      else (.missing item, (c.tagItem item predicates).2) := by
  have there := (whole_iff.mp orderly.whole).2.1
  obtain ⟨⟨found, d⟩, tag⟩ :=
    exists_ok_of_not_fails (mt fails_retag_iff.mp (not_blocksRetag orderly.whole item predicates))
  rw [tagItem_of_ok tag]
  cases found with
  | true =>
    rw [put_of_ok (putWork_of_retag tag), updateContent_of_holds (holds_of_retag tag)]
    rfl
  | false =>
    obtain ⟨-, other, -⟩ | ⟨absent, -, rfl⟩ := retag_cases tag
    · cases other
    · rw [put_of_misses ⟨rfl, there, absent⟩]
      rfl

theorem put_confined (item : Identity) (predicates : PredicateSet) (content : String) :
    Confined item fun c => c.put ⟨predicates, some item⟩ content := by
  have update (tagged : Bool) : Confined item fun c : Catalog =>
      if tagged then
        (Outcome.updated item, if content = "" then c else (c.updateContent item content).2)
      else (.missing item, c) := by
    cases tagged with
    | false => exact .done _
    | true =>
      by_cases empty : content = ""
      · simp only [empty, ↓reduceIte]
        exact .done _
      · simp only [empty, ↓reduceIte]
        exact (updateContent_confined item content).map fun _ => Outcome.updated item
  exact ((tagItem_confined item predicates).bind update).congr
    fun c orderly => put_target_eq orderly item predicates content

theorem perform_confined {o : Operation} (targets : o.Targets item) :
    Confined item fun c => c.perform o := by
  cases targets with
  | tagItem predicates => exact (tagItem_confined item predicates).map Answer.done
  | updateContent content => exact (updateContent_confined item content).map Answer.done
  | put predicates content => exact (put_confined item predicates content).map Answer.stored
  | deleteItems predicates => exact (deleteItems_confined item predicates).map Answer.deleted

/-- Two operations may be done in either order: each answers the same, and whatever is asked
afterwards is answered the same. -/
structure Commute (c : Catalog) (a b : Operation) : Prop where
  first : (c.perform a).1 = ((c.perform b).2.perform a).1
  second : (c.perform b).1 = ((c.perform a).2.perform b).1
  seen : SeenAlike ((c.perform a).2.perform b).2 ((c.perform b).2.perform a).2
  answers : SameAnswers ((c.perform a).2.perform b).2 ((c.perform b).2.perform a).2

/-- In whole tables, operations on different items commute, whether the items are there or not. -/
theorem operations_commute (h : Reachable c) (whole : c.Whole) (differs : i ≠ j) {a b : Operation}
    (ha : a.Targets i) (hb : b.Targets j) : Commute c a b := by
  have orderly : c.Orderly := ⟨reachable_sound h, whole⟩
  have first := perform_confined ha
  have second := perform_confined hb
  have after := second.orderly (first.orderly orderly)
  have afterSwapped := first.orderly (second.orderly orderly)
  have alike := first.seenAlike second differs orderly
  exact ⟨(first.own orderly (second.orderly orderly) (second.others orderly i differs).symm).1,
    (second.own orderly (first.orderly orderly) (first.others orderly j differs.symm).symm).1,
    alike, alike.answers after.sound afterSwapped.sound after.whole afterSwapped.whole⟩

/-- Of three names two are new. -/
def retagFirst : Operation :=
  .tagItem 1 (.ofList [⟨.excludes, "foo"⟩, ⟨.includes, "new"⟩, ⟨.includes, "odd"⟩])

def putSecond : Operation :=
  .put ⟨.ofList [⟨.includes, "even"⟩, ⟨.includes, "new"⟩], some 2⟩ "changed"

/-- Both items get one of the new tags, and the order decides which numbers the new tags have. -/
theorem paired_commutes :
    Reachable paired ∧ paired.Whole ∧ (1 : Identity) ≠ 2 ∧ retagFirst.Targets 1 ∧
      putSecond.Targets 2 ∧ Commute paired retagFirst putSecond ∧
      (paired.run [.operation retagFirst, .operation putSecond]).2.tags ≠
        (paired.run [.operation putSecond, .operation retagFirst]).2.tags := by
  have first : retagFirst.Targets 1 := .tagItem _
  have second : putSecond.Targets 2 := .put _ _
  exact ⟨paired_reachable, ⟨rfl, rfl, rfl⟩, by decide, first, second,
    operations_commute paired_reachable ⟨rfl, rfl, rfl⟩ (by decide) first second, by decide +kernel⟩

end Catalog
end TaggedItems
