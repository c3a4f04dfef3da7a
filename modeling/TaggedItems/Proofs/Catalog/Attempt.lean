import TaggedItems.Proofs.Catalog.Works
/-!
# Attempts

An operation attempts its work, and where that fails it refuses: it gives the answer that says that
nothing was done, and nothing was (`perform_eq`). Where it succeeds, `Succeeds` tells what was done,
one case for each operation. From this every catalog that a fresh one can become is sound
(`reachable_sound`).
-/
namespace TaggedItems

/-- What an operation answers when its work fails. -/
def Operation.refusal : Operation → Answer
  | .addTag _ | .addItem _ _ => .identity none
  | .tagItem _ _ | .updateContent _ _ => .done false
  | .getItem _ => .item none
  | .getItems _ _ => .items []
  | .deleteItems _ => .deleted []
  | .put _ _ => .stored .failed
  | .itemCount => .count 0

namespace Catalog
variable {c d : Catalog}

/-- The work of an operation, which may fail at any of its steps. -/
def attempt (c : Catalog) : Operation → Except Fault (Answer × Catalog)
  | .addTag name => (c.keepTag name).map fun (tag, d) => (.identity (some tag.id), d)
  | .addItem content predicates =>
    (insertTagged content predicates c).map fun (item, d) => (.identity (some item), d)
  | .tagItem item predicates => (retag item predicates c).map fun (found, d) => (.done found, d)
  | .updateContent item content =>
    (c.replaceContent item content).map fun (found, d) => (.done found, d)
  | .getItem item => (c.fetchItem item).map fun found => (.item found, c)
  | .getItems predicates target =>
    (c.fetchMatching predicates target).map fun found => (.items found, c)
  | .deleteItems query => (deleteWork query c).map fun (removed, d) => (.deleted removed, d)
  | .put query content => (putWork query content c).map fun (outcome, d) => (.stored outcome, d)
  | .itemCount => c.countItems.map fun items => (.count items, c)

/-- An operation does its work as a whole, or refuses and leaves everything as it was. -/
theorem perform_eq (o : Operation) :
    c.perform o = match c.attempt o with
      | .ok result => result
      | .error _ => (o.refusal, c) := by
  cases o with
  | addTag name =>
    cases h : c.keepTag name <;>
      simp [perform, addTag, transact, attempt, h, Prod.map, Except.map, Operation.refusal]
  | addItem content predicates =>
    cases h : insertTagged content predicates c <;>
      simp [perform, addItem, transact, attempt, h, Prod.map, Except.map, Operation.refusal]
  | tagItem item predicates =>
    cases h : retag item predicates c <;>
      simp [perform, tagItem, transact, attempt, h, Prod.map, Except.map, Operation.refusal]
  | updateContent item content =>
    cases h : c.replaceContent item content <;>
      simp [perform, updateContent, transact, attempt, h, Prod.map, Except.map, Operation.refusal]
  | getItem item =>
    cases h : c.fetchItem item <;>
      simp [perform, getItem, attempt, h, Except.map, Except.toOption, Operation.refusal]
  | getItems predicates target =>
    cases h : c.fetchMatching predicates target <;>
      simp [perform, getItems, attempt, h, Except.map, Except.toOption, Operation.refusal]
  | deleteItems query =>
    have work : c.deleteItems query =
        ((c.transact (deleteWork query)).1.getD [], (c.transact (deleteWork query)).2) := rfl
    cases h : deleteWork query c <;>
      simp [perform, work, transact, attempt, h, Prod.map, Except.map, Operation.refusal]
  | put query content =>
    cases h : putWork query content c <;>
      simp [perform, put, transact, attempt, h, Prod.map, Except.map, Operation.refusal]
  | itemCount =>
    cases h : c.countItems <;>
      simp [perform, itemCount, attempt, h, Except.map, Except.toOption, Operation.refusal]

theorem tagItem_of_ok {item : Identity} {predicates : PredicateSet} {found : Bool}
    (h : retag item predicates c = .ok (found, d)) : c.tagItem item predicates = (found, d) := by
  rw [tagItem, transact_of_ok h]
  rfl

theorem tagItem_of_fails {item : Identity} {predicates : PredicateSet}
    (h : Fails (retag item predicates c)) : c.tagItem item predicates = (false, c) := by
  obtain ⟨fault, failed⟩ := h
  rw [tagItem, transact_of_error failed]
  rfl

/-- Where there is no such item, no row has its content replaced. -/
theorem updateContent_eq (there : c.items ≠ none) (item : Identity) (content : String) :
    c.updateContent item content =
      (decide (c.Holds item), c.withContent item (.text content)) := by
  have works : ¬ Fails (c.replaceContent item content) := mt fails_replaceContent.mp there
  obtain ⟨⟨answer, replaced⟩, work⟩ := exists_ok_of_not_fails works
  obtain ⟨-, answered, rfl⟩ := replaceContent_eq_ok work
  have told : answer = decide (c.Holds item) := by simp [← answered]
  rw [updateContent, transact_of_ok work, told]
  rfl

theorem updateContent_of_holds {item : Identity} (holds : c.Holds item) (content : String) :
    c.updateContent item content = (true, c.withContent item (.text content)) := by
  rw [updateContent_eq holds.there, decide_eq_true holds]

/-- What an operation does that succeeds: one constructor for each operation. -/
inductive Succeeds (c : Catalog) : Operation → Answer → Catalog → Prop
  | addTag {name : String} {tag : Tag} {d : Catalog} (work : c.keepTag name = .ok (tag, d)) :
      Succeeds c (.addTag name) (.identity (some tag.id)) d
  | addItem {content : String} {predicates : PredicateSet} {item : Identity} {d : Catalog}
      (work : insertTagged content predicates c = .ok (item, d)) :
      Succeeds c (.addItem content predicates) (.identity (some item)) d
  | tagItem {item : Identity} {predicates : PredicateSet} {found : Bool} {d : Catalog}
      (work : retag item predicates c = .ok (found, d)) :
      Succeeds c (.tagItem item predicates) (.done found) d
  | updateContent {item : Identity} {content : String} {found : Bool} {d : Catalog}
      (work : c.replaceContent item content = .ok (found, d)) :
      Succeeds c (.updateContent item content) (.done found) d
  | getItem {item : Identity} {found : Option Item} (work : c.fetchItem item = .ok found) :
      Succeeds c (.getItem item) (.item found) c
  | getItems {predicates : PredicateSet} {target : Option Identity} {found : List Item}
      (work : c.fetchMatching predicates target = .ok found) :
      Succeeds c (.getItems predicates target) (.items found) c
  | deleteItems {query : Query} {found : List Item}
      (work : c.fetchMatching query.predicates query.target = .ok found) :
      Succeeds c (.deleteItems query) (.deleted (found.map (·.id)))
        (c.withoutAll (found.map (·.id)))
  | put {query : Query} {content : String} {outcome : Outcome} {d : Catalog}
      (work : putWork query content c = .ok (outcome, d)) :
      Succeeds c (.put query content) (.stored outcome) d
  | itemCount {items : Nat} (work : c.countItems = .ok items) :
      Succeeds c .itemCount (.count items) c

theorem attempt_succeeds {o : Operation} {answer : Answer} (sound : c.Sound)
    (h : c.attempt o = .ok (answer, d)) : c.Succeeds o answer d := by
  cases o with
  | deleteItems query =>
    obtain ⟨_, work, same⟩ := map_eq_ok.mp h
    cases same
    rw [deleteWork_eq sound] at work
    obtain ⟨found, fetch, same⟩ := map_eq_ok.mp work
    cases same
    exact .deleteItems fetch
  | _ =>
    obtain ⟨_, work, same⟩ := map_eq_ok.mp h
    cases same
    constructor
    exact work

theorem attempt_sound {o : Operation} {answer : Answer} (sound : c.Sound)
    (h : c.attempt o = .ok (answer, d)) : d.Sound := by
  cases attempt_succeeds sound h with
  | addTag work => exact keepTag_sound sound work
  | addItem work => exact (insertTagged_eq_ok sound work).sound
  | tagItem work =>
    rcases retag_eq_ok sound work with ⟨-, -, retagged⟩ | ⟨-, -, unchanged⟩
    · exact retagged.sound
    · exact unchanged ▸ sound
  | updateContent work =>
    obtain ⟨-, -, replaced⟩ := replaceContent_eq_ok work
    exact replaced ▸ sound.withContent _ _
  | deleteItems work => exact withoutAll_sound sound _
  | put work => exact putWork_sound sound work
  | getItem _ | getItems _ | itemCount _ => exact sound

theorem perform_sound (sound : c.Sound) (o : Operation) : (c.perform o).2.Sound := by
  rw [perform_eq]
  split
  · rename_i result work
    exact attempt_sound sound work
  · exact sound

/-- A table that goes takes with it all that refers to it. -/
theorem damage_sound (sound : c.Sound) (damage : Damage) : (c.damage damage).Sound := by
  obtain ⟨tags, names, items, links, refer⟩ := sound
  have none : ∀ link ∈ ([] : List Link), False := fun _ => List.not_mem_nil
  cases damage with
  | dropLinks => exact ⟨tags, names, items, .nil, fun link linked => (none link linked).elim⟩
  | dropTags => exact ⟨.empty, .nil, items, .nil, fun link linked => (none link linked).elim⟩
  | dropItems => exact ⟨tags, names, .empty, .nil, fun link linked => (none link linked).elim⟩
  | dropAll => exact ⟨.empty, .nil, .empty, .nil, fun link linked => (none link linked).elim⟩
  | spoil item => exact Sound.withContent ⟨tags, names, items, links, refer⟩ item .unreadable

theorem step_sound (sound : c.Sound) (event : Event) : (c.step event).2.Sound := by
  cases event with
  | operation o => exact perform_sound sound o
  | reopen => exact ⟨sound.tags, sound.names, sound.items, sound.links, sound.refer⟩
  | damage d => exact damage_sound sound d

theorem reachable_sound (h : Reachable c) : c.Sound := by
  induction h with
  | initial => exact initial_sound
  | step event _ ih => exact step_sound ih event

/-- What comes of a reachable catalog by a run is reachable. -/
theorem Reachable.run (h : Reachable c) (events : List Event) : Reachable (c.run events).2 := by
  induction events generalizing c with
  | nil => exact h
  | cons event later ih => exact ih (h.step event)

end Catalog
end TaggedItems
