import TaggedItems.Proofs.Catalog.Attempt
/-!
# When operations fail

Whether a statement is executed depends on the data: a name that was never kept needs no link
removed, a set that asks for nothing needs no tag, and an unreadable item without tags is not read
by a query without a target. `Blocked` says for each operation which tables and contents it needs,
and `refuses_exactly_when_blocked` that it fails for want of these and for nothing else, without
effect.
-/
namespace TaggedItems

/-- The operations that always have something to tell: what was kept, created, updated or not
found. -/
def Operation.Telling : Operation → Prop
  | .addTag _ | .addItem _ _ | .put _ _ => True
  | _ => False

namespace Catalog
variable {c d : Catalog}

/-- Some table is missing. -/
def Incomplete (c : Catalog) : Prop := c.tags = none ∨ c.items = none ∨ c.links = none

/-- A new item cannot be inserted and tagged. -/
def BlocksInsert (c : Catalog) (predicates : PredicateSet) : Prop :=
  c.items = none ∨
    (∃ p ∈ predicates.toList, p.sign = .includes) ∧ (c.tags = none ∨ c.links = none)

/-- An item cannot be retagged. The link table is needed for an included name, and for an excluded
one only if it is the name of a tag. -/
def BlocksRetag (c : Catalog) (item : Identity) (predicates : PredicateSet) : Prop :=
  c.items = none ∨
    c.Holds item ∧
      (predicates.toList ≠ [] ∧ c.tags = none ∨
        c.links = none ∧
          ((∃ p ∈ predicates.toList, p.sign = .includes) ∨
            ∃ p ∈ predicates.toList, p.sign = .excludes ∧ c.Kept p.name))

/-- Items cannot be fetched. -/
def BlocksFetch (c : Catalog) (target : Option Identity) : Prop := c.Incomplete ∨ c.Disturbs target

/-- What an operation needs and does not find. -/
def Blocked (c : Catalog) : Operation → Prop
  | .addTag _ => c.tags = none
  | .addItem _ predicates => c.BlocksInsert predicates
  | .tagItem item predicates => c.BlocksRetag item predicates
  | .updateContent _ _ => c.items = none
  | .getItem item => c.BlocksFetch (some item)
  | .getItems _ target => c.BlocksFetch target
  | .deleteItems query => c.BlocksFetch query.target
  | .put query _ =>
    match query.target with
    | some item => c.BlocksRetag item query.predicates
    | none => c.BlocksInsert query.predicates
  | .itemCount => c.items = none

theorem not_whole_iff : ¬ c.Whole ↔ c.Incomplete := by
  rw [whole_iff]
  unfold Incomplete
  tauto

theorem not_blocksInsert (whole : c.Whole) (predicates : PredicateSet) :
    ¬ c.BlocksInsert predicates := by
  obtain ⟨tags, items, links⟩ := whole_iff.mp whole
  simp [BlocksInsert, tags, items, links]

theorem not_blocksRetag (whole : c.Whole) (item : Identity) (predicates : PredicateSet) :
    ¬ c.BlocksRetag item predicates := by
  obtain ⟨tags, items, links⟩ := whole_iff.mp whole
  simp [BlocksRetag, tags, items, links]

/-- With all tables there only contents can be in the way. -/
theorem blocksFetch_iff (whole : c.Whole) {target : Option Identity} :
    c.BlocksFetch target ↔ c.Disturbs target :=
  or_iff_right fun incomplete => not_whole_iff.mpr incomplete whole

theorem not_blocksFetch (whole : c.Whole) (readable : ∀ i, c.contentOf i ≠ some .unreadable)
    (target : Option Identity) : ¬ c.BlocksFetch target := by
  rw [blocksFetch_iff whole]
  intro disturbed
  cases target with
  | some item => exact readable item disturbed
  | none =>
    obtain ⟨item, -, -, unreadable⟩ := disturbed
    exact readable item unreadable

theorem fails_retag_iff {item : Identity} {predicates : PredicateSet} :
    Fails (retag item predicates c) ↔ c.BlocksRetag item predicates := by
  have either : (∃ p ∈ predicates.toList, p.sign = .includes ∨ c.Kept p.name) ↔
      (∃ p ∈ predicates.toList, p.sign = .includes) ∨
        ∃ p ∈ predicates.toList, p.sign = .excludes ∧ c.Kept p.name := by
    constructor
    · rintro ⟨⟨sign, name⟩, there, included | kept⟩
      · exact .inl ⟨_, there, included⟩
      · cases sign with
        | includes => exact .inl ⟨_, there, rfl⟩
        | excludes => exact .inr ⟨_, there, rfl, kept⟩
    · rintro (⟨p, there, included⟩ | ⟨p, there, -, kept⟩)
      · exact ⟨p, there, .inl included⟩
      · exact ⟨p, there, .inr kept⟩
  rw [fails_retag, either]
  rfl

theorem fails_fetchMatching_iff (sound : c.Sound) {predicates : PredicateSet}
    {target : Option Identity} :
    Fails (c.fetchMatching predicates target) ↔ c.BlocksFetch target := by
  rw [fails_fetchMatching sound, not_whole_iff]
  rfl

/-- One case for each operation: its work fails for want of what it needs. -/
theorem fails_attempt (sound : c.Sound) (o : Operation) : Fails (c.attempt o) ↔ c.Blocked o := by
  cases o with
  | addTag name => rw [attempt, fails_map, fails_keepTag]; rfl
  | addItem content predicates => rw [attempt, fails_map, fails_insertTagged]; rfl
  | tagItem item predicates => rw [attempt, fails_map, fails_retag_iff]; rfl
  | updateContent item content => rw [attempt, fails_map, fails_replaceContent]; rfl
  | getItem item =>
    rw [attempt, fails_map, fails_fetchItem sound, not_whole_iff]
    rfl
  | getItems predicates target => rw [attempt, fails_map, fails_fetchMatching_iff sound]; rfl
  | deleteItems query =>
    rw [attempt, fails_map, deleteWork_eq sound, fails_map, fails_fetchMatching_iff sound]
    rfl
  | put query content =>
    rw [attempt, fails_map, fails_putWork]
    obtain ⟨predicates, _ | item⟩ := query
    · exact fails_insertTagged
    · exact fails_retag_iff
  | itemCount => rw [attempt, fails_map, fails_countItems]; rfl

/-- Where an operation always has something to tell, the refusal is not the answer of a work that
succeeded. -/
theorem attempt_ne_refusal {o : Operation} {answer : Answer} (sound : c.Sound)
    (h : c.attempt o = .ok (answer, d)) (telling : o.Telling) : answer ≠ o.refusal := by
  cases attempt_succeeds sound h with
  | addTag _ | addItem _ => simp [Operation.refusal]
  | put work =>
    rename_i query _ _
    obtain ⟨predicates, _ | item⟩ := query
    · obtain ⟨item, rfl, -⟩ := putWork_eq_ok_of_none sound work
      simp [Operation.refusal]
    · rcases putWork_eq_ok_of_target sound work with ⟨-, rfl, -⟩ | ⟨-, rfl, -⟩ <;>
        simp [Operation.refusal]
  | _ => exact telling.elim

/-- In whatever state the tables are, an operation does nothing and says so exactly when something
that it needs is missing. -/
theorem refuses_exactly_when_blocked (h : Reachable c) (o : Operation) :
    (c.Blocked o → Fails (c.attempt o) ∧ c.perform o = (o.refusal, c)) ∧
      (¬ c.Blocked o → c.attempt o = .ok (c.perform o)) ∧
      (o.Telling → ((c.perform o).1 = o.refusal ↔ c.Blocked o)) := by
  have sound := reachable_sound h
  have refuses (blocked : c.Blocked o) :
      Fails (c.attempt o) ∧ c.perform o = (o.refusal, c) := by
    obtain ⟨fault, failed⟩ := (fails_attempt sound o).mpr blocked
    exact ⟨⟨fault, failed⟩, by rw [perform_eq, failed]⟩
  have succeeds (free : ¬ c.Blocked o) : c.attempt o = .ok (c.perform o) := by
    obtain ⟨result, done⟩ := exists_ok_of_not_fails (mt (fails_attempt sound o).mp free)
    rw [perform_eq, done]
  refine ⟨refuses, succeeds, fun telling => ⟨fun refused => ?_, fun blocked => ?_⟩⟩
  · by_contra free
    exact attempt_ne_refusal sound (succeeds free) telling refused
  · rw [(refuses blocked).2]

/-- The links are gone while an item and the name of its tag are still there. -/
def torn : Catalog := ⟨some ⟨1, [⟨1, "foo"⟩]⟩, some ⟨1, [⟨1, .text "kept"⟩]⟩, none⟩

theorem torn_reachable : Reachable torn := by
  have life : torn = (initial.run
      [.operation (.addItem "kept" (.ofList [⟨.includes, "foo"⟩])), .damage .dropLinks]).2 := by
    decide +kernel
  exact life ▸ Reachable.initial.run _

/-- To take away a name that some tag has needs the links, and to take away any other does not. -/
theorem torn_refuses :
    Reachable torn ∧
      torn.perform (.tagItem 1 (.ofList [⟨.excludes, "foo"⟩])) = (.done false, torn) ∧
      torn.attempt (.tagItem 1 (.ofList [⟨.excludes, "bar"⟩])) = .ok (.done true, torn) := by
  refine ⟨torn_reachable, ?_, ?_⟩
  · refine ((refuses_exactly_when_blocked torn_reachable _).1 ?_).2
    refine .inr ⟨⟨_, List.mem_singleton_self _, rfl⟩, .inr ⟨rfl, .inr ?_⟩⟩
    exact ⟨_, List.mem_singleton_self _, rfl, _, List.mem_singleton_self _, rfl⟩
  · apply (refuses_exactly_when_blocked torn_reachable _).2.1
    rintro (none | ⟨-, ⟨-, none⟩ | ⟨-, ⟨p, there, asked⟩ | ⟨p, there, -, tag, held, is⟩⟩⟩)
    · cases none
    · cases none
    · obtain rfl := List.mem_singleton.mp there
      cases asked
    · obtain rfl := List.mem_singleton.mp there
      obtain rfl := List.mem_singleton.mp held
      exact absurd is (by decide)

end Catalog
end TaggedItems
