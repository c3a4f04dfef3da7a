import TaggedItems.Proofs.Catalog.Attempt
import TaggedItems.Proofs.Catalog.Log
/-!
# Keeping tags

An operation does nothing to the tag table but keep the names that its entry in the log tells
(`tags_perform`). No tag goes and none changes its number or its name, which is what links and
numbers given out rely on (`tables_stay_sound`).
-/
namespace TaggedItems

namespace Table

/-- The table after one more use of a name. The counter advances in any case, and a name without a
tag gets one of the number that it has come to. -/
def keep (table : Table Tag) (name : String) : Table Tag :=
  ⟨table.counter + 1,
    if name ∈ table.rows.map Tag.name then table.rows
    else table.rows ++ [⟨table.counter + 1, name⟩]⟩

/-- The table after several uses. -/
def keepAll (table : Table Tag) (names : List String) : Table Tag := names.foldl keep table

theorem map_keepAll_nil (tags : Option (Table Tag)) : tags.map (·.keepAll []) = tags :=
  Option.map_id'

theorem keepAll_append (table : Table Tag) (names others : List String) :
    table.keepAll (names ++ others) = (table.keepAll names).keepAll others :=
  List.foldl_append

theorem mem_keep {table : Table Tag} {name : String} {tag : Tag} :
    tag ∈ (table.keep name).rows ↔
      tag ∈ table.rows ∨ name ∉ table.rows.map Tag.name ∧ tag = ⟨table.counter + 1, name⟩ := by
  unfold keep
  split
  · rename_i old
    simp only [old, not_true_eq_false, false_and, or_false]
  · rename_i new
    simp only [new, not_false_eq_true, true_and, List.mem_append, List.mem_singleton]

theorem rows_prefix_keep (table : Table Tag) (name : String) :
    table.rows <+: (table.keep name).rows := by
  unfold keep
  split
  · exact List.prefix_refl _
  · exact List.prefix_append _ _

theorem rows_prefix_keepAll (table : Table Tag) (names : List String) :
    table.rows <+: (table.keepAll names).rows := by
  induction names generalizing table with
  | nil => exact List.prefix_refl _
  | cons name rest ih => exact (rows_prefix_keep table name).trans (ih (table.keep name))

end Table

namespace Catalog
variable {c d : Catalog} {item : Identity} {predicates : PredicateSet}

/-! ## Statements and loops -/

theorem tags_keepTag {name : String} {tag : Tag} (h : c.keepTag name = .ok (tag, d)) :
    d.tags = c.tags.map (·.keep name) := by
  obtain ⟨there, ⟨held, rfl, rfl⟩ | ⟨fresh, rfl, rfl⟩⟩ := keepTag_eq_ok h
  · have old : tag.name ∈ c.heldTags.rows.map Tag.name := List.mem_map_of_mem held
    rw [there, Option.map_some, Table.keep, if_pos old]
  · have new : name ∉ c.heldTags.rows.map Tag.name := by simpa using fresh
    rw [there, Option.map_some, Table.keep, if_neg new]

theorem tags_attach {name : String} (h : attach item c name = .ok d) :
    d.tags = c.tags.map (·.keep name) := by
  obtain ⟨⟨tag, kept⟩, keep, associated⟩ := bind_eq_ok.mp h
  change kept.associate item tag.id = .ok d at associated
  rw [(associate_frame associated).1, tags_keepTag keep]

theorem tags_detach {name : String} (h : detach item c name = .ok d) : d.tags = c.tags := by
  obtain ⟨found, -, done⟩ := bind_eq_ok.mp h
  split at done
  · exact (dissociate_frame done).1
  · obtain rfl : c = d := by simpa [pure, Except.pure] using done
    rfl

/-- The included names are kept in the order in which they come, and the excluded ones are not. -/
theorem tags_foldlM_impose {ps : List Predicate} (h : ps.foldlM (impose item) c = .ok d) :
    d.tags = c.tags.map (·.keepAll ((ps.filter (·.sign = .includes)).map (·.name))) := by
  induction ps generalizing c with
  | nil =>
    obtain rfl : c = d := by simpa [pure, Except.pure] using h
    exact (Table.map_keepAll_nil c.tags).symm
  | cons p rest ih =>
    rw [List.foldlM_cons] at h
    obtain ⟨next, step, h⟩ := bind_eq_ok.mp h
    rw [ih h]
    obtain ⟨sign, name⟩ := p
    cases sign with
    | includes =>
      rw [tags_attach step, Option.map_map]
      rfl
    | excludes =>
      rw [tags_detach step]
      rfl

/-! ## Works -/

theorem tags_insertTagged {content : String}
    (h : insertTagged content predicates c = .ok (item, d)) :
    d.tags = c.tags.map (·.keepAll predicates.includedNames) := by
  obtain ⟨⟨_, inserted⟩, insert, h⟩ := bind_eq_ok.mp h
  obtain ⟨tagged, tag, h⟩ := bind_eq_ok.mp h
  cases h
  rw [foldlM_attach] at tag
  have names : ((predicates.includedNames.map (Predicate.mk .includes)).filter
      (·.sign = .includes)).map (·.name) = predicates.includedNames := by
    simp [List.filter_map, Function.comp_def]
  have kept := tags_foldlM_impose tag
  obtain ⟨-, -, rfl⟩ := insertItem_eq_ok insert
  rwa [names] at kept

theorem tags_retag {found : Bool} (h : retag item predicates c = .ok (found, d)) :
    d.tags = c.tags.map (·.keepAll (if found then predicates.includedNames else [])) := by
  obtain ⟨-, rfl, imposed⟩ | ⟨-, rfl, rfl⟩ := retag_cases h
  · exact tags_foldlM_impose imposed
  · exact (Table.map_keepAll_nil _).symm

theorem tags_putWork {query : Query} {content : String} {outcome : Outcome}
    (h : putWork query content c = .ok (outcome, d)) :
    d.tags = c.tags.map
      (·.keepAll (namesKept (.operation (.put query content), some (.stored outcome)))) := by
  obtain ⟨predicates, _ | item⟩ := query
  · obtain ⟨⟨item, tagged⟩, insert, h⟩ := bind_eq_ok.mp h
    cases h
    exact tags_insertTagged insert
  · obtain ⟨found, tagged, tag, ⟨rfl, rfl, rfl⟩ | ⟨rfl, rfl, rfl⟩⟩ := putWork_target_cases h
    · have kept := tags_retag tag
      split
      · exact kept
      · exact kept
    · exact tags_retag tag

theorem tags_withoutAll (c : Catalog) (items : List Identity) :
    (c.withoutAll items).tags = c.tags := by
  induction items generalizing c with
  | nil => rfl
  | cons item rest ih => exact ih (c.without item)

/-! ## Operations -/

/-- One case for each operation: an operation that succeeds keeps the names that it tells. -/
theorem tags_attempt {o : Operation} {answer : Answer} (sound : c.Sound)
    (h : c.attempt o = .ok (answer, d)) :
    d.tags = c.tags.map (·.keepAll (namesKept (.operation o, some answer))) := by
  have unchanged : c.tags = c.tags.map (·.keepAll []) := (Table.map_keepAll_nil c.tags).symm
  cases attempt_succeeds sound h with
  | addTag work => exact tags_keepTag work
  | addItem work => exact tags_insertTagged work
  | tagItem work =>
    rename_i found
    rw [tags_retag work]
    cases found <;> rfl
  | updateContent work =>
    obtain ⟨-, -, rfl⟩ := replaceContent_eq_ok work
    exact unchanged
  | deleteItems work => exact (tags_withoutAll c _).trans unchanged
  | put work => exact tags_putWork work
  | getItem _ | getItems _ | itemCount _ => exact unchanged

theorem namesKept_refusal (o : Operation) : namesKept (.operation o, some o.refusal) = [] := by
  cases o <;> rfl

/-- An operation keeps the names that it tells, and does nothing else to the tag table. -/
theorem tags_perform (sound : c.Sound) (o : Operation) :
    (c.perform o).2.tags =
      c.tags.map (·.keepAll (namesKept (.operation o, some (c.perform o).1))) := by
  rw [perform_eq]
  split
  · rename_i result work
    exact tags_attempt sound work
  · rw [namesKept_refusal]
    exact (Table.map_keepAll_nil c.tags).symm

/-- Whatever has become of a fresh catalog, names, numbers and links are in order, as far as the
tables are there. No operation takes a tag away or changes its number or its name. -/
theorem tables_stay_sound (h : Reachable c) :
    c.Sound ∧ ∀ o table, c.tags = some table →
      ∃ later, (c.perform o).2.tags = some later ∧ table.rows <+: later.rows := by
  have sound := reachable_sound h
  refine ⟨sound, fun o table there => ?_⟩
  have kept := tags_perform sound o
  rw [there, Option.map_some] at kept
  exact ⟨_, kept, Table.rows_prefix_keepAll table _⟩

/-- An item and its table are gone and its tag is still there. Numbers of items start again. -/
def restarted : Catalog :=
  ⟨some ⟨3, [⟨1, "foo"⟩, ⟨2, "bar"⟩]⟩, some ⟨1, [⟨1, .text "new"⟩]⟩, some [⟨1, 2⟩, ⟨1, 1⟩]⟩

theorem restarted_sound :
    Reachable restarted ∧ restarted.Sound ∧ ∀ o, ∃ later,
      (restarted.perform o).2.tags = some later ∧ [⟨1, "foo"⟩, ⟨2, "bar"⟩] <+: later.rows := by
  have life : restarted = (initial.run
      [.operation (.addItem "old" (.ofList [⟨.includes, "foo"⟩])), .damage .dropItems, .reopen,
        .operation (.addItem "new" (.ofList [⟨.includes, "foo"⟩, ⟨.includes, "bar"⟩]))]).2 := by
    decide +kernel
  have reachable : Reachable restarted := life ▸ Reachable.initial.run _
  obtain ⟨sound, stay⟩ := tables_stay_sound reachable
  exact ⟨reachable, sound, fun o => stay o _ rfl⟩

end Catalog
end TaggedItems
