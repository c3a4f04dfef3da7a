import TaggedItems.Proofs.Catalog.Tagging
/-!
# The work behind each operation

What a work that succeeds does to the items that users see (`insertTagged_eq_ok`, `retag_eq_ok`,
`removeAll_eq_ok`), and exactly when it fails (`fails_insertTagged`, `fails_retag`,
`fails_putWork`).
-/
namespace TaggedItems.Catalog
variable {c d : Catalog} {item : Identity} {content : String} {predicates : PredicateSet}

/-! ## Creating an item -/

/-- `d` is `c` with one more item. -/
structure Inserted (item : Identity) (content : String) (predicates : PredicateSet)
    (c d : Catalog) : Prop where
  next : item = c.heldItems.counter + 1
  items : d.heldItems = ⟨item, c.heldItems.rows ++ [⟨item, .text content⟩]⟩
  sound : d.Sound
  whole : c.Whole → d.Whole
  contents : ∀ i, d.contentOf i = if i = item then some (.text content) else c.contentOf i
  own : ∀ name, d.Carries item name ↔ name ∈ predicates.includedNames
  others : ∀ other, other ≠ item → ∀ name, d.Carries other name ↔ c.Carries other name

theorem not_holds_next (sound : c.Sound) : ¬ c.Holds (c.heldItems.counter + 1) := by
  rintro ⟨record, held, is⟩
  exact sound.items.ne_next held is

theorem insertTagged_eq_ok (sound : c.Sound)
    (h : insertTagged content predicates c = .ok (item, d)) :
    Inserted item content predicates c d := by
  obtain ⟨⟨_, inserted⟩, insert, h⟩ := bind_eq_ok.mp h
  obtain ⟨tagged, tag, h⟩ := bind_eq_ok.mp h
  cases h
  rw [foldlM_attach] at tag
  have insertedSound := insertItem_sound sound insert
  have contents (i : Identity) :
      inserted.contentOf i = if i = item then some (.text content) else c.contentOf i :=
    contentOf_insertItem sound insert
  have carries (i : Identity) (name : String) : inserted.Carries i name ↔ c.Carries i name :=
    carries_insertItem insert
  have insertedWhole (whole : c.Whole) : inserted.Whole := insertItem_whole whole insert
  obtain ⟨-, next, rfl⟩ := insertItem_eq_ok insert
  have names : (predicates.includedNames.map (Predicate.mk .includes)).map Predicate.name =
      predicates.includedNames := by simp [Function.comp_def]
  have distinct : predicates.includedNames.Nodup :=
    predicates.nodup_names.sublist (List.filter_sublist.map _)
  have retagged := retagged_foldlM (names.symm ▸ distinct) insertedSound
    (holds_iff_contentOf.mpr ⟨_, (contents item).trans (if_pos rfl)⟩) tag
  have own (name : String) : d.Carries item name ↔ name ∈ predicates.includedNames := by
    -- The number is new, so no link refers to it yet.
    have new : ¬ c.Carries item name := fun old => not_holds_next sound (next ▸ old.holds sound)
    rw [retagged.own, carries]
    simp [new]
  have others (other : Identity) (differs : other ≠ item) (name : String) :
      d.Carries other name ↔ c.Carries other name := by
    rw [retagged.others other differs, carries]
  exact ⟨next, retagged.heldItems, retagged.sound, retagged.whole ∘ insertedWhole,
    fun i => (retagged.contentOf i).trans (contents i), own, others⟩

theorem includedNames_ne_nil_iff :
    predicates.includedNames ≠ [] ↔ ∃ p ∈ predicates.toList, p.sign = .includes := by
  simp [PredicateSet.includedNames, PredicateSet.includes]

theorem fails_insertTagged :
    Fails (insertTagged content predicates c) ↔
      c.items = none ∨
        (∃ p ∈ predicates.toList, p.sign = .includes) ∧ (c.tags = none ∨ c.links = none) := by
  by_cases missing : c.items = none
  · have failed : Fails (insertTagged content predicates c) :=
      fails_bind.mpr (.inl (fails_insertItem.mpr missing))
    exact iff_of_true failed (.inl missing)
  · obtain ⟨⟨item, inserted⟩, insert⟩ := exists_ok_of_not_fails (mt fails_insertItem.mp missing)
    rw [insertTagged, fails_bind_of_ok insert, or_iff_right missing]
    obtain ⟨-, -, rfl⟩ := insertItem_eq_ok insert
    simp only [fails_bind, fails_foldlM_attach, includedNames_ne_nil_iff, pure, Except.pure,
      not_fails_ok, and_false, exists_false, or_false]

/-! ## Retagging an item -/

theorem retag_cases {found : Bool} (h : retag item predicates c = .ok (found, d)) :
    c.Holds item ∧ found = true ∧ predicates.toList.foldlM (impose item) c = .ok d ∨
      ¬ c.Holds item ∧ found = false ∧ d = c := by
  obtain ⟨answer, look, h⟩ := bind_eq_ok.mp h
  obtain ⟨-, answer_iff⟩ := itemExists_eq_ok look
  split at h
  · rename_i there
    obtain ⟨changed, impose, h⟩ := bind_eq_ok.mp h
    cases h
    exact .inl ⟨answer_iff.mp there, rfl, impose⟩
  · rename_i absent
    cases h
    exact .inr ⟨fun holds => absent (answer_iff.mpr holds), rfl, rfl⟩

theorem items_retag {found : Bool} (h : retag item predicates c = .ok (found, d)) :
    d.items = c.items := by
  rcases retag_cases h with ⟨-, -, imposed⟩ | ⟨-, -, rfl⟩
  · exact items_foldlM_impose imposed
  · rfl

theorem retag_eq_ok {found : Bool} (sound : c.Sound)
    (h : retag item predicates c = .ok (found, d)) :
    c.Holds item ∧ found = true ∧ Retagged item predicates.toList c d ∨
      ¬ c.Holds item ∧ found = false ∧ d = c := by
  rcases retag_cases h with ⟨holds, rfl, imposed⟩ | absent
  · exact .inl ⟨holds, rfl, retagged_foldlM predicates.nodup_names sound holds imposed⟩
  · exact .inr absent

theorem fails_retag :
    Fails (retag item predicates c) ↔
      c.items = none ∨ c.Holds item ∧
        (predicates.toList ≠ [] ∧ c.tags = none ∨
          c.links = none ∧ ∃ p ∈ predicates.toList, p.sign = .includes ∨ c.Kept p.name) := by
  by_cases missing : c.items = none
  · have failed : Fails (retag item predicates c) :=
      fails_bind.mpr (.inl (fails_itemExists.mpr missing))
    exact iff_of_true failed (.inl missing)
  · obtain ⟨answer, look⟩ := exists_ok_of_not_fails (mt fails_itemExists.mp missing)
    obtain ⟨-, answer_iff⟩ := itemExists_eq_ok look
    rw [retag, fails_bind_of_ok look, or_iff_right missing, ← answer_iff]
    cases answer with
    | false => simp [pure, Except.pure]
    | true => simp [fails_bind, fails_foldlM_impose, pure, Except.pure]

/-! ## Removing items -/

/-- The catalog without some items and their links. -/
def withoutAll (c : Catalog) (items : List Identity) : Catalog := items.foldl without c

theorem withoutAll_sound (sound : c.Sound) (items : List Identity) : (c.withoutAll items).Sound :=
  List.foldlRecOn items _ sound fun _ sound item _ => sound.without item

theorem withoutAll_whole (whole : c.Whole) (items : List Identity) :
    (c.withoutAll items).Whole := by
  apply List.foldlRecOn items _ whole
  intro c whole item _
  rw [whole_iff] at whole ⊢
  simpa [without] using whole

theorem withoutAll_counter (c : Catalog) (items : List Identity) :
    (c.withoutAll items).heldItems.counter = c.heldItems.counter := by
  induction items generalizing c with
  | nil => rfl
  | cons item rest ih => exact (ih (c.without item)).trans (by simp)

theorem contentOf_withoutAll (c : Catalog) (items : List Identity) (i : Identity) :
    (c.withoutAll items).contentOf i = if i ∈ items then none else c.contentOf i := by
  induction items generalizing c with
  | nil => rfl
  | cons item rest ih =>
    apply (ih (c.without item)).trans
    rw [contentOf_without]
    by_cases later : i ∈ rest <;> by_cases first : i = item <;> simp [later, first]

theorem carries_withoutAll (c : Catalog) (items : List Identity) (i : Identity) (name : String) :
    (c.withoutAll items).Carries i name ↔ c.Carries i name ∧ i ∉ items := by
  induction items generalizing c with
  | nil => simp [withoutAll]
  | cons item rest ih =>
    apply (ih (c.without item)).trans
    rw [carries_without, List.mem_cons]
    grind

/-- Items that are there are all removed. -/
theorem removeAll_eq_ok {items : List Identity} (there : c.items ≠ none) (distinct : items.Nodup)
    (holds : ∀ item ∈ items, c.Holds item) :
    removeAll items c = .ok (items, c.withoutAll items) := by
  induction items generalizing c with
  | nil => rfl
  | cons item rest ih =>
    obtain ⟨once, distinct⟩ := List.nodup_cons.mp distinct
    have removed : c.removeItem item = .ok (true, c.without item) := by
      obtain ⟨⟨answer, changed⟩, done⟩ := exists_ok_of_not_fails (mt fails_removeItem.mp there)
      obtain ⟨-, ⟨-, rfl, rfl⟩ | ⟨absent, -, -⟩⟩ := removeItem_eq_ok done
      · exact done
      · exact absurd (holds item List.mem_cons_self) absent
    have restHolds : ∀ other ∈ rest, (c.without item).Holds other := by
      intro other later
      have differs : other ≠ item := fun same => once (same ▸ later)
      rw [holds_iff_contentOf, contentOf_without, if_neg differs, ← holds_iff_contentOf]
      exact holds other (List.mem_cons_of_mem _ later)
    have rest := ih (by simpa [without] using there) distinct restHolds
    simp only [removeAll, removed, bind, Except.bind, rest, pure, Except.pure]
    rfl

/-! ## Putting -/

theorem fails_putWork {query : Query} :
    Fails (putWork query content c) ↔
      match query.target with
      | some item => Fails (retag item query.predicates c)
      | none => Fails (insertTagged content query.predicates c) := by
  obtain ⟨predicates, target⟩ := query
  cases target with
  | none => simp [putWork, fails_bind, pure, Except.pure]
  | some item =>
    simp only [putWork, fails_bind, or_iff_left_iff_imp, forall_exists_index, and_imp, Prod.forall]
    intro found tagged ok failed
    -- Once the item was retagged its table is there, so its content can be replaced.
    have there : c.items ≠ none := by
      intro missing
      exact not_fails_ok _ (ok ▸ fails_retag.mpr (.inl missing))
    split at failed
    · exact absurd failed (not_fails_ok _)
    · split at failed
      · exact absurd failed (not_fails_ok _)
      · rcases fails_bind.mp failed with missing | ⟨_, -, failed⟩
        · exact absurd (items_retag ok ▸ fails_replaceContent.mp missing) there
        · exact absurd failed (not_fails_ok _)

/-- Putting to a target retags it and then replaces its content, unless there is nothing to replace
it by. -/
theorem putWork_target_cases {outcome : Outcome}
    (h : putWork ⟨predicates, some item⟩ content c = .ok (outcome, d)) :
    ∃ found tagged, retag item predicates c = .ok (found, tagged) ∧
      (found = true ∧ outcome = .updated item ∧
          d = (if content.isEmpty then tagged else tagged.withContent item (.text content)) ∨
        found = false ∧ outcome = .missing item ∧ d = tagged) := by
  obtain ⟨⟨found, tagged⟩, tag, done⟩ := bind_eq_ok.mp h
  refine ⟨found, tagged, tag, ?_⟩
  cases found with
  | false =>
    cases done
    exact .inr ⟨rfl, rfl, rfl⟩
  | true =>
    simp only [Bool.not_true, Bool.false_eq_true, ↓reduceIte] at done
    refine .inl ⟨rfl, ?_⟩
    split at done
    · rename_i empty
      cases done
      exact ⟨rfl, by rw [if_pos empty]⟩
    · rename_i some
      obtain ⟨⟨_, replaced⟩, replace, done⟩ := bind_eq_ok.mp done
      cases done
      obtain ⟨-, -, rfl⟩ := replaceContent_eq_ok replace
      exact ⟨rfl, by rw [if_neg some]⟩

theorem putWork_eq_ok_of_target {outcome : Outcome} (sound : c.Sound)
    (h : putWork ⟨predicates, some item⟩ content c = .ok (outcome, d)) :
    c.Holds item ∧ outcome = .updated item ∧
        (∃ tagged, Retagged item predicates.toList c tagged ∧
          d = if content.isEmpty then tagged else tagged.withContent item (.text content)) ∨
      ¬ c.Holds item ∧ outcome = .missing item ∧ d = c := by
  obtain ⟨found, tagged, tag, ended⟩ := putWork_target_cases h
  rcases retag_eq_ok sound tag with ⟨holds, rfl, retagged⟩ | ⟨absent, rfl, rfl⟩
  · obtain ⟨-, updated, rewritten⟩ | ⟨other, -⟩ := ended
    · exact .inl ⟨holds, updated, tagged, retagged, rewritten⟩
    · cases other
  · obtain ⟨other, -⟩ | ⟨-, missing, unchanged⟩ := ended
    · cases other
    · exact .inr ⟨absent, missing, unchanged⟩

theorem putWork_eq_ok_of_none {outcome : Outcome} (sound : c.Sound)
    (h : putWork ⟨predicates, none⟩ content c = .ok (outcome, d)) :
    ∃ item, outcome = .created item ∧ Inserted item content predicates c d := by
  obtain ⟨⟨item, tagged⟩, insert, h⟩ := bind_eq_ok.mp h
  cases h
  exact ⟨item, rfl, insertTagged_eq_ok sound insert⟩

theorem putWork_sound {query : Query} {outcome : Outcome} (sound : c.Sound)
    (h : putWork query content c = .ok (outcome, d)) : d.Sound := by
  obtain ⟨predicates, target⟩ := query
  cases target with
  | none =>
    obtain ⟨_, -, inserted⟩ := putWork_eq_ok_of_none sound h
    exact inserted.sound
  | some item =>
    rcases putWork_eq_ok_of_target sound h with ⟨-, -, tagged, retagged, rfl⟩ | ⟨-, -, rfl⟩
    · split
      · exact retagged.sound
      · exact retagged.sound.withContent item _
    · exact sound

/-! ## Deleting -/

/-- The work of `deleteItems`. -/
def deleteWork (query : Query) (c : Catalog) : Except Fault (List Identity × Catalog) := do
  let found ← c.fetchMatching query.predicates query.target
  removeAll (found.map (·.id)) c

/-- What is found is there, each item once. -/
theorem fetchMatching_holds {target : Option Identity} {found : List Item} (sound : c.Sound)
    (h : c.fetchMatching predicates target = .ok found) :
    (found.map (·.id)).Nodup ∧ ∀ item ∈ found.map (·.id), c.Holds item := by
  obtain ⟨ascending, mem⟩ := fetchMatching_eq_ok sound h
  constructor
  · rw [List.Nodup, List.pairwise_map]
    exact ascending.imp Int.ne_of_lt
  · intro _ there
    obtain ⟨item, listed, rfl⟩ := List.mem_map.mp there
    exact holds_iff_contentOf.mpr ⟨_, ((mem item).mp listed).1.1⟩

/-- All that is found is removed, and nothing else. -/
theorem deleteWork_eq {query : Query} (sound : c.Sound) :
    deleteWork query c = (c.fetchMatching query.predicates query.target).map fun found =>
      (found.map (·.id), c.withoutAll (found.map (·.id))) := by
  cases fetched : c.fetchMatching query.predicates query.target with
  | error fault => simp [deleteWork, fetched, bind, Except.bind, Except.map]
  | ok found =>
    obtain ⟨distinct, holds⟩ := fetchMatching_holds sound fetched
    have whole : c.Whole := by
      by_contra missing
      exact not_fails_ok _ (fetched ▸ (fails_fetchMatching sound).mpr (.inl missing))
    simp [deleteWork, fetched, bind, Except.bind, Except.map,
      removeAll_eq_ok (whole_iff.mp whole).2.1 distinct holds]

end TaggedItems.Catalog
