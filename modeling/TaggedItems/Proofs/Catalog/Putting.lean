import TaggedItems.Proofs.Catalog.Attempt
/-!
# Putting

What becomes of content that is put into a catalog, in whatever state its tables are. A target that
has no row is reported missing and a put that fails changes nothing (`put_of_misses`,
`put_of_fails`); any other put answers with the item that it created or updated
(`put_of_succeeds`). A put leaves what the operations that it is made of leave one after the other,
and never only a part of that (`put_is_its_parts`).
-/
namespace TaggedItems.Catalog
variable {c d : Catalog} {item : Identity} {query : Query} {content : String} {outcome : Outcome}

/-- The item table is there, and the item that the query targets has no row in it. -/
structure Misses (c : Catalog) (query : Query) (item : Identity) : Prop where
  target : query.target = some item
  there : c.items ≠ none
  absent : ¬ c.Holds item

theorem retag_of_absent {predicates : PredicateSet} (there : c.items ≠ none)
    (absent : ¬ c.Holds item) : retag item predicates c = .ok (false, c) := by
  obtain ⟨answer, look⟩ := exists_ok_of_not_fails (mt fails_itemExists.mp there)
  obtain ⟨-, answer_iff⟩ := itemExists_eq_ok look
  obtain rfl : answer = false := Bool.eq_false_iff.mpr (mt answer_iff.mp absent)
  simp [retag, look, bind, Except.bind, pure, Except.pure]

theorem putWork_of_misses (h : c.Misses query item) :
    putWork query content c = .ok (.missing item, c) := by
  simp [putWork, h.target, retag_of_absent h.there h.absent, bind, Except.bind, pure, Except.pure]

/-- Work that succeeds created the item, or updated the target, or missed it. -/
theorem putWork_cases (h : putWork query content c = .ok (outcome, d)) :
    (query.target = none ∧ ∃ item, outcome = .created item) ∨
      (∃ item, query.target = some item ∧ outcome = .updated item) ∨
        ∃ item, c.Misses query item := by
  obtain ⟨predicates, _ | item⟩ := query
  · obtain ⟨⟨item, tagged⟩, -, h⟩ := bind_eq_ok.mp h
    cases h
    exact .inl ⟨rfl, item, rfl⟩
  · obtain ⟨found, tagged, tag, ⟨-, updated, -⟩ | ⟨rfl, -⟩⟩ := putWork_target_cases h
    · exact .inr (.inl ⟨item, rfl, updated⟩)
    · have there : c.items ≠ none := fun missing =>
        not_fails_ok _ (tag ▸ fails_retag.mpr (.inl missing))
      obtain ⟨-, other, -⟩ | ⟨absent, -⟩ := retag_cases tag
      · cases other
      · exact .inr (.inr ⟨item, rfl, there, absent⟩)

theorem put_of_ok (h : putWork query content c = .ok (outcome, d)) :
    c.put query content = (outcome, d) := by
  rw [put, transact_of_ok h]
  rfl

theorem put_of_misses (h : c.Misses query item) : c.put query content = (.missing item, c) :=
  put_of_ok (putWork_of_misses h)

theorem put_of_fails (h : Fails (c.attempt (.put query content))) :
    c.put query content = (.failed, c) := by
  obtain ⟨fault, failed⟩ := fails_map.mp h
  rw [put, transact_of_error failed]
  rfl

theorem put_of_succeeds (there : ∀ item, ¬ c.Misses query item)
    (succeeds : ¬ Fails (c.attempt (.put query content))) :
    ∃ item d, query.target = none ∧ c.put query content = (.created item, d) ∨
      query.target = some item ∧ c.put query content = (.updated item, d) := by
  obtain ⟨⟨outcome, d⟩, work⟩ := exists_ok_of_not_fails (mt fails_map.mpr succeeds)
  rw [put_of_ok work]
  rcases putWork_cases work with ⟨none, item, rfl⟩ | ⟨item, target, rfl⟩ | ⟨item, misses⟩
  · exact ⟨item, d, .inl ⟨none, rfl⟩⟩
  · exact ⟨item, d, .inr ⟨target, rfl⟩⟩
  · exact absurd misses (there item)

/-! ## Putting and its parts -/

/-- What two operations leave behind. The item is retagged, and where that was done and there is
content to put, its content is replaced. -/
def tagThenUpdate (c : Catalog) (item : Identity) (predicates : PredicateSet) (content : String) :
    Catalog :=
  let (tagged, d) := c.tagItem item predicates
  if tagged = true ∧ content ≠ "" then (d.updateContent item content).2 else d

/-- `outcome` and `d` come of a put as they come of its two parts. Both parts are done, or none
is. -/
structure InParts (c : Catalog) (item : Identity) (predicates : PredicateSet) (content : String)
    (outcome : Outcome) (d : Catalog) : Prop where
  state : d = c.tagThenUpdate item predicates content
  updated : outcome = .updated item ↔ (c.tagItem item predicates).1 = true
  replaced : outcome = .updated item →
    ((c.tagItem item predicates).2.updateContent item content).1 = true
  missing : outcome = .missing item ↔ c.items ≠ none ∧ ¬ c.Holds item
  failed : outcome = .failed ↔ outcome ≠ .updated item ∧ outcome ≠ .missing item
  both : outcome = .updated item →
    d.tags = (c.tagItem item predicates).2.tags ∧ d.links = (c.tagItem item predicates).2.links ∧
      (content ≠ "" → d.contentOf item = some (.text content))
  neither : outcome ≠ .updated item → d = c

/-- Retagging changed no item, so the item is still there for its content to be replaced. -/
theorem holds_of_retag {predicates : PredicateSet} (tag : retag item predicates c = .ok (true, d)) :
    d.Holds item := by
  obtain ⟨holds, -⟩ | ⟨-, other, -⟩ := retag_cases tag
  · simpa only [Holds, heldItems, items_retag tag] using holds
  · cases other

theorem putWork_of_retag {predicates : PredicateSet}
    (tag : retag item predicates c = .ok (true, d)) :
    putWork ⟨predicates, some item⟩ content c =
      .ok (.updated item, if content = "" then d else d.withContent item (.text content)) := by
  have replace := replaceContent_of_holds (holds_of_retag tag) content
  by_cases empty : content = "" <;>
    simp [putWork, tag, replace, empty, bind, Except.bind, pure, Except.pure]

namespace InParts
variable {predicates : PredicateSet}

/-- Retagging did nothing, so there is nothing to go on with. -/
theorem of_untagged (untagged : c.tagItem item predicates = (false, c))
    (outcome_ne : outcome ≠ .updated item)
    (missing : outcome = .missing item ↔ c.items ≠ none ∧ ¬ c.Holds item)
    (ended : outcome = .missing item ∨ outcome = .failed) :
    InParts c item predicates content outcome c where
  state := by simp [tagThenUpdate, untagged]
  updated := by simp [untagged, outcome_ne]
  replaced := fun updated => absurd updated outcome_ne
  missing := missing
  failed := by rcases ended with rfl | rfl <;> simp
  both := fun updated => absurd updated outcome_ne
  neither := fun _ => rfl

theorem of_fails (failed : Fails (retag item predicates c)) :
    InParts c item predicates content .failed c := by
  have missing : ¬ (c.items ≠ none ∧ ¬ c.Holds item) := by
    rintro ⟨there, absent⟩
    exact not_fails_ok _ (retag_of_absent there absent ▸ failed)
  exact of_untagged (tagItem_of_fails failed) (by simp) (iff_of_false (by simp) missing) (.inr rfl)

theorem of_misses (there : c.items ≠ none) (absent : ¬ c.Holds item) :
    InParts c item predicates content (.missing item) c :=
  of_untagged (tagItem_of_ok (retag_of_absent there absent)) (by simp)
    (iff_of_true rfl ⟨there, absent⟩) (.inl rfl)

/-- The item was retagged and is still there, so its content can be replaced. -/
theorem of_retag {e : Catalog} (tag : retag item predicates c = .ok (true, d))
    (ends : e = if content = "" then d else d.withContent item (.text content)) :
    InParts c item predicates content (.updated item) e := by
  have holds := holds_of_retag tag
  have tagged := tagItem_of_ok tag
  have update := updateContent_of_holds holds content
  have state : e = c.tagThenUpdate item predicates content := by
    rw [ends]
    by_cases empty : content = "" <;> simp [tagThenUpdate, tagged, update, empty]
  have present : ¬ (c.items ≠ none ∧ ¬ c.Holds item) := by
    obtain ⟨there, -⟩ | ⟨-, other, -⟩ := retag_cases tag
    · exact fun missing => missing.2 there
    · cases other
  have tables : e.tags = d.tags ∧ e.links = d.links := by
    rw [ends]
    split <;> exact ⟨rfl, rfl⟩
  have written : content ≠ "" → e.contentOf item = some (.text content) := by
    intro some
    obtain ⟨old, held⟩ := holds_iff_contentOf.mp holds
    rw [ends, if_neg some, contentOf_withContent, if_pos rfl, held, Option.map_some]
  exact ⟨state, by simp [tagged], fun _ => by rw [tagged, update], by simp [present], by simp,
    fun _ => by rw [tagged]; exact ⟨tables.1, tables.2, written⟩, fun other => absurd rfl other⟩

end InParts

theorem put_target_in_parts (c : Catalog) (item : Identity) (predicates : PredicateSet)
    (content : String) :
    InParts c item predicates content (c.put ⟨predicates, some item⟩ content).1
      (c.put ⟨predicates, some item⟩ content).2 := by
  cases tag : retag item predicates c with
  | error fault =>
    have failed : Fails (retag item predicates c) := ⟨fault, tag⟩
    rw [put_of_fails (fails_map.mpr (fails_putWork.mpr failed))]
    exact .of_fails failed
  | ok result =>
    obtain ⟨found, tagged⟩ := result
    cases found with
    | true =>
      rw [put_of_ok (putWork_of_retag tag)]
      exact .of_retag tag rfl
    | false =>
      have there : c.items ≠ none := fun missing =>
        not_fails_ok _ (tag ▸ fails_retag.mpr (.inl missing))
      obtain ⟨-, other, -⟩ | ⟨absent, -⟩ := retag_cases tag
      · cases other
      · rw [put_of_misses ⟨rfl, there, absent⟩]
        exact .of_misses there absent

/-- Without a target an item is added, and the outcome tells its number. -/
theorem put_eq_addItem (c : Catalog) (predicates : PredicateSet) (content : String) :
    c.put ⟨predicates, none⟩ content =
      ((c.addItem content predicates).1.elim .failed .created,
        (c.addItem content predicates).2) := by
  cases insert : insertTagged content predicates c with
  | error fault =>
    have failed : Fails (putWork ⟨predicates, none⟩ content c) := fails_putWork.mpr ⟨fault, insert⟩
    rw [put_of_fails (fails_map.mpr failed), addItem, transact_of_error insert]
    rfl
  | ok result =>
    have work : putWork ⟨predicates, none⟩ content c = .ok (.created result.1, result.2) := by
      simp [putWork, insert, bind, Except.bind, pure, Except.pure]
    rw [put_of_ok work, addItem, transact_of_ok insert]
    rfl

/-- In whatever state the tables are, a put is its parts in one: with a target it retags the item
and replaces its content, both or neither, and without one it adds an item. -/
theorem put_is_its_parts (c : Catalog) (predicates : PredicateSet) (content : String) :
    (∀ item, InParts c item predicates content (c.put ⟨predicates, some item⟩ content).1
        (c.put ⟨predicates, some item⟩ content).2) ∧
      c.put ⟨predicates, none⟩ content =
        ((c.addItem content predicates).1.elim .failed .created,
          (c.addItem content predicates).2) :=
  ⟨fun item => put_target_in_parts c item predicates content, put_eq_addItem c predicates content⟩

end TaggedItems.Catalog
