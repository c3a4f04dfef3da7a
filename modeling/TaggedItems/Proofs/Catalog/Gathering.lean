import Mathlib.Data.List.Induction
import TaggedItems.Proofs.Catalog.Fetching
/-!
# Fetching all tagged items

The rows of the inner join are gathered into items. Whatever order the rows of one item come in,
each tagged item is found once, as the tables show it (`gather_joined`, `fetchTagged_eq_ok`), and
the fetch fails only over a missing table or the unreadable content of a tagged item
(`fails_fetchTagged`). Queries select from what is fetched (`fetchMatching_eq_ok`).
-/
namespace TaggedItems.Catalog
variable {c : Catalog}

/-- What the rows so far have been gathered into, the latest item first. -/
structure Gathered (rows : List (Record × String)) (items : List Item) : Prop where
  descending : items.Pairwise fun a b => b.id < a.id
  read : ∀ item ∈ items, ∃ row ∈ rows, row.1 = ⟨item.id, .text item.content⟩
  tags : ∀ item ∈ items, ∀ name,
    name ∈ item.tags ↔ ∃ row ∈ rows, row.1.id = item.id ∧ row.2 = name
  complete : ∀ row ∈ rows, ∃ item ∈ items, item.id = row.1.id

/-- A row either belongs to the latest item, or starts an item of its own. -/
theorem gatherRow_cases (items : List Item) (row : Record × String) :
    (∃ latest earlier, items = latest :: earlier ∧ latest.id = row.1.id ∧
        gatherRow items row = .ok (latest.tag row.2 :: earlier)) ∨
      (∀ latest ∈ items.head?, latest.id ≠ row.1.id) ∧
        gatherRow items row = row.1.read.map fun content =>
          ⟨row.1.id, content, TagSet.empty.insert row.2⟩ :: items := by
  cases items with
  | nil => exact .inr ⟨by simp, rfl⟩
  | cons latest earlier =>
    by_cases same : latest.id = row.1.id
    · exact .inl ⟨latest, earlier, rfl, same, by simp [gatherRow, same]⟩
    · exact .inr ⟨by simpa using same, by simp [gatherRow, same]⟩

namespace Gathered
variable {rows : List (Record × String)} {items : List Item} {row : Record × String}

/-- A row of another item is no tag of this one. -/
theorem tags_of_ne (g : Gathered rows items) {item : Item} (held : item ∈ items)
    (other : row.1.id ≠ item.id) (name : String) :
    name ∈ item.tags ↔ ∃ old ∈ rows ++ [row], old.1.id = item.id ∧ old.2 = name := by
  simp only [List.mem_append, List.mem_singleton, or_and_right, exists_or, exists_eq_left]
  rw [g.tags item held]
  simp [other]

/-- A further row of the latest item is one more tag of it. -/
theorem tag {latest : Item} {earlier : List Item} (g : Gathered rows (latest :: earlier))
    (same : latest.id = row.1.id) : Gathered (rows ++ [row]) (latest.tag row.2 :: earlier) := by
  obtain ⟨above, descending⟩ := List.pairwise_cons.mp g.descending
  have read : ∀ item ∈ latest.tag row.2 :: earlier,
      ∃ old ∈ rows ++ [row], old.1 = ⟨item.id, .text item.content⟩ := by
    intro item held
    have old : ∃ old ∈ rows, old.1 = ⟨item.id, .text item.content⟩ := by
      cases held with
      | head => exact g.read latest List.mem_cons_self
      | tail _ held => exact g.read item (List.mem_cons_of_mem _ held)
    obtain ⟨old, there, is⟩ := old
    exact ⟨old, List.mem_append_left _ there, is⟩
  have tags : ∀ item ∈ latest.tag row.2 :: earlier, ∀ name,
      name ∈ item.tags ↔ ∃ old ∈ rows ++ [row], old.1.id = item.id ∧ old.2 = name := by
    intro item held name
    cases held with
    | head =>
      have old := g.tags latest List.mem_cons_self name
      simp only [List.mem_append, List.mem_singleton, or_and_right, exists_or, exists_eq_left]
      change name ∈ latest.tags.insert row.2 ↔ _
      rw [TagSet.mem_insert, old]
      simp only [Item.tag, ← same, true_and]
      rw [or_comm, eq_comm]
    | tail _ held =>
      have below : item.id < row.1.id := same ▸ above item held
      exact g.tags_of_ne (List.mem_cons_of_mem _ held) (Int.ne_of_gt below) name
  have complete : ∀ other ∈ rows ++ [row],
      ∃ item ∈ latest.tag row.2 :: earlier, item.id = other.1.id := by
    intro other there
    rcases List.mem_append.mp there with old | new
    · obtain ⟨item, held, is⟩ := g.complete other old
      cases held with
      | head => exact ⟨_, List.mem_cons_self, is⟩
      | tail _ held => exact ⟨item, List.mem_cons_of_mem _ held, is⟩
    · obtain rfl := List.mem_singleton.mp new
      exact ⟨_, List.mem_cons_self, same⟩
  exact ⟨List.pairwise_cons.mpr ⟨above, descending⟩, read, tags, complete⟩

/-- A row above all items so far is the first of its own. -/
theorem start {content : String} (g : Gathered rows items) (text : row.1.content = .text content)
    (above : ∀ item ∈ items, item.id < row.1.id) :
    Gathered (rows ++ [row]) (⟨row.1.id, content, TagSet.empty.insert row.2⟩ :: items) := by
  have fresh : ∀ old ∈ rows, old.1.id ≠ row.1.id := by
    intro old there
    obtain ⟨item, held, is⟩ := g.complete old there
    have below : old.1.id < row.1.id := is ▸ above item held
    exact Int.ne_of_lt below
  have read : ∀ item ∈ (⟨row.1.id, content, TagSet.empty.insert row.2⟩ : Item) :: items,
      ∃ old ∈ rows ++ [row], old.1 = ⟨item.id, .text item.content⟩ := by
    intro item held
    cases held with
    | head => exact ⟨row, List.mem_append_right _ (List.mem_singleton_self _), by rw [← text]⟩
    | tail _ held =>
      obtain ⟨old, there, is⟩ := g.read item held
      exact ⟨old, List.mem_append_left _ there, is⟩
  have tags : ∀ item ∈ (⟨row.1.id, content, TagSet.empty.insert row.2⟩ : Item) :: items, ∀ name,
      name ∈ item.tags ↔ ∃ old ∈ rows ++ [row], old.1.id = item.id ∧ old.2 = name := by
    intro item held name
    cases held with
    | head =>
      simp only [List.mem_append, List.mem_singleton, or_and_right, exists_or, exists_eq_left]
      have none : ¬ ∃ old ∈ rows, old.1.id = row.1.id ∧ old.2 = name :=
        fun ⟨old, there, same, _⟩ => fresh old there same
      have empty : name ∉ TagSet.empty := List.not_mem_nil
      simp only [TagSet.mem_insert, empty, none, true_and, false_or, or_false]
      exact eq_comm
    | tail _ held => exact g.tags_of_ne held (Int.ne_of_gt (above item held)) name
  have complete : ∀ other ∈ rows ++ [row],
      ∃ item ∈ (⟨row.1.id, content, TagSet.empty.insert row.2⟩ : Item) :: items,
        item.id = other.1.id := by
    intro other there
    rcases List.mem_append.mp there with old | new
    · obtain ⟨item, held, is⟩ := g.complete other old
      exact ⟨item, List.mem_cons_of_mem _ held, is⟩
    · obtain rfl := List.mem_singleton.mp new
      exact ⟨_, List.mem_cons_self, rfl⟩
  exact ⟨List.pairwise_cons.mpr ⟨above, g.descending⟩, read, tags, complete⟩

/-- A row in order that is not of the latest item is above all items. -/
theorem above (g : Gathered rows items) (below : ∀ old ∈ rows, old.1.id ≤ row.1.id)
    (differs : ∀ latest ∈ items.head?, latest.id ≠ row.1.id) :
    ∀ item ∈ items, item.id < row.1.id := by
  cases items with
  | nil => simp
  | cons latest earlier =>
    obtain ⟨highest, -⟩ := List.pairwise_cons.mp g.descending
    have first : latest.id < row.1.id := by
      obtain ⟨old, there, is⟩ := g.read latest List.mem_cons_self
      have le : latest.id ≤ row.1.id := by simpa [is] using below old there
      exact lt_of_le_of_ne le (differs latest rfl)
    intro item held
    cases held with
    | head => exact first
    | tail _ held => exact Int.lt_trans (highest item held) first

/-- Each row is gathered, unless it is the first of its item and the content cannot be read. -/
theorem step (g : Gathered rows items) (below : ∀ old ∈ rows, old.1.id ≤ row.1.id)
    (coherent : ∀ old ∈ rows, old.1.id = row.1.id → old.1 = row.1) :
    (∃ gathered, gatherRow items row = .ok gathered ∧ Gathered (rows ++ [row]) gathered ∧
        row.1.content ≠ .unreadable) ∨
      Fails (gatherRow items row) ∧ row.1.content = .unreadable := by
  rcases gatherRow_cases items row with ⟨latest, earlier, rfl, same, step⟩ | ⟨differs, step⟩
  · -- The row's record is the one that the latest item was read from.
    obtain ⟨old, there, is⟩ := g.read latest List.mem_cons_self
    have one : old.1 = row.1 := coherent old there (by rw [is, same])
    exact .inl ⟨_, step, g.tag same, by simp [← one, is]⟩
  · cases content : row.1.content with
    | unreadable =>
      have failed : Fails row.1.read := by simp [Record.read, content, Fails]
      exact .inr ⟨by rwa [step, fails_map], rfl⟩
    | text text =>
      have read : row.1.read = .ok text := by simp [Record.read, content]
      exact .inl ⟨_, by rw [step, read]; rfl, g.start content (g.above below differs), by simp⟩

end Gathered

theorem foldlM_gatherRow_snoc {rows : List (Record × String)} {items : List Item}
    (ok : rows.foldlM gatherRow [] = .ok items) (row : Record × String) :
    (rows ++ [row]).foldlM gatherRow [] = gatherRow items row := by
  rw [List.foldlM_append, ok]
  change [row].foldlM gatherRow items = _
  rw [List.foldlM_cons]
  cases gatherRow items row <;> rfl

/-- Gathering rows in order reads every row's content at the first row of its item. So it fails
exactly when some content is unreadable, if rows of one number are rows of one record. -/
theorem foldlM_gatherRow (rows : List (Record × String))
    (ordered : rows.Pairwise fun a b => a.1.id ≤ b.1.id)
    (coherent : ∀ a ∈ rows, ∀ b ∈ rows, a.1.id = b.1.id → a.1 = b.1) :
    (∃ items, rows.foldlM gatherRow [] = .ok items ∧ Gathered rows items ∧
        ∀ row ∈ rows, row.1.content ≠ .unreadable) ∨
      Fails (rows.foldlM gatherRow []) ∧ ∃ row ∈ rows, row.1.content = .unreadable := by
  induction rows using List.reverseRecOn with
  | nil => exact .inl ⟨[], rfl, ⟨.nil, by simp, by simp, by simp⟩, by simp⟩
  | append_singleton rows row ih =>
    obtain ⟨ordered, -, below⟩ := List.pairwise_append.mp ordered
    have below : ∀ old ∈ rows, old.1.id ≤ row.1.id := fun old there => below old there row (by simp)
    have one : ∀ old ∈ rows, old.1.id = row.1.id → old.1 = row.1 :=
      fun old there => coherent old (by simp [there]) row (by simp)
    rcases ih ordered fun a ha b hb => coherent a (by simp [ha]) b (by simp [hb]) with
      ⟨items, ok, g, readable⟩ | ⟨failed, old, there, unreadable⟩
    · rw [foldlM_gatherRow_snoc ok]
      rcases g.step below one with ⟨gathered, step, g, text⟩ | ⟨failed, unreadable⟩
      · refine .inl ⟨gathered, step, g, fun other held => ?_⟩
        rcases List.mem_append.mp held with old | new
        · exact readable other old
        · obtain rfl := List.mem_singleton.mp new
          exact text
      · exact .inr ⟨failed, row, by simp, unreadable⟩
    · obtain ⟨fault, failed⟩ := failed
      refine .inr ⟨?_, old, by simp [there], unreadable⟩
      rw [List.foldlM_append, failed]
      exact fails_error fault

theorem mem_innerRows {tags : List Tag} {links : List Link} {records : List Record}
    {record : Record} {name : String} :
    (record, name) ∈ innerRows tags links records ↔
      record ∈ records ∧ ∃ link ∈ links, link.item = record.id ∧
        ∃ tag ∈ tags, tag.id = link.tag ∧ tag.name = name := by
  simp only [innerRows, List.mem_map, Prod.mk.injEq]
  constructor
  · rintro ⟨⟨⟨_, link⟩, tag⟩, joined, rfl, rfl⟩
    obtain ⟨linked, tagged⟩ := Join.mem_inner.mp joined
    obtain ⟨held, linked⟩ := Join.mem_inner.mp linked
    obtain ⟨linked, of⟩ := List.mem_filter.mp linked
    obtain ⟨tagged, is⟩ := List.mem_filter.mp tagged
    exact ⟨held, link, linked, by simpa using of, tag, tagged, by simpa using is, rfl⟩
  · rintro ⟨held, link, linked, of, tag, tagged, is, rfl⟩
    refine ⟨((record, link), tag), Join.mem_inner.mpr ⟨Join.mem_inner.mpr ⟨held, ?_⟩, ?_⟩, rfl, rfl⟩
    · exact List.mem_filter.mpr ⟨linked, by simpa using of⟩
    · exact List.mem_filter.mpr ⟨tagged, by simpa using is⟩

/-- The rows of a catalog's inner join, in some order. -/
def Joined (c : Catalog) (rows : List (Record × String)) : Prop :=
  ∀ row, row ∈ rows ↔ c.contentOf row.1.id = some row.1.content ∧ c.Carries row.1.id row.2

theorem joined_of_perm (sound : c.Sound) {rows : List (Record × String)}
    (perm : rows.Perm (innerRows c.heldTags.rows c.heldLinks c.heldItems.rows)) :
    c.Joined rows := by
  rintro ⟨record, name⟩
  rw [perm.mem_iff, mem_innerRows, linked_iff_carries, contentOf_eq_some_iff sound]

namespace Joined
variable {rows : List (Record × String)} {items : List Item} {item : Item}

theorem coherent (joined : c.Joined rows) :
    ∀ a ∈ rows, ∀ b ∈ rows, a.1.id = b.1.id → a.1 = b.1 := by
  rintro ⟨⟨id, content⟩, _⟩ ha ⟨⟨_, other⟩, _⟩ hb rfl
  have same : some content = some other :=
    ((joined _).mp ha).1.symm.trans ((joined _).mp hb).1
  simpa using same

/-- The names of an item's rows are the names of its tags. -/
theorem names (joined : c.Joined rows) {id : Identity} {content : Content}
    (held : c.contentOf id = some content) (name : String) :
    (∃ row ∈ rows, row.1.id = id ∧ row.2 = name) ↔ c.Carries id name := by
  constructor
  · rintro ⟨row, there, rfl, rfl⟩
    exact ((joined row).mp there).2
  · intro carries
    exact ⟨(⟨id, content⟩, name), (joined _).mpr ⟨held, carries⟩, rfl, rfl⟩

theorem shows_of_mem (joined : c.Joined rows) (g : Gathered rows items) (held : item ∈ items) :
    c.Shows item ∧ ∃ name, name ∈ item.tags := by
  obtain ⟨row, there, is⟩ := g.read item held
  obtain ⟨content, carries⟩ := (joined row).mp there
  simp only [is] at content carries
  have tags (name : String) : name ∈ item.tags ↔ c.Carries item.id name := by
    rw [g.tags item held, joined.names content]
  exact ⟨⟨content, by ext name; rw [tags, mem_tagsOn]⟩, row.2, (tags row.2).mpr carries⟩

theorem mem_of_shows (joined : c.Joined rows) (g : Gathered rows items) (shown : c.Shows item)
    (tagged : ∃ name, name ∈ item.tags) : item ∈ items := by
  obtain ⟨name, tagged⟩ := tagged
  have carries : c.Carries item.id name := by rwa [shown.2, mem_tagsOn] at tagged
  have there := (joined (⟨item.id, .text item.content⟩, name)).mpr ⟨shown.1, carries⟩
  obtain ⟨found, held, is⟩ := g.complete _ there
  exact (joined.shows_of_mem g held).1.eq shown is ▸ held

end Joined

/-- Whatever order the rows of one item come in, all tagged items are gathered from them. -/
theorem gather_joined {rows : List (Record × String)} (joined : c.Joined rows)
    (ordered : rows.Pairwise fun a b => a.1.id ≤ b.1.id) :
    (∃ items, gather rows = .ok items ∧ (items.Pairwise fun a b => a.id < b.id) ∧
        (∀ item, item ∈ items ↔ c.Shows item ∧ ∃ name, name ∈ item.tags) ∧
        ∀ item name, c.Carries item name → c.contentOf item ≠ some .unreadable) ∨
      Fails (gather rows) ∧
        ∃ item name, c.Carries item name ∧ c.contentOf item = some .unreadable := by
  rcases foldlM_gatherRow rows ordered joined.coherent with
    ⟨items, ok, g, readable⟩ | ⟨failed, row, there, unreadable⟩
  · have ascending : items.reverse.Pairwise fun a b => a.id < b.id := by
      rw [List.pairwise_reverse]
      exact g.descending
    refine .inl ⟨items.reverse, by simp [gather, ok, Except.map], ascending, fun item => ?_, ?_⟩
    · rw [List.mem_reverse]
      exact ⟨joined.shows_of_mem g, fun ⟨shown, tagged⟩ => joined.mem_of_shows g shown tagged⟩
    · intro item name carries unreadable
      exact readable (⟨item, .unreadable⟩, name) ((joined _).mpr ⟨unreadable, carries⟩) rfl
  · obtain ⟨content, carries⟩ := (joined row).mp there
    exact .inr ⟨by rwa [gather, fails_map], row.1.id, row.2, carries, unreadable ▸ content⟩

/-- Gathering fails over the unreadable content of a tagged item only. -/
theorem fails_gather {rows : List (Record × String)} (joined : c.Joined rows)
    (ordered : rows.Pairwise fun a b => a.1.id ≤ b.1.id) :
    Fails (gather rows) ↔
      ∃ item name, c.Carries item name ∧ c.contentOf item = some .unreadable := by
  rcases gather_joined joined ordered with ⟨items, ok, -, -, readable⟩ | ⟨failed, unreadable⟩
  · rw [ok]
    simp only [not_fails_ok, false_iff, not_exists, not_and]
    exact readable
  · exact iff_of_true failed unreadable

theorem gather_eq_ok {rows : List (Record × String)} (joined : c.Joined rows)
    (ordered : rows.Pairwise fun a b => a.1.id ≤ b.1.id) {items : List Item}
    (h : gather rows = .ok items) :
    (items.Pairwise fun a b => a.id < b.id) ∧
      ∀ item, item ∈ items ↔ c.Shows item ∧ ∃ name, name ∈ item.tags := by
  rcases gather_joined joined ordered with ⟨found, ok, ascending, mem, -⟩ | ⟨failed, -⟩
  · obtain rfl : found = items := by simpa [ok] using h
    exact ⟨ascending, mem⟩
  · exact absurd (h ▸ failed) (not_fails_ok _)

theorem fetchTagged_eq (whole : c.Whole) :
    c.fetchTagged =
      gather (byItem (innerRows c.heldTags.rows c.heldLinks c.heldItems.rows)) := by
  simp only [fetchTagged, itemTable, linkTable, tagTable, whole.tags, whole.items, whole.links]
  rfl

theorem fails_fetchTagged (sound : c.Sound) :
    Fails c.fetchTagged ↔
      ¬ c.Whole ∨ ∃ item name, c.Carries item name ∧ c.contentOf item = some .unreadable := by
  by_cases whole : c.Whole
  · rw [fetchTagged_eq whole,
      fails_gather (joined_of_perm sound (byItem_perm _)) (byItem_ordered _),
      or_iff_right (not_not_intro whole)]
  · exact iff_of_true (fails_tables whole _) (.inl whole)

theorem whole_of_ok {items : List Item} (h : c.fetchTagged = .ok items) : c.Whole := by
  by_contra missing
  have failed : Fails c.fetchTagged := fails_tables missing _
  rw [h] at failed
  exact not_fails_ok _ failed

/-- All tagged items are found once, with their contents and tags, in ascending order. -/
theorem fetchTagged_eq_ok (sound : c.Sound) {items : List Item} (h : c.fetchTagged = .ok items) :
    (items.Pairwise fun a b => a.id < b.id) ∧
      ∀ item, item ∈ items ↔ c.Shows item ∧ ∃ name, name ∈ item.tags := by
  rw [fetchTagged_eq (whole_of_ok h)] at h
  exact gather_eq_ok (joined_of_perm sound (byItem_perm _)) (byItem_ordered _) h

/-! ## Queries -/

/-- A query finds an item as it is shown, if it satisfies what is asked and is the target. Without a
target it has to have a tag. -/
def Finds (c : Catalog) (predicates : PredicateSet) (target : Option Identity) (item : Item) :
    Prop :=
  c.Shows item ∧ item.satisfies predicates = true ∧
    match target with
    | some id => item.id = id
    | none => ∃ name, name ∈ item.tags

/-- The fetch behind a query reads an unreadable content. -/
def Disturbs (c : Catalog) : Option Identity → Prop
  | some item => c.contentOf item = some .unreadable
  | none => ∃ item name, c.Carries item name ∧ c.contentOf item = some .unreadable

theorem fails_fetchMatching (sound : c.Sound) {predicates : PredicateSet}
    {target : Option Identity} :
    Fails (c.fetchMatching predicates target) ↔ ¬ c.Whole ∨ c.Disturbs target := by
  have filter {α β : Type} (x : Except Fault α) (f : α → β) :
      Fails (x >>= fun a => pure (f a)) ↔ Fails x := by
    cases x <;> simp [Fails, bind, Except.bind, pure, Except.pure]
  have map {α β : Type} (x : Except Fault α) (f : α → β) : Fails (f <$> x) ↔ Fails x := by
    cases x <;> simp [Fails, Functor.map, Except.map]
  cases target with
  | some item => simp only [fetchMatching, filter, map, fails_fetchItem sound, Disturbs]
  | none => simp only [fetchMatching, filter, fails_fetchTagged sound, Disturbs]

/-- The items that a query finds, each once and in ascending order. -/
theorem fetchMatching_eq_ok (sound : c.Sound) {predicates : PredicateSet}
    {target : Option Identity} {items : List Item}
    (h : c.fetchMatching predicates target = .ok items) :
    (items.Pairwise fun a b => a.id < b.id) ∧
      ∀ item, item ∈ items ↔ c.Finds predicates target item := by
  cases target with
  | none =>
    obtain ⟨candidates, fetched, h⟩ := bind_eq_ok.mp h
    obtain rfl : candidates.filter (·.satisfies predicates) = items := by
      simpa [pure, Except.pure] using h
    obtain ⟨ascending, mem⟩ := fetchTagged_eq_ok sound fetched
    refine ⟨ascending.filter _, fun item => ?_⟩
    rw [List.mem_filter, mem, Finds]
    exact ⟨fun ⟨⟨a, b⟩, s⟩ => ⟨a, s, b⟩, fun ⟨a, s, b⟩ => ⟨⟨a, b⟩, s⟩⟩
  | some id =>
    obtain ⟨candidates, fetched, h⟩ := bind_eq_ok.mp h
    obtain rfl : candidates.filter (·.satisfies predicates) = items := by
      simpa [pure, Except.pure] using h
    cases found : c.fetchItem id with
    | error fault => simp [found, Functor.map, Except.map] at fetched
    | ok item? =>
      obtain rfl : item?.toList = candidates := by
        simpa [found, Functor.map, Except.map] using fetched
      refine ⟨List.Pairwise.filter _ (by cases item? <;> simp), fun item => ?_⟩
      rw [List.mem_filter, Option.mem_toList, fetchItem_eq_ok sound found, Finds]
      exact ⟨fun ⟨⟨a, b⟩, s⟩ => ⟨a, s, b⟩, fun ⟨a, s, b⟩ => ⟨⟨a, b⟩, s⟩⟩

end TaggedItems.Catalog
