import TaggedItems.Proofs.Catalog.Finding
/-!
# The broad fetch and the single ones

Tagged items are fetched all together by one join, and one by one by another. The rows of an item
may come in any order (`Scan.gather_eq`, `gatherOne_perm`), and both fetches tell the same of every
item that has a link: they fail together, and where the broad one succeeds it lists what the single
ones find (`broad_fetch_agrees`).
-/
namespace TaggedItems.Catalog
variable {c : Catalog} {item : Identity}

/-- The item has a link. -/
def Linked (c : Catalog) (item : Identity) : Prop := ∃ link ∈ c.heldLinks, link.item = item

/-- No link is without its tag. -/
theorem linked_iff (sound : c.Sound) : c.Linked item ↔ ∃ name, c.Carries item name := by
  constructor
  · rintro ⟨⟨_, tag⟩, linked, rfl⟩
    obtain ⟨-, tag, held, rfl⟩ := sound.refer _ linked
    exact ⟨tag.name, tag, held, rfl, linked⟩
  · rintro ⟨_, tag, -, -, linked⟩
    exact ⟨_, linked, rfl⟩

/-! ## The order of rows -/

/-- The rows of the broad join as they may come: by item, and those of one item in any order. -/
structure Scan (c : Catalog) (rows : List (Record × String)) : Prop where
  perm : rows.Perm (innerRows c.heldTags.rows c.heldLinks c.heldItems.rows)
  ordered : rows.Pairwise fun a b => a.1.id ≤ b.1.id

theorem scan_byItem (c : Catalog) :
    c.Scan (byItem (innerRows c.heldTags.rows c.heldLinks c.heldItems.rows)) :=
  ⟨byItem_perm _, byItem_ordered _⟩

theorem fault_of_gatherRow {items : List Item} {row : Record × String} {fault : Fault}
    (h : gatherRow items row = .error fault) :
    row.1.content = .unreadable ∧ fault = .unreadable row.1.id := by
  rcases gatherRow_cases items row with ⟨_, _, -, -, step⟩ | ⟨-, step⟩
  · cases h.symm.trans step
  · rw [step] at h
    cases content : row.1.content <;> simp_all [Record.read, Except.map]

/-- The fault is the first content in order that cannot be read. -/
theorem fault_of_foldlM {rows : List (Record × String)} {fault : Fault}
    (ordered : rows.Pairwise fun a b => a.1.id ≤ b.1.id)
    (coherent : ∀ a ∈ rows, ∀ b ∈ rows, a.1.id = b.1.id → a.1 = b.1)
    (h : rows.foldlM gatherRow [] = .error fault) :
    ∃ row ∈ rows, row.1.content = .unreadable ∧ fault = .unreadable row.1.id ∧
      ∀ other ∈ rows, other.1.content = .unreadable → row.1.id ≤ other.1.id := by
  induction rows using List.reverseRecOn with
  | nil => cases h
  | append_singleton rows row ih =>
    obtain ⟨orderedBefore, -, below⟩ := List.pairwise_append.mp ordered
    have coherentBefore : ∀ a ∈ rows, ∀ b ∈ rows, a.1.id = b.1.id → a.1 = b.1 :=
      fun a ha b hb => coherent a (List.mem_append_left _ ha) b (List.mem_append_left _ hb)
    cases before : rows.foldlM gatherRow [] with
    | error earlier =>
      obtain rfl : earlier = fault := by
        simpa [List.foldlM_append, before, bind, Except.bind] using h
      obtain ⟨first, there, unreadable, is, least⟩ := ih orderedBefore coherentBefore before
      refine ⟨first, List.mem_append_left _ there, unreadable, is, fun other held bad => ?_⟩
      rcases List.mem_append.mp held with old | new
      · exact least other old bad
      · exact below first there other new
    | ok items =>
      -- All rows before can be read, so the last one is the first that cannot.
      have readable : ∀ old ∈ rows, old.1.content ≠ .unreadable := by
        rcases foldlM_gatherRow rows orderedBefore coherentBefore with
          ⟨-, -, -, readable⟩ | ⟨failed, -⟩
        · exact readable
        · exact absurd failed (before ▸ not_fails_ok _)
      rw [foldlM_gatherRow_snoc before] at h
      obtain ⟨unreadable, is⟩ := fault_of_gatherRow h
      refine ⟨row, by simp, unreadable, is, fun other held bad => ?_⟩
      rcases List.mem_append.mp held with old | new
      · exact absurd bad (readable other old)
      · rw [List.mem_singleton.mp new]

namespace Scan
variable {rows others : List (Record × String)}

theorem joined (scan : c.Scan rows) (sound : c.Sound) : c.Joined rows :=
  joined_of_perm sound scan.perm

theorem fault (scan : c.Scan rows) (sound : c.Sound) {fault : Fault}
    (h : gather rows = .error fault) :
    ∃ row ∈ rows, row.1.content = .unreadable ∧ fault = .unreadable row.1.id ∧
      ∀ other ∈ rows, other.1.content = .unreadable → row.1.id ≤ other.1.id := by
  apply fault_of_foldlM scan.ordered (scan.joined sound).coherent
  cases folded : rows.foldlM gatherRow [] <;> simp_all [gather, Except.map]

/-- Two orders give the same items, or fail over the same one. -/
theorem gather_eq (scan : c.Scan rows) (other : c.Scan others) (sound : c.Sound) :
    gather rows = gather others := by
  have failTogether : Fails (gather rows) ↔ Fails (gather others) := by
    rw [fails_gather (scan.joined sound) scan.ordered,
      fails_gather (other.joined sound) other.ordered]
  have same (row : Record × String) : row ∈ rows ↔ row ∈ others := by
    rw [scan.perm.mem_iff, other.perm.mem_iff]
  cases one : gather rows with
  | error fault =>
    obtain ⟨otherFault, two⟩ := failTogether.mp ⟨fault, one⟩
    obtain ⟨row, there, unreadable, rfl, least⟩ := scan.fault sound one
    obtain ⟨otherRow, otherThere, otherUnreadable, rfl, otherLeast⟩ := other.fault sound two
    have le := least otherRow ((same _).mpr otherThere) otherUnreadable
    have ge := otherLeast row ((same _).mp there) unreadable
    rw [two, Int.le_antisymm le ge]
  | ok items =>
    obtain ⟨found, two⟩ := exists_ok_of_not_fails (mt failTogether.mpr (one ▸ not_fails_ok _))
    obtain ⟨ascending, mem⟩ := gather_eq_ok (scan.joined sound) scan.ordered one
    obtain ⟨otherAscending, otherMem⟩ := gather_eq_ok (other.joined sound) other.ordered two
    rw [two]
    congr 1
    apply eq_of_pairwise_of_mem_iff (fun _ _ below above => Int.lt_asymm below above) ascending
      otherAscending
    intro item
    rw [mem, otherMem]

end Scan

/-- The rows of one item may come in any order. -/
theorem gatherOne_perm {rows others : List (Record × Option String)} (perm : rows.Perm others)
    (one : ∀ a ∈ others, ∀ b ∈ others, a.1 = b.1) : gatherOne rows = gatherOne others := by
  by_cases none : others = []
  · subst none
    rw [perm.eq_nil]
  · obtain ⟨first, there⟩ := List.exists_mem_of_ne_nil others none
    have some : rows ≠ [] := List.ne_nil_of_mem (perm.mem_iff.mpr there)
    have names : TagSet.ofList (rows.filterMap (·.2)) = TagSet.ofList (others.filterMap (·.2)) := by
      ext name
      rw [TagSet.mem_ofList, TagSet.mem_ofList, (perm.filterMap _).mem_iff]
    rw [gatherOne_eq none fun row held => one row held first there,
      gatherOne_eq some fun row held => one row (perm.mem_iff.mp held) first there, names]

theorem outerRows_coherent (sound : c.Sound) (item : Identity) :
    ∀ a ∈ outerRows c.heldTags.rows c.heldLinks (c.heldItems.rows.filter (·.id = item)),
    ∀ b ∈ outerRows c.heldTags.rows c.heldLinks (c.heldItems.rows.filter (·.id = item)),
      a.1 = b.1 := by
  intro a ha b hb
  obtain ⟨held, is⟩ := List.mem_filter.mp (record_of_outerRows ha)
  obtain ⟨otherHeld, otherIs⟩ := List.mem_filter.mp (record_of_outerRows hb)
  exact sound.items.unique held otherHeld
    ((of_decide_eq_true is).trans (of_decide_eq_true otherIs).symm)

/-! ## Both fetches -/

/-- `items` are the linked items in ascending order, each as it is fetched by itself, so a broad
query finds the items that have a tag and are found as targets. -/
structure Lists (c : Catalog) (items : List Item) : Prop where
  ascending : items.Pairwise fun a b => a.id < b.id
  linked : ∀ i, (∃ item ∈ items, item.id = i) ↔ c.Linked i
  single : ∀ item ∈ items, c.fetchItem item.id = .ok (some item)
  queries : ∀ predicates i, (∃ found ∈ c.getItems predicates none, found.id = i) ↔
    c.getItems predicates (some i) ≠ [] ∧
      ∃ shown, c.getItem i = some shown ∧ shown.tags ≠ .empty

/-- The broad fetch and the single ones tell the same, whatever order their rows come in. -/
structure Agrees (c : Catalog) : Prop where
  broadOrder : ∀ rows, c.Scan rows → gather rows = c.fetchTagged
  singleOrder : ∀ i rows,
    rows.Perm (outerRows c.heldTags.rows c.heldLinks (c.heldItems.rows.filter (·.id = i))) →
      gatherOne rows = c.fetchItem i
  fails : Fails c.fetchTagged ↔ ∃ i, c.Linked i ∧ Fails (c.fetchItem i)
  lists : ∀ items, c.fetchTagged = .ok items → c.Lists items

theorem fails_fetchTagged_iff (sound : c.Sound) (whole : c.Whole) :
    Fails c.fetchTagged ↔ ∃ i, c.Linked i ∧ Fails (c.fetchItem i) := by
  simp only [fails_fetchTagged sound, fails_fetchItem sound, whole, not_true_eq_false, false_or,
    linked_iff sound, exists_and_right]

/-- A linked item is shown, if the broad fetch can read all of them. -/
theorem exists_shows_of_linked (sound : c.Sound) {items : List Item} (h : c.fetchTagged = .ok items)
    (linked : c.Linked item) : ∃ shown, c.Shows shown ∧ shown.id = item := by
  obtain ⟨name, carries⟩ := (linked_iff sound).mp linked
  obtain ⟨content, held⟩ := holds_iff_contentOf.mp (carries.holds sound)
  have readable : content ≠ .unreadable := by
    rintro rfl
    exact not_fails_ok _ (h ▸ (fails_fetchTagged sound).mpr (.inr ⟨item, name, carries, held⟩))
  cases content with
  | unreadable => exact absurd rfl readable
  | text text => exact ⟨⟨item, text, c.tagsOn item⟩, ⟨held, rfl⟩, rfl⟩

theorem Shows.tagged_iff {shown : Item} (h : c.Shows shown) :
    (∃ name, name ∈ shown.tags) ↔ ∃ name, c.Carries shown.id name := by
  rw [h.2]
  simp only [mem_tagsOn]

theorem linked_of_fetchTagged (sound : c.Sound) {items : List Item}
    (h : c.fetchTagged = .ok items) :
    (∃ shown ∈ items, shown.id = item) ↔ c.Linked item := by
  obtain ⟨-, mem⟩ := fetchTagged_eq_ok sound h
  constructor
  · rintro ⟨shown, listed, rfl⟩
    obtain ⟨shows, tagged⟩ := (mem shown).mp listed
    exact (linked_iff sound).mpr (shows.tagged_iff.mp tagged)
  · intro linked
    obtain ⟨shown, shows, rfl⟩ := exists_shows_of_linked sound h linked
    exact ⟨shown, (mem shown).mpr ⟨shows, shows.tagged_iff.mpr ((linked_iff sound).mp linked)⟩, rfl⟩

theorem lists_fetchTagged (sound : c.Sound) {items : List Item} (h : c.fetchTagged = .ok items) :
    c.Lists items := by
  have whole := whole_of_ok h
  have free : ¬ c.BlocksFetch none := by
    rw [blocksFetch_iff whole]
    exact fun disturbed => not_fails_ok _ (h ▸ (fails_fetchTagged sound).mpr (.inr disturbed))
  obtain ⟨ascending, mem⟩ := fetchTagged_eq_ok sound h
  have single : ∀ item ∈ items, c.fetchItem item.id = .ok (some item) :=
    fun item listed => (fetchItem_eq_some_iff sound whole).mpr ⟨((mem item).mp listed).1, rfl⟩
  exact ⟨ascending, fun _ => linked_of_fetchTagged sound h, single,
    fun _ _ => exists_mem_getItems_iff sound whole free⟩

/-- With all tables there and in order, the broad fetch fails exactly if the single fetch of some
linked item does. Otherwise it lists all of them, each as it is fetched by itself. -/
theorem broad_fetch_agrees (sound : c.Sound) (whole : c.Whole) : c.Agrees := by
  have broadOrder : ∀ rows, c.Scan rows → gather rows = c.fetchTagged := by
    intro rows scan
    rw [fetchTagged_eq whole]
    exact scan.gather_eq (scan_byItem c) sound
  have singleOrder : ∀ i rows,
      rows.Perm (outerRows c.heldTags.rows c.heldLinks (c.heldItems.rows.filter (·.id = i))) →
        gatherOne rows = c.fetchItem i := by
    intro i rows perm
    rw [fetchItem_eq_gatherOne whole]
    exact gatherOne_perm perm (outerRows_coherent sound i)
  exact ⟨broadOrder, singleOrder, fails_fetchTagged_iff sound whole,
    fun _ fetched => lists_fetchTagged sound fetched⟩

/-- Two items share their tags, and a third one, which has none, cannot be read. -/
def shared : Catalog :=
  ⟨some ⟨4, [⟨1, "foo"⟩, ⟨2, "bar"⟩]⟩,
    some ⟨3, [⟨1, .text "first"⟩, ⟨2, .text "second"⟩, ⟨3, .unreadable⟩]⟩,
    some [⟨1, 1⟩, ⟨2, 2⟩, ⟨2, 1⟩, ⟨1, 2⟩]⟩

/-- The rows of the second item come the other way round, and the third item disturbs its own fetch
only. -/
theorem shared_agrees :
    shared.Sound ∧ shared.Whole ∧ shared.Agrees ∧
      gather [(⟨1, .text "first"⟩, "foo"), (⟨1, .text "first"⟩, "bar"),
        (⟨2, .text "second"⟩, "foo"), (⟨2, .text "second"⟩, "bar")] =
        .ok [⟨1, "first", .ofList ["foo", "bar"]⟩, ⟨2, "second", .ofList ["foo", "bar"]⟩] ∧
      Fails (shared.fetchItem 3) := by
  have life : shared = (initial.run
      [.operation (.addItem "first" (.ofList [⟨.includes, "foo"⟩])),
        .operation (.addItem "second" (.ofList [⟨.includes, "foo"⟩, ⟨.includes, "bar"⟩])),
        .operation (.addItem "third" .empty), .damage (.spoil 3),
        .operation (.tagItem 1 (.ofList [⟨.includes, "bar"⟩]))]).2 := by
    decide +kernel
  have sound : shared.Sound := reachable_sound (life ▸ Reachable.initial.run _)
  have scan : shared.Scan [(⟨1, .text "first"⟩, "foo"), (⟨1, .text "first"⟩, "bar"),
      (⟨2, .text "second"⟩, "foo"), (⟨2, .text "second"⟩, "bar")] :=
    ⟨by decide +kernel, by decide +kernel⟩
  have agrees := broad_fetch_agrees sound ⟨rfl, rfl, rfl⟩
  have fetched : shared.fetchTagged =
      .ok [⟨1, "first", .ofList ["foo", "bar"]⟩, ⟨2, "second", .ofList ["foo", "bar"]⟩] := by
    decide +kernel
  exact ⟨sound, ⟨rfl, rfl, rfl⟩, agrees, (agrees.broadOrder _ scan).trans fetched,
    .unreadable 3, by decide +kernel⟩

end TaggedItems.Catalog
