import Mathlib.Data.List.Nodup
import TaggedItems.Proofs.Catalog.Attempt
import TaggedItems.Proofs.Catalog.Log
/-!
# The ledger of items

As long as the item table is spared, its log accounts for every item: what was there before and what
was created is there afterwards or was deleted, each item once, and numbers are handed out one after
the other (`Balanced`, `run_balanced`). From a fresh catalog on, the log alone tells which items
there are (`run_keeps_ledger`).
-/
namespace TaggedItems

/-- As many numbers, one after the other. -/
def numbersFrom (first : Identity) (count : Nat) : List Identity :=
  (List.range count).map fun n : Nat => first + n

theorem numbersFrom_add (first : Identity) (m n : Nat) :
    numbersFrom first (m + n) = numbersFrom first m ++ numbersFrom (first + m) n := by
  simp [numbersFrom, List.range_add, Function.comp_def, Int.add_assoc]

theorem nodup_numbersFrom (first : Identity) (count : Nat) : (numbersFrom first count).Nodup := by
  apply List.nodup_range.map
  intro m n same
  exact Int.ofNat_inj.mp (Int.add_left_cancel same)

namespace Catalog
variable {c d e : Catalog} {item : Identity} {entry : Event × Option Answer} {log : Log}

/-- A log accounts for what became of the items of `c` until `d`. -/
structure Balanced (c : Catalog) (log : Log) (d : Catalog) : Prop where
  consecutive : log.created = numbersFrom (c.heldItems.counter + 1) log.created.length
  counter : d.heldItems.counter = c.heldItems.counter + log.created.length
  conserved : (d.itemNumbers ++ log.deleted).Perm (c.itemNumbers ++ log.created)

namespace Balanced

theorem nil : Balanced c [] c := ⟨rfl, (Int.add_zero _).symm, .refl _⟩

theorem cons (first : Balanced c [entry] d) (rest : Balanced d log e) :
    Balanced c (entry :: log) e := by
  have created : Log.created (entry :: log) = Log.created [entry] ++ Log.created log := by
    simp [Log.created]
  have deleted : Log.deleted (entry :: log) = Log.deleted [entry] ++ Log.deleted log := by
    simp [Log.deleted]
  have consecutive : Log.created (entry :: log) =
      numbersFrom (c.heldItems.counter + 1) (Log.created (entry :: log)).length := by
    have next : d.heldItems.counter + 1 =
        c.heldItems.counter + 1 + (Log.created [entry]).length := by
      rw [first.counter, Int.add_right_comm]
    rw [created, List.length_append, numbersFrom_add, ← first.consecutive, ← next,
      ← rest.consecutive]
  have counter : e.heldItems.counter =
      c.heldItems.counter + (Log.created (entry :: log)).length := by
    rw [rest.counter, first.counter, created, List.length_append, Int.add_assoc]
    rfl
  have conserved : (e.itemNumbers ++ Log.deleted (entry :: log)).Perm
      (c.itemNumbers ++ Log.created (entry :: log)) := by
    have swap (xs ys zs : List Identity) : (xs ++ ys ++ zs).Perm (xs ++ zs ++ ys) := by
      rw [List.append_assoc, List.append_assoc]
      exact List.perm_append_comm.append_left xs
    rw [created, deleted, ← List.append_assoc, ← List.append_assoc]
    calc e.itemNumbers ++ Log.deleted [entry] ++ Log.deleted log
      List.Perm _ (e.itemNumbers ++ Log.deleted log ++ Log.deleted [entry]) := swap _ _ _
      List.Perm _ (d.itemNumbers ++ Log.created log ++ Log.deleted [entry]) :=
        rest.conserved.append_right _
      List.Perm _ (d.itemNumbers ++ Log.deleted [entry] ++ Log.created log) := swap _ _ _
      List.Perm _ (c.itemNumbers ++ Log.created [entry] ++ Log.created log) :=
        first.conserved.append_right _
  exact ⟨consecutive, counter, conserved⟩

/-- An entry that tells of no item accounts for a catalog with the same items. -/
theorem same (created : itemsCreated entry = []) (deleted : itemsDeleted entry = [])
    (counter : d.heldItems.counter = c.heldItems.counter)
    (numbers : d.itemNumbers = c.itemNumbers) :
    Balanced c [entry] d := by
  have created : Log.created [entry] = [] := by simp [Log.created, created]
  have deleted : Log.deleted [entry] = [] := by simp [Log.deleted, deleted]
  refine ⟨?_, ?_, ?_⟩
  · rw [created]
    rfl
  · rw [created, counter]
    exact (Int.add_zero _).symm
  · rw [created, deleted, numbers]

theorem unchanged (created : itemsCreated entry = []) (deleted : itemsDeleted entry = [])
    (items : d.heldItems = c.heldItems) : Balanced c [entry] d :=
  same created deleted (congrArg Table.counter items) (congrArg (·.rows.map Record.id) items)

/-- Contents are not accounted for. -/
theorem withContent {content : Content} (created : itemsCreated entry = [])
    (deleted : itemsDeleted entry = []) (items : d.heldItems = c.heldItems) :
    Balanced c [entry] (d.withContent item content) :=
  same created deleted (by simp [items]) (by simp [itemNumbers, items, Function.comp_def])

theorem create {content : String} (created : itemsCreated entry = [item])
    (deleted : itemsDeleted entry = []) (next : item = c.heldItems.counter + 1)
    (items : d.heldItems = ⟨item, c.heldItems.rows ++ [⟨item, .text content⟩]⟩) :
    Balanced c [entry] d := by
  have created : Log.created [entry] = [item] := by simp [Log.created, created]
  have deleted : Log.deleted [entry] = [] := by simp [Log.deleted, deleted]
  have numbers : d.itemNumbers = c.itemNumbers ++ [item] := by simp [itemNumbers, items]
  refine ⟨?_, ?_, ?_⟩
  · rw [created, ← next]
    simp [numbersFrom]
  · rw [created, items]
    exact next
  · rw [created, deleted, numbers, List.append_nil]

theorem delete {items : List Identity} (sound : c.Sound) (created : itemsCreated entry = [])
    (deleted : itemsDeleted entry = items) (distinct : items.Nodup)
    (holds : ∀ item ∈ items, c.Holds item) : Balanced c [entry] (c.withoutAll items) := by
  have created : Log.created [entry] = [] := by simp [Log.created, created]
  have deleted : Log.deleted [entry] = items := by simp [Log.deleted, deleted]
  have left (item : Identity) :
      item ∈ (c.withoutAll items).itemNumbers ↔ c.Holds item ∧ item ∉ items := by
    rw [mem_itemNumbers, holds_iff_contentOf, contentOf_withoutAll, holds_iff_contentOf]
    by_cases gone : item ∈ items <;> simp [gone]
  refine ⟨?_, ?_, ?_⟩
  · rw [created]
    rfl
  · rw [created, withoutAll_counter]
    exact (Int.add_zero _).symm
  · rw [created, deleted, List.append_nil]
    have apart : ((c.withoutAll items).itemNumbers ++ items).Nodup := by
      refine (withoutAll_sound sound items).nodup_itemNumbers.append distinct ?_
      intro item kept gone
      exact ((left item).mp kept).2 gone
    apply (List.perm_ext_iff_of_nodup apart sound.nodup_itemNumbers).mpr
    intro item
    rw [List.mem_append, left, mem_itemNumbers]
    by_cases gone : item ∈ items
    · simp [gone, holds item gone]
    · simp [gone]

/-- What an entry tells was deleted had been there. -/
theorem holds_of_deleted (balanced : Balanced c [entry] d) (gone : item ∈ itemsDeleted entry) :
    c.Holds item := by
  have created : itemsCreated entry = [] := by
    unfold itemsDeleted at gone
    split at gone
    · rfl
    · exact absurd gone List.not_mem_nil
  have conserved := balanced.conserved
  rw [show Log.created [entry] = [] by simp [Log.created, created], List.append_nil] at conserved
  have told : item ∈ Log.deleted [entry] := by simpa [Log.deleted] using gone
  exact mem_itemNumbers.mp (conserved.subset (List.mem_append_right _ told))

end Balanced

/-! ## Events -/

/-- One case for each operation: its answer accounts for what it does to the items. -/
theorem attempt_balanced {o : Operation} {answer : Answer} (sound : c.Sound)
    (h : c.attempt o = .ok (answer, d)) : Balanced c [(.operation o, some answer)] d := by
  cases attempt_succeeds sound h with
  | addTag work =>
    have items : d.heldItems = c.heldItems := by simp only [heldItems, (keepTag_frame work).2.1]
    exact .unchanged rfl rfl items
  | addItem work =>
    have inserted := insertTagged_eq_ok sound work
    exact .create rfl rfl inserted.next inserted.items
  | tagItem work =>
    have items : d.heldItems = c.heldItems := by
      rcases retag_eq_ok sound work with ⟨-, -, retagged⟩ | ⟨-, -, rfl⟩
      · exact retagged.heldItems
      · rfl
    exact .unchanged rfl rfl items
  | updateContent work =>
    obtain ⟨-, -, rfl⟩ := replaceContent_eq_ok work
    exact .withContent rfl rfl rfl
  | deleteItems work =>
    obtain ⟨distinct, holds⟩ := fetchMatching_holds sound work
    exact .delete sound rfl rfl distinct holds
  | put work =>
    rename_i query content outcome
    obtain ⟨predicates, _ | item⟩ := query
    · obtain ⟨item, rfl, inserted⟩ := putWork_eq_ok_of_none sound work
      exact .create rfl rfl inserted.next inserted.items
    · rcases putWork_eq_ok_of_target sound work with ⟨-, rfl, tagged, retagged, rfl⟩ | ⟨-, rfl, rfl⟩
      · have items := retagged.heldItems
        split
        · exact .unchanged rfl rfl items
        · exact .withContent rfl rfl items
      · exact .unchanged rfl rfl rfl
  | getItem _ | getItems _ | itemCount _ => exact .unchanged rfl rfl rfl

/-- An operation that refuses tells of no item. -/
theorem perform_balanced (sound : c.Sound) (o : Operation) :
    Balanced c [(.operation o, some (c.perform o).1)] (c.perform o).2 := by
  rw [perform_eq]
  split
  · rename_i result work
    exact attempt_balanced sound work
  · cases o <;> exact .unchanged rfl rfl rfl

theorem step_balanced (sound : c.Sound) {event : Event} (spared : event.SparesItems) :
    Balanced c [(event, (c.step event).1)] (c.step event).2 := by
  cases event with
  | operation o => exact perform_balanced sound o
  | reopen => exact .unchanged rfl rfl rfl
  | damage damage =>
    cases damage with
    | dropItems => exact absurd rfl spared.1
    | dropAll => exact absurd rfl spared.2
    | dropLinks | dropTags => exact .unchanged rfl rfl rfl
    | spoil item => exact .withContent rfl rfl rfl

theorem run_balanced (sound : c.Sound) {events : List Event}
    (spared : ∀ event ∈ events, event.SparesItems) :
    Balanced c (c.run events).1 (c.run events).2 := by
  induction events generalizing c with
  | nil => exact .nil
  | cons event later ih =>
    obtain ⟨first, spared⟩ := List.forall_mem_cons.mp spared
    exact (step_balanced sound first).cons (ih (step_sound sound event) spared)

/-! ## Answers about items -/

theorem updateContent_iff (c : Catalog) (item : Identity) (content : String) :
    (c.updateContent item content).1 = true ↔ c.Holds item := by
  by_cases missing : c.items = none
  · have fails : Fails (c.replaceContent item content) := fails_replaceContent.mpr missing
    obtain ⟨fault, work⟩ := fails
    have absent : ¬ c.Holds item := fun holds => holds.there missing
    rw [updateContent, transact_of_error work]
    simp [absent]
  · rw [updateContent_eq missing, decide_eq_true_iff]

theorem getItem_of_not_holds (sound : c.Sound) (absent : ¬ c.Holds item) :
    c.getItem item = none := by
  cases fetched : c.fetchItem item with
  | error fault => simp [getItem, fetched, Except.toOption]
  | ok found =>
    cases found with
    | none => simp [getItem, fetched, Except.toOption]
    | some shown =>
      obtain ⟨⟨content, -⟩, rfl⟩ := (fetchItem_eq_ok sound fetched).mp rfl
      exact absurd (holds_iff_contentOf.mpr ⟨_, content⟩) absent

theorem tagItem_of_not_holds (sound : c.Sound) (absent : ¬ c.Holds item)
    (predicates : PredicateSet) :
    (c.tagItem item predicates).1 = false := by
  unfold tagItem transact
  cases work : retag item predicates c with
  | error fault => rfl
  | ok result =>
    obtain ⟨found, d⟩ := result
    rcases retag_eq_ok sound work with ⟨holds, -, -⟩ | ⟨-, rfl, -⟩
    · exact absurd holds absent
    · rfl

theorem put_of_not_holds (sound : c.Sound) (absent : ¬ c.Holds item) (predicates : PredicateSet)
    (content : String) : (c.put ⟨predicates, some item⟩ content).1.item? = none := by
  unfold put transact
  cases work : putWork ⟨predicates, some item⟩ content c with
  | error fault => rfl
  | ok result =>
    obtain ⟨outcome, d⟩ := result
    rcases putWork_eq_ok_of_target sound work with ⟨holds, -, -⟩ | ⟨-, rfl, -⟩
    · exact absurd holds absent
    · rfl

/-! ## The ledger -/

section
variable {events : List Event}

theorem initial_run_conserved (spared : ∀ event ∈ events, event.SparesItems) :
    ((initial.run events).2.itemNumbers ++ Log.deleted (initial.run events).1).Perm
      (Log.created (initial.run events).1) :=
  (run_balanced initial_sound spared).conserved

theorem created_eq (spared : ∀ event ∈ events, event.SparesItems) :
    Log.created (initial.run events).1 =
      numbersFrom 1 (Log.created (initial.run events).1).length :=
  (run_balanced initial_sound spared).consecutive

theorem nodup_left_and_deleted (spared : ∀ event ∈ events, event.SparesItems) :
    ((initial.run events).2.itemNumbers ++ Log.deleted (initial.run events).1).Nodup := by
  rw [(initial_run_conserved spared).nodup_iff, created_eq spared]
  exact nodup_numbersFrom _ _

/-- The items that are there are the ones that were created and not deleted. -/
theorem holds_iff_log (spared : ∀ event ∈ events, event.SparesItems) :
    (initial.run events).2.Holds item ↔
      item ∈ Log.created (initial.run events).1 ∧ item ∉ Log.deleted (initial.run events).1 := by
  obtain ⟨-, -, apart⟩ := List.nodup_append.mp (nodup_left_and_deleted spared)
  rw [← (initial_run_conserved spared).mem_iff, List.mem_append, mem_itemNumbers]
  constructor
  · intro there
    exact ⟨.inl there, fun gone => apart item (mem_itemNumbers.mpr there) item gone rfl⟩
  · rintro ⟨there | gone, kept⟩
    · exact there
    · exact absurd gone kept

theorem created_before_deleted (spared : ∀ event ∈ events, event.SparesItems)
    {earlier later : Log} (split : (initial.run events).1 = earlier ++ entry :: later)
    (gone : item ∈ itemsDeleted entry) : item ∈ earlier.created := by
  obtain ⟨before, event, after, rfl, rfl, rfl⟩ := run_log_split split
  obtain ⟨spared, others⟩ := List.forall_mem_append.mp spared
  have sound : (initial.run before).2.Sound := reachable_sound (Reachable.initial.run before)
  have told := step_balanced sound (List.forall_mem_cons.mp others).1
  exact ((holds_iff_log spared).mp (told.holds_of_deleted gone)).1

end

/-- What the log of a catalog's whole life tells about its items. -/
structure Ledger (log : Log) (c : Catalog) : Prop where
  consecutive : log.created = numbersFrom 1 log.created.length
  once : log.deleted.Nodup
  createdBefore : ∀ earlier entry later, log = earlier ++ entry :: later →
    ∀ item ∈ itemsDeleted entry, item ∈ Log.created earlier
  count : c.itemCount + log.deleted.length = log.created.length
  updates : ∀ item content,
    (c.updateContent item content).1 = true ↔ item ∈ log.created ∧ item ∉ log.deleted
  refuses : ∀ item, ¬ (item ∈ log.created ∧ item ∉ log.deleted) →
    c.getItem item = none ∧ (∀ predicates, (c.tagItem item predicates).1 = false) ∧
      ∀ predicates content, (c.put ⟨predicates, some item⟩ content).1.item? = none

/-- As long as the item table is spared, items are numbered in the order of their creation, each is
deleted once at most, and the others are the ones that there are. -/
theorem run_keeps_ledger (events : List Event) (spared : ∀ event ∈ events, event.SparesItems) :
    Ledger (initial.run events).1 (initial.run events).2 where
  consecutive := created_eq spared
  once := (List.nodup_append.mp (nodup_left_and_deleted spared)).2.1
  createdBefore := fun _ _ _ split _ gone => created_before_deleted spared split gone
  count := by
    rw [itemCount_eq, ← List.length_append]
    exact (initial_run_conserved spared).length_eq
  updates := by
    intro item content
    rw [updateContent_iff, holds_iff_log spared]
  refuses := by
    intro item other
    have sound : (initial.run events).2.Sound := reachable_sound (Reachable.initial.run events)
    have absent := mt (holds_iff_log spared).mp other
    exact ⟨getItem_of_not_holds sound absent, tagItem_of_not_holds sound absent,
      put_of_not_holds sound absent⟩

/-- An item cannot be tagged for want of links, another one is deleted, and a third one comes after
that. -/
def eventful : List Event :=
  [.operation (.put ⟨.ofList [⟨.includes, "foo"⟩], none⟩ "first"),
    .operation (.addItem "second" (.ofList [⟨.includes, "foo"⟩])), .damage .dropLinks,
    .operation (.addItem "untagged" (.ofList [⟨.includes, "bar"⟩])), .reopen, .damage (.spoil 1),
    .operation (.deleteItems ⟨.empty, some 1⟩), .operation (.deleteItems ⟨.empty, some 2⟩),
    .damage .dropTags, .operation (.put ⟨.empty, none⟩ "third")]

theorem eventful_ledger :
    (∀ event ∈ eventful, event.SparesItems) ∧
      Ledger (initial.run eventful).1 (initial.run eventful).2 ∧
      Log.created (initial.run eventful).1 = [1, 2, 3] ∧
      Log.deleted (initial.run eventful).1 = [2] := by
  have spared : ∀ event ∈ eventful, event.SparesItems := by decide
  exact ⟨spared, run_keeps_ledger eventful spared, by decide +kernel, by decide +kernel⟩

end Catalog
end TaggedItems
