import Mathlib.Data.List.Induction
import TaggedItems.Proofs.Catalog.Keeping
/-!
# Numbers of tags

As long as its table is spared, a tag has the number of the use at which its name was first kept,
counted over all names that operations kept (`mem_keepAll`, `tags_run`). So the numbers that users
get are told by the log alone (`addTag_answers_first_use`).
-/
namespace TaggedItems

namespace Table

theorem counter_keepAll (table : Table Tag) (names : List String) :
    (table.keepAll names).counter = table.counter + names.length := by
  induction names generalizing table with
  | nil => exact (Int.add_zero _).symm
  | cons name rest ih =>
    calc (table.keepAll (name :: rest)).counter
      _ = table.counter + 1 + rest.length := ih (table.keep name)
      _ = table.counter + (name :: rest).length := by
        rw [List.length_cons, Int.add_assoc, Int.add_comm 1]
        rfl

/-- In a table that started empty, the tags are the names that were kept, each under the place of
its first use. -/
theorem mem_keepAll {names : List String} {tag : Tag} :
    tag ∈ (empty.keepAll names).rows ↔
      tag.name ∈ names ∧ tag.id = names.idxOf tag.name + 1 := by
  induction names using List.reverseRecOn generalizing tag with
  | nil => simp [keepAll, empty]
  | append_singleton names name ih =>
    have held : name ∈ (empty.keepAll names).rows.map Tag.name ↔ name ∈ names := by
      rw [List.mem_map]
      constructor
      · rintro ⟨tag, there, rfl⟩
        exact (ih.mp there).1
      · intro kept
        exact ⟨⟨names.idxOf name + 1, name⟩, ih.mpr ⟨kept, rfl⟩, rfl⟩
    have counter : (empty.keepAll names).counter = names.length := by
      rw [counter_keepAll]
      exact Int.zero_add _
    have next (new : name ∉ names) : (names ++ [name]).idxOf name = names.length := by
      simp [List.idxOf_append, new]
    rw [keepAll_append]
    change tag ∈ ((empty.keepAll names).keep name).rows ↔ _
    rw [mem_keep, held, counter, ih, List.mem_append, List.mem_singleton]
    constructor
    · rintro (⟨kept, is⟩ | ⟨new, rfl⟩)
      · exact ⟨.inl kept, by rw [List.idxOf_append_of_mem kept, is]⟩
      · exact ⟨.inr rfl, by rw [next new]⟩
    · rintro ⟨there, is⟩
      by_cases kept : tag.name ∈ names
      · exact .inl ⟨kept, by rwa [List.idxOf_append_of_mem kept] at is⟩
      · obtain ⟨id, own⟩ := tag
        obtain rfl : own = name := there.resolve_left kept
        exact .inr ⟨kept, by rw [← next kept, ← is]⟩

end Table

namespace Catalog
variable {c : Catalog} {table : Table Tag}

theorem tags_step (sound : c.Sound) (there : c.tags = some table) {event : Event}
    (spared : event.SparesTags) :
    (c.step event).2.tags = some (table.keepAll (namesKept (event, (c.step event).1))) := by
  cases event with
  | operation o =>
    have kept := tags_perform sound o
    rwa [there, Option.map_some] at kept
  | reopen =>
    change some (c.tags.getD .empty) = _
    rw [there]
    rfl
  | damage damage =>
    cases damage with
    | dropTags => exact absurd rfl spared.1
    | dropAll => exact absurd rfl spared.2
    | dropLinks | dropItems | spoil _ => exact there

/-- A run keeps the names that its log tells, one after the other. -/
theorem tags_run (sound : c.Sound) (there : c.tags = some table) {events : List Event}
    (spared : ∀ event ∈ events, event.SparesTags) :
    (c.run events).2.tags = some (table.keepAll (Log.kept (c.run events).1)) := by
  induction events generalizing c table with
  | nil => exact there
  | cons event later ih =>
    obtain ⟨first, spared⟩ := List.forall_mem_cons.mp spared
    have kept := tags_step sound there first
    exact (ih (step_sound sound event) kept spared).trans
      (congrArg some (Table.keepAll_append table _ _).symm)

/-- The entry of a call of `addTag` that told the number of a name. -/
def told (name : String) (id : Identity) : Event × Option Answer :=
  (.operation (.addTag name), some (.identity (some id)))

/-- The number that is told is the number of the tag that has the name from then on. -/
theorem exists_tag_of_addTag {name : String} {id : Identity} {d : Catalog}
    (h : c.perform (.addTag name) = (.identity (some id), d)) :
    ⟨id, name⟩ ∈ d.heldTags.rows := by
  rw [perform_eq] at h
  split at h
  · rename_i result work
    obtain ⟨⟨tag, kept⟩, keep, rfl⟩ := map_eq_ok.mp work
    cases h
    obtain ⟨held, rfl⟩ := mem_of_keepTag keep
    exact held
  · cases h

/-- The name is kept with the call itself, so it is found among the names up to the call. -/
theorem number_told {events : List Event} (spared : ∀ event ∈ events, event.SparesTags)
    {earlier later : Log} {name : String} {id : Identity}
    (h : (initial.run events).1 = earlier ++ told name id :: later) :
    id = (Log.kept (earlier ++ [told name id])).idxOf name + 1 := by
  obtain ⟨before, event, after, rfl, rfl, entry⟩ := run_log_split h
  obtain ⟨rfl, answered⟩ := Prod.mk.inj entry
  obtain ⟨spared, others⟩ := List.forall_mem_append.mp spared
  have sound : (initial.run before).2.Sound := reachable_sound (Reachable.initial.run before)
  have kept := tags_step sound (tags_run initial_sound rfl spared)
    (List.forall_mem_cons.mp others).1
  have held : ⟨id, name⟩ ∈ ((initial.run before).2.perform (.addTag name)).2.heldTags.rows :=
    exists_tag_of_addTag (Prod.ext (Option.some.inj answered).symm rfl)
  rw [← answered, ← Table.keepAll_append] at kept
  have tags : ((initial.run before).2.perform (.addTag name)).2.heldTags =
      Table.empty.keepAll (Log.kept ((initial.run before).1 ++ [told name id])) := by
    rw [Log.kept, List.flatMap_append]
    exact congrArg (·.getD .empty) kept
  rw [tags] at held
  exact (Table.mem_keepAll.mp held).2

/-- As long as the tag table is spared, `addTag` tells the place of the first use of its name among
all names that were kept up to the call. So it tells one number for each name, and each number for
one name. -/
theorem addTag_answers_first_use (events : List Event)
    (spared : ∀ event ∈ events, event.SparesTags) :
    (∀ earlier later name id, (initial.run events).1 = earlier ++ told name id :: later →
        id = (Log.kept (earlier ++ [told name id])).idxOf name + 1) ∧
      ∀ a b i j, told a i ∈ (initial.run events).1 → told b j ∈ (initial.run events).1 →
        (i = j ↔ a = b) := by
  have place {name : String} {id : Identity} (there : told name id ∈ (initial.run events).1) :
      name ∈ Log.kept (initial.run events).1 ∧
        id = (Log.kept (initial.run events).1).idxOf name + 1 := by
    obtain ⟨earlier, later, split⟩ := List.append_of_mem there
    have upTo : name ∈ Log.kept (earlier ++ [told name id]) := by simp [Log.kept, told, namesKept]
    have whole : Log.kept (initial.run events).1 =
        Log.kept (earlier ++ [told name id]) ++ Log.kept later := by
      rw [split]
      simp [Log.kept]
    rw [whole, List.idxOf_append_of_mem upTo]
    exact ⟨List.mem_append_left _ upTo, number_told spared split⟩
  refine ⟨fun earlier later name id split => number_told spared split, ?_⟩
  intro a b i j hi hj
  obtain ⟨kept, rfl⟩ := place hi
  obtain ⟨-, rfl⟩ := place hj
  rw [Int.add_left_inj, Int.ofNat_inj, List.idxOf_inj kept]

/-- Names are used again, by an operation that fails too, and the links are lost in between. -/
def busy : List Event :=
  [.operation (.addTag "a"),
    .operation (.addItem "" (.ofList [⟨.includes, "b"⟩, ⟨.includes, "a"⟩])),
    .damage .dropLinks, .operation (.addItem "" (.ofList [⟨.includes, "c"⟩])), .reopen,
    .operation (.tagItem 1 (.ofList [⟨.includes, "b"⟩, ⟨.excludes, "d"⟩])),
    .operation (.addTag "c"), .operation (.addTag "b")]

theorem busy_numbers :
    (∀ event ∈ busy, event.SparesTags) ∧
      (initial.run busy).1 = (initial.run (busy.take 6)).1 ++ told "c" 5 :: [told "b" 3] ∧
      (5 : Int) = ["a", "a", "b", "b", "c"].idxOf "c" + 1 ∧
      (told "b" 3 ∈ (initial.run busy).1 ∧ told "c" 5 ∈ (initial.run busy).1) ∧
      ((3 : Int) = 5 ↔ "b" = "c") := by
  have spared : ∀ event ∈ busy, event.SparesTags := by decide
  have log : (initial.run busy).1 =
      (initial.run (busy.take 6)).1 ++ told "c" 5 :: [told "b" 3] := by decide +kernel
  have names : Log.kept ((initial.run (busy.take 6)).1 ++ [told "c" 5]) =
      ["a", "a", "b", "b", "c"] := by decide +kernel
  obtain ⟨place, same⟩ := addTag_answers_first_use busy spared
  have three : told "b" 3 ∈ (initial.run busy).1 := by simp [log]
  have five : told "c" 5 ∈ (initial.run busy).1 := by simp [log]
  exact ⟨spared, log, names ▸ place _ _ _ _ log, ⟨three, five⟩, same _ _ _ _ three five⟩

end Catalog
end TaggedItems
