import TaggedItems.Catalog.Run
/-!
# Logs

What the log of a run tells by itself: the names that were kept, and the items that were created and
deleted. Each entry stands behind the log of what came before it (`run_log_split`).
-/
namespace TaggedItems

/-- What happened, and the answers that were given. -/
abbrev Log := List (Event × Option Answer)

/-- The names that an operation kept. One that refused, or found no item, kept none, and excluded
names are never kept. -/
def namesKept : Event × Option Answer → List String
  | (.operation (.addTag name), some (.identity (some _))) => [name]
  | (.operation (.addItem _ predicates), some (.identity (some _))) => predicates.includedNames
  | (.operation (.tagItem _ predicates), some (.done true)) => predicates.includedNames
  | (.operation (.put query _), some (.stored (.created _))) => query.predicates.includedNames
  | (.operation (.put query _), some (.stored (.updated _))) => query.predicates.includedNames
  | _ => []

/-- The item that an operation created. -/
def itemsCreated : Event × Option Answer → List Identity
  | (.operation (.addItem _ _), some (.identity (some item))) => [item]
  | (.operation (.put _ _), some (.stored (.created item))) => [item]
  | _ => []

/-- The items that an operation deleted. -/
def itemsDeleted : Event × Option Answer → List Identity
  | (.operation (.deleteItems _), some (.deleted items)) => items
  | _ => []

namespace Log

/-- All names that were kept, in order and with repetitions. -/
def kept (log : Log) : List String := log.flatMap namesKept

/-- All items that were created, in order. -/
def created (log : Log) : List Identity := log.flatMap itemsCreated

/-- All items that were deleted, in order. -/
def deleted (log : Log) : List Identity := log.flatMap itemsDeleted

end Log

/-- The event leaves the tag table where it is. -/
def Event.SparesTags (event : Event) : Prop :=
  event ≠ .damage .dropTags ∧ event ≠ .damage .dropAll

/-- The event leaves the item table where it is. -/
def Event.SparesItems (event : Event) : Prop :=
  event ≠ .damage .dropItems ∧ event ≠ .damage .dropAll

instance (event : Event) : Decidable event.SparesTags :=
  inferInstanceAs (Decidable (event ≠ .damage .dropTags ∧ event ≠ .damage .dropAll))

instance (event : Event) : Decidable event.SparesItems :=
  inferInstanceAs (Decidable (event ≠ .damage .dropItems ∧ event ≠ .damage .dropAll))

namespace Catalog
variable {c : Catalog}

/-- An entry of a log is an event that met the catalog which the events before it had left. -/
theorem run_log_split {events : List Event} {earlier later : Log} {entry : Event × Option Answer}
    (h : (c.run events).1 = earlier ++ entry :: later) :
    ∃ before event after, events = before ++ event :: after ∧ (c.run before).1 = earlier ∧
      entry = (event, ((c.run before).2.step event).1) := by
  induction events generalizing c earlier with
  | nil => simp [run] at h
  | cons event rest ih =>
    cases earlier with
    | nil =>
      obtain ⟨rfl, -⟩ := List.cons.inj h
      exact ⟨[], event, rest, rfl, rfl, rfl⟩
    | cons first earlier =>
      obtain ⟨rfl, split⟩ := List.cons.inj h
      obtain ⟨before, event', after, rfl, rfl, rfl⟩ := ih split
      exact ⟨event :: before, event', after, rfl, rfl, rfl⟩

end Catalog
end TaggedItems
