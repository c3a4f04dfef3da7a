import Mathlib.Data.Finmap
import Mathlib.Data.Finset.Sort
import TaggedItems.Catalog.Run
import TaggedItems.Proofs.Ascending
/-!
# Shelves

What users of a catalog need to know of it: a finite map from numbers to contents with tag names,
and how many numbers were issued. There are no tables, tags have no numbers, and nothing fails.
-/
namespace TaggedItems

/-- What users see of an item, next to its number. -/
structure Entry where
  content : String
  tags : TagSet
  deriving DecidableEq

/-- The entries by their numbers. -/
structure Shelf where
  entries : Finmap fun _ : Identity => Entry
  issued : Identity

/-- What users do with a catalog. -/
inductive Use where
  | operation (o : Operation)
  | reopen
  deriving DecidableEq

def Use.event : Use → Event
  | .operation o => .operation o
  | .reopen => .reopen

/-- Each included name is on the item and each excluded one is not, and none spells its number. -/
def PredicateSet.Accepts (predicates : PredicateSet) (item : Item) : Prop :=
  ∀ p ∈ predicates.toList,
    p.identity? ≠ some item.id ∧ (p.sign = .includes ↔ p.name ∈ item.tags)

instance (predicates : PredicateSet) (item : Item) : Decidable (predicates.Accepts item) :=
  inferInstanceAs (Decidable (∀ p ∈ predicates.toList,
    p.identity? ≠ some item.id ∧ (p.sign = .includes ↔ p.name ∈ item.tags)))

theorem Item.meets_iff {item : Item} {p : Predicate} :
    item.meets p = true ↔
      p.identity? ≠ some item.id ∧ (p.sign = .includes ↔ p.name ∈ item.tags) := by
  obtain ⟨sign, name⟩ := p
  by_cases own : (Predicate.mk sign name).identity? = some item.id
  · simp [Item.meets, own]
  · cases sign <;> simp [Item.meets, own, TagSet.contains]

theorem PredicateSet.accepts_iff {predicates : PredicateSet} {item : Item} :
    predicates.Accepts item ↔ item.satisfies predicates = true := by
  rw [Item.satisfies, List.all_eq_true]
  exact forall₂_congr fun _ _ => Item.meets_iff.symm

/-- The included names come to the tags, and the excluded ones go. -/
def Entry.retag (predicates : PredicateSet) (entry : Entry) : Entry :=
  { entry with
    tags := (entry.tags ∪ .ofList predicates.includedNames) \
      .ofList (predicates.excludes.map (·.name)) }

def Entry.rewrite (content : String) (entry : Entry) : Entry := { entry with content := content }

namespace Shelf
variable {s : Shelf} {item i : Identity} {predicates : PredicateSet}

def initial : Shelf := ⟨∅, 0⟩

def item? (s : Shelf) (item : Identity) : Option Item :=
  (s.entries.lookup item).map fun entry => ⟨item, entry.content, entry.tags⟩

/-- A new entry gets the next number. -/
def add (s : Shelf) (content : String) (predicates : PredicateSet) : Shelf :=
  ⟨s.entries.insert (s.issued + 1) ⟨content, .ofList predicates.includedNames⟩, s.issued + 1⟩

/-- Changes an entry, if there is one. -/
def change (s : Shelf) (item : Identity) (f : Entry → Entry) : Shelf :=
  match s.entries.lookup item with
  | some entry => { s with entries := s.entries.insert item (f entry) }
  | none => s

/-- With a target that item is found, and without one every item that has a tag, if it is
accepted. -/
def find (s : Shelf) (predicates : PredicateSet) : Option Identity → List Item
  | some item => (s.item? item).toList.filter fun found => predicates.Accepts found
  | none => ((s.entries.keys.sort (· ≤ ·)).filterMap s.item?).filter fun found =>
      found.tags ≠ .empty ∧ predicates.Accepts found

def delete (s : Shelf) (items : List Identity) : Shelf :=
  { s with entries := items.foldl (fun entries item => entries.erase item) s.entries }

/-- Empty content leaves the content of an entry as it is. -/
def put (s : Shelf) (query : Query) (content : String) : Catalog.Outcome × Shelf :=
  match query.target with
  | none => (.created (s.issued + 1), s.add content query.predicates)
  | some item =>
    if item ∈ s.entries then
      let tagged := s.change item (.retag query.predicates)
      (.updated item, if content = "" then tagged else tagged.change item (.rewrite content))
    else (.missing item, s)

/-- The answer is left open for tags, as a shelf does not number them. -/
def perform (s : Shelf) : Operation → Option Answer × Shelf
  | .addTag _ => (none, s)
  | .addItem content predicates =>
    (some (.identity (some (s.issued + 1))), s.add content predicates)
  | .tagItem item predicates =>
    (some (.done (item ∈ s.entries)), s.change item (.retag predicates))
  | .updateContent item content =>
    (some (.done (item ∈ s.entries)), s.change item (.rewrite content))
  | .getItem item => (some (.item (s.item? item)), s)
  | .getItems predicates target => (some (.items (s.find predicates target)), s)
  | .deleteItems query =>
    let found := (s.find query.predicates query.target).map (·.id)
    (some (.deleted found), s.delete found)
  | .put query content => (s.put query content).map (some ∘ .stored) id
  | .itemCount => (some (.count s.entries.keys.card), s)

/-- Opening a shelf anew changes nothing. -/
def step (s : Shelf) : Use → Option Answer × Shelf
  | .operation o => s.perform o
  | .reopen => (none, s)

def run (s : Shelf) : List Use → List (Option Answer) × Shelf
  | [] => ([], s)
  | use :: later =>
    let (answer, changed) := s.step use
    let (answers, final) := changed.run later
    (answer :: answers, final)

/-! ## What each operation leaves under a number -/

theorem item?_eq_some_iff {found : Item} :
    s.item? item = some found ↔
      found.id = item ∧ s.entries.lookup item = some ⟨found.content, found.tags⟩ := by
  obtain ⟨id, content, tags⟩ := found
  simp only [item?, Option.map_eq_some_iff, Item.mk.injEq]
  constructor
  · rintro ⟨entry, held, rfl, rfl, rfl⟩
    exact ⟨rfl, held⟩
  · rintro ⟨rfl, held⟩
    exact ⟨_, held, rfl, rfl, rfl⟩

theorem lookup_add (s : Shelf) (content : String) (predicates : PredicateSet) (i : Identity) :
    (s.add content predicates).entries.lookup i =
      if i = s.issued + 1 then some ⟨content, .ofList predicates.includedNames⟩
      else s.entries.lookup i := by
  split
  · rename_i same
    subst same
    exact Finmap.lookup_insert _
  · rename_i differs
    exact Finmap.lookup_insert_of_ne _ differs

theorem lookup_change (s : Shelf) (item : Identity) (f : Entry → Entry) (i : Identity) :
    (s.change item f).entries.lookup i =
      if i = item then (s.entries.lookup i).map f else s.entries.lookup i := by
  unfold change
  split
  · rename_i entry held
    split
    · rename_i same
      subst same
      rw [Finmap.lookup_insert, held, Option.map_some]
    · rename_i differs
      exact Finmap.lookup_insert_of_ne _ differs
  · rename_i absent
    split
    · rename_i same
      subst same
      rw [absent, Option.map_none]
    · rfl

@[simp] theorem issued_change (s : Shelf) (item : Identity) (f : Entry → Entry) :
    (s.change item f).issued = s.issued := by
  unfold change
  split <;> rfl

theorem change_eq_self (h : item ∉ s.entries) (f : Entry → Entry) : s.change item f = s := by
  rw [change, Finmap.lookup_eq_none.mpr h]

theorem lookup_delete (s : Shelf) (items : List Identity) (i : Identity) :
    (s.delete items).entries.lookup i = if i ∈ items then none else s.entries.lookup i := by
  induction items generalizing s with
  | nil => simp [delete]
  | cons item rest ih =>
    apply (ih { s with entries := s.entries.erase item }).trans
    by_cases later : i ∈ rest
    · simp [later]
    · by_cases same : i = item
      · subst same
        simp [Finmap.lookup_erase]
      · simp [later, same, Finmap.lookup_erase_ne same]

/-! ## What is found -/

theorem mem_find {target : Option Identity} {found : Item} :
    found ∈ s.find predicates target ↔
      s.item? found.id = some found ∧ predicates.Accepts found ∧
        match target with
        | some item => found.id = item
        | none => found.tags ≠ .empty := by
  cases target with
  | some item =>
    simp only [find, List.mem_filter, Option.mem_toList, decide_eq_true_eq]
    constructor
    · rintro ⟨shown, accepted⟩
      obtain ⟨rfl, -⟩ := item?_eq_some_iff.mp shown
      exact ⟨shown, accepted, rfl⟩
    · rintro ⟨shown, accepted, rfl⟩
      exact ⟨shown, accepted⟩
  | none =>
    simp only [find, List.mem_filter, List.mem_filterMap, Finset.mem_sort, decide_eq_true_eq]
    constructor
    · rintro ⟨⟨item, -, shown⟩, tagged, accepted⟩
      obtain ⟨rfl, -⟩ := item?_eq_some_iff.mp shown
      exact ⟨shown, accepted, tagged⟩
    · rintro ⟨shown, accepted, tagged⟩
      have held := (item?_eq_some_iff.mp shown).2
      exact ⟨⟨_, Finmap.mem_keys.mpr (Finmap.mem_of_lookup_eq_some held), shown⟩, tagged, accepted⟩

theorem find_ascending (s : Shelf) (predicates : PredicateSet) (target : Option Identity) :
    (s.find predicates target).Pairwise fun a b => a.id < b.id := by
  cases target with
  | some item =>
    apply List.Pairwise.filter
    cases s.item? item <;> simp
  | none =>
    apply List.Pairwise.filter
    apply List.Pairwise.filterMap _ _ (Finset.sortedLT_sort _).pairwise
    intro a b below found shown other otherShown
    obtain ⟨rfl, -⟩ := item?_eq_some_iff.mp shown
    obtain ⟨rfl, -⟩ := item?_eq_some_iff.mp otherShown
    exact below

end Shelf
end TaggedItems
