import TaggedItems.Ascending
import TaggedItems.Predicate
/-!
# Predicate sets

Predicates with distinct names, in ascending order of their names. A set is collected from a list
in which the first predicate of a name wins, whatever its sign, and is searched by halving.
-/
namespace TaggedItems

/-- Predicates in strictly ascending order of their names. -/
structure PredicateSet where
  entries : Array Predicate
  ascending : Ascending Predicate.name entries.toList
  deriving DecidableEq

namespace PredicateSet

/-- The predicates in ascending order of their names. -/
def toList (set : PredicateSet) : List Predicate := set.entries.toList

/-- The predicates of a list as they stand, in ascending order. -/
def ofAscending (entries : List Predicate) (h : Ascending Predicate.name entries) : PredicateSet :=
  ⟨entries.toArray, by simpa using h⟩

/-- Collecting keeps the order at every step. -/
theorem collected_ascending (predicates held : List Predicate)
    (h : Ascending Predicate.name held) :
    Ascending Predicate.name
      (predicates.foldl (fun held p => Ascending.insert Predicate.name p held) held) := by
  induction predicates generalizing held with
  | nil => exact h
  | cons p rest ih => exact ih _ (Ascending.insert_ascending h)

/-- Collects predicates. Of those that share a name the first one is kept. -/
def ofList (predicates : List Predicate) : PredicateSet :=
  ofAscending (predicates.foldl (fun held p => Ascending.insert Predicate.name p held) [])
    (collected_ascending predicates [] List.Pairwise.nil)

/-- The set that asks for nothing. -/
def empty : PredicateSet := ofAscending [] List.Pairwise.nil

@[simp] theorem toList_ofAscending (entries : List Predicate) (h) :
    (ofAscending entries h).toList = entries := by
  simp [ofAscending, toList]

@[ext] theorem ext {p q : PredicateSet} (h : p.toList = q.toList) : p = q := by
  obtain ⟨ps, _⟩ := p
  obtain ⟨qs, _⟩ := q
  have : ps = qs := Array.toList_inj.mp h
  subst this
  rfl

/-- The number of distinct names. -/
def size (set : PredicateSet) : Nat := set.entries.size

def isEmpty (set : PredicateSet) : Bool := set.entries.isEmpty

/-- Looks for a name among the entries from `low` up to but not including `high`, halving the
range at each step. -/
def search (entries : Array Predicate) (name : String) (low high : Nat)
    (within : high ≤ entries.size) : Option Predicate :=
  if h : low < high then
    let middle := (low + high) / 2
    have inside : middle < entries.size := by omega
    if entries[middle].name = name then some entries[middle]
    else if entries[middle].name < name then search entries name (middle + 1) high within
    else search entries name low middle (by omega)
  else none
termination_by high - low

/-- The predicate of a name. -/
def get? (set : PredicateSet) (name : String) : Option Predicate :=
  search set.entries name 0 set.entries.size (Nat.le_refl _)

/-- The predicates that ask for their tag. -/
def includes (set : PredicateSet) : List Predicate := set.toList.filter (·.sign = .includes)

/-- The predicates that refuse their tag. -/
def excludes (set : PredicateSet) : List Predicate := set.toList.filter (·.sign = .excludes)

/-- The names of the tags asked for, in ascending order. -/
def includedNames (set : PredicateSet) : List String := set.includes.map (·.name)

/-- The predicates' texts one after the other. -/
def text (set : PredicateSet) : String := String.join (set.toList.map (·.text))

end PredicateSet
end TaggedItems
