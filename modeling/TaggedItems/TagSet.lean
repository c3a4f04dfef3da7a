import TaggedItems.Ascending
/-!
# Tag sets

The names of an item's tags. Names are kept in ascending order, so that the history of insertions
leaves no trace. Main statement: `mem_insert`.
-/
namespace TaggedItems

/-- Distinct tag names in ascending order. -/
structure TagSet where
  names : List String
  ascending : Ascending id names
  deriving DecidableEq

namespace TagSet

/-- The set without names. -/
def empty : TagSet := ⟨[], List.Pairwise.nil⟩

instance : Membership String TagSet := ⟨fun set name => name ∈ set.names⟩

instance (set : TagSet) (name : String) : Decidable (name ∈ set) :=
  inferInstanceAs (Decidable (name ∈ set.names))

/-- Adds a name. -/
def insert (set : TagSet) (name : String) : TagSet :=
  ⟨Ascending.insert id name set.names, Ascending.insert_ascending set.ascending⟩

/-- Adds a name, and says whether it is new. -/
def add (set : TagSet) (name : String) : Bool × TagSet := (name ∉ set, set.insert name)

/-- Collects names in any order, with or without repetitions. -/
def ofList (names : List String) : TagSet := names.foldl insert empty

def contains (set : TagSet) (name : String) : Bool := name ∈ set

def isEmpty (set : TagSet) : Bool := set.names.isEmpty

/-- Every name behind a slash. -/
def text (set : TagSet) : String := String.join (set.names.map ("/" ++ ·))

theorem mem_insert {set : TagSet} {name other : String} :
    other ∈ set.insert name ↔ other = name ∨ other ∈ set := by
  change other ∈ Ascending.insert id name set.names ↔ other = name ∨ other ∈ set.names
  rw [Ascending.mem_insert set.ascending]
  by_cases held : name ∈ set.names <;> grind

theorem mem_foldl_insert {names : List String} {set : TagSet} {name : String} :
    name ∈ names.foldl insert set ↔ name ∈ names ∨ name ∈ set := by
  induction names generalizing set with
  | nil => simp
  | cons first rest ih => simp [ih, mem_insert, or_assoc, or_left_comm]

theorem mem_ofList {names : List String} {name : String} : name ∈ ofList names ↔ name ∈ names := by
  rw [ofList, mem_foldl_insert]
  exact ⟨fun h => h.resolve_right (List.not_mem_nil), .inl⟩

end TagSet
end TaggedItems
