import TaggedItems.Decimal
/-!
# Identities

Items and tags are numbered. A name that spells a number in decimal can stand for the item of that
number.
-/
namespace TaggedItems

/-- The number of an item or of a tag. A caller may ask for any number; only positive ones are
ever handed out. -/
abbrev Identity := Int

namespace Identity

/-- The largest number that a name can spell. -/
def largest : Nat := 9223372036854775807

/-- The identity that a name spells: decimal digits, zeros allowed in front, up to the largest. -/
def ofName? (name : String) : Option Identity :=
  match Decimal.natural? name.toList with
  | some n => if n ≤ largest then some n else none
  | none => none

theorem ofName?_eq_some_iff {name : String} {i : Identity} :
    ofName? name = some i ↔
      ∃ n : Nat, Decimal.natural? name.toList = some n ∧ n ≤ largest ∧ i = n := by
  unfold ofName?
  cases Decimal.natural? name.toList with
  | none => simp
  | some n => grind

end Identity
end TaggedItems
