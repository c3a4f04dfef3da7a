import TaggedItems.Identity
/-!
# Predicates

A predicate asks for a tag to be present or to be absent, and is written as an operator followed by
the tag's name.
-/
namespace TaggedItems

/-- What a predicate asks of its tag. -/
inductive Sign where
  | includes
  | excludes
  deriving DecidableEq

namespace Sign

/-- The operator character of a sign. -/
def symbol : Sign → Char
  | .includes => '/'
  | .excludes => '!'

/-- The sign of an operator character; every other character belongs to a name. -/
def ofSymbol? (c : Char) : Option Sign :=
  if c = '/' then some .includes else if c = '!' then some .excludes else none

@[simp] theorem ofSymbol?_symbol (s : Sign) : ofSymbol? s.symbol = some s := by
  cases s <;> rfl

theorem ofSymbol?_eq_some_iff {c : Char} {s : Sign} : ofSymbol? c = some s ↔ c = s.symbol := by
  unfold ofSymbol?
  cases s <;> grind [Sign.symbol]

end Sign

/-- A tag name and what is asked of it. -/
structure Predicate where
  sign : Sign
  name : String
  deriving DecidableEq

namespace Predicate

/-- The operator, then the name as it is. -/
def text (p : Predicate) : String := String.singleton p.sign.symbol ++ p.name

/-- The item that the name spells, if it is a number. -/
def identity? (p : Predicate) : Option Identity := Identity.ofName? p.name

end Predicate
end TaggedItems
