import TaggedItems.PredicateSet
/-!
# Queries

A query asks for the items that satisfy a set of predicates, or for one item by its identity if
that item satisfies them.
-/
namespace TaggedItems

/-- Predicates, and the one item they are asked of, if there is one. -/
structure Query where
  predicates : PredicateSet
  target : Option Identity
  deriving DecidableEq

namespace Query

/-- The canonical text: the target as if it were an included tag, then the predicates. -/
def text (q : Query) : String :=
  match q.target with
  | some i => "/" ++ Decimal.text i ++ q.predicates.text
  | none => q.predicates.text

end Query
end TaggedItems
