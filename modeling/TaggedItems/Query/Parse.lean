import TaggedItems.Failure
import TaggedItems.Query.Path
/-!
# Parsing queries

A path is read into its segments; of the segments that share a name the first one counts. If the
very first of them includes a number, that number is the target and no tag.
-/
namespace TaggedItems

/-- The item that a predicate targets where it stands first: an included number. -/
def Predicate.target? (p : Predicate) : Option Identity :=
  match p.sign with
  | .includes => p.identity?
  | .excludes => none

namespace Query

/-- Keeps the first predicate of each name, in the order of the list. -/
def firstOfEachName : List Predicate → List Predicate
  | [] => []
  | p :: rest => p :: (firstOfEachName rest).filter (·.name ≠ p.name)

/-- The query that predicates ask in the order in which they were scanned. Without any there is
no query. -/
def ofScanned? (scanned : List Predicate) : Option Query :=
  match firstOfEachName scanned with
  | [] => none
  | first :: others =>
    match first.target? with
    | some i => some ⟨.ofList others, some i⟩
    | none => some ⟨.ofList (first :: others), none⟩

/-- Parses a path. A path that does not begin with an operator is malformed, and one without any
name is empty. -/
def parse (path : String) : Except Failure Query :=
  let reading := Reading.ofChars path.toList
  if reading.loose = [] then
    match ofScanned? reading.path.predicates with
    | some q => .ok q
    | none => .error (.emptyQuery path)
  else .error (.malformedQuery "a query path must start with '/' or '!'" 0)

end Query
end TaggedItems
