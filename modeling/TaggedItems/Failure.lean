import TaggedItems.Decimal
import TaggedItems.Text.Quoted
/-!
# Failures

What can go wrong, and the message for each cause.
-/
namespace TaggedItems

/-- The cause of a failure. Only the two about queries lie with the request itself. -/
inductive Failure where
  | configuration (detail : String)
  | persistence (detail : String)
  | emptyQuery (path : String)
  | malformedQuery (detail : String) (position : Nat)
  | lockPoisoned (detail : String)
  deriving DecidableEq

namespace Failure

/-- Whether the request caused the failure rather than the service. -/
def isQueryFailure : Failure → Bool
  | .emptyQuery _ | .malformedQuery _ _ => true
  | .configuration _ | .persistence _ | .lockPoisoned _ => false

/-- The message that people see. A position is counted in bytes. -/
def message : Failure → String
  | .configuration detail => "Config error: " ++ detail
  | .persistence detail => "Persistence error: " ++ detail
  | .emptyQuery path => "Empty query: " ++ Text.Quoted.encode path ++ " names no tags"
  | .malformedQuery detail position =>
    "Malformed query: " ++ detail ++ " (at byte " ++ Decimal.text position ++ ")"
  | .lockPoisoned detail => "Lock poisoned: " ++ detail

end Failure
end TaggedItems
