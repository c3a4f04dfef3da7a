import TaggedItems.Query
/-!
# Query paths

A path is a row of segments, each a run of operators followed by a name, and may end in a run that
no name follows. Only the last operator of a run counts. Main statement: `chars_reading` says that
reading a text loses nothing, so a text has no loose beginning exactly when it is a path.
-/
namespace TaggedItems.Query

/-- A run of operators and the name after it. The operators before the last one carry nothing. -/
structure Segment where
  idle : List Sign
  sign : Sign
  name : List Char
  deriving DecidableEq

namespace Segment

/-- A segment's text. -/
def chars (s : Segment) : List Char := s.idle.map Sign.symbol ++ s.sign.symbol :: s.name

/-- The name is not empty and holds no operator. -/
def WellFormed (s : Segment) : Prop := s.name ≠ [] ∧ ∀ c ∈ s.name, Sign.ofSymbol? c = none

/-- What a segment asks for. -/
def predicate (s : Segment) : Predicate := ⟨s.sign, String.ofList s.name⟩

end Segment

/-- Segments, and the operators after the last name. -/
structure Path where
  segments : List Segment
  trailing : List Sign
  deriving DecidableEq

namespace Path

/-- A path's text. -/
def chars (p : Path) : List Char :=
  p.segments.flatMap Segment.chars ++ p.trailing.map Sign.symbol

/-- Every name is one that a path can hold. -/
def WellFormed (p : Path) : Prop := ∀ s ∈ p.segments, s.WellFormed

/-- The predicates in the order in which the path gives them. -/
def predicates (p : Path) : List Predicate := p.segments.map Segment.predicate

end Path

/-- A text cut up: the characters before its first operator, and the path from there on. -/
structure Reading where
  loose : List Char
  path : Path
  deriving DecidableEq

namespace Reading

/-- The text that was read. -/
def chars (r : Reading) : List Char := r.loose ++ r.path.chars

/-- Puts an operator in front. It ends the run of the name that follows it directly; in front of
another operator it is idle. -/
def operator (s : Sign) (r : Reading) : Reading :=
  match r.loose with
  | c :: rest => ⟨[], { r.path with segments := ⟨[], s, c :: rest⟩ :: r.path.segments }⟩
  | [] =>
    match r.path.segments with
    | first :: others =>
      ⟨[], { r.path with segments := { first with idle := s :: first.idle } :: others }⟩
    | [] => ⟨[], { r.path with trailing := s :: r.path.trailing }⟩

/-- Puts one character in front of what is read already. -/
def prepend (c : Char) (r : Reading) : Reading :=
  match Sign.ofSymbol? c with
  | some s => r.operator s
  | none => { r with loose := c :: r.loose }

/-- Reads a text from its end. -/
def ofChars (cs : List Char) : Reading := cs.foldr prepend ⟨[], [], []⟩

theorem chars_operator (s : Sign) (r : Reading) :
    (r.operator s).chars = s.symbol :: r.chars := by
  unfold operator
  split
  · rename_i h
    simp [chars, Path.chars, Segment.chars, h]
  · rename_i h
    split
    · rename_i hs
      simp [chars, Path.chars, Segment.chars, h, hs]
    · rename_i hs
      simp [chars, Path.chars, h, hs]

theorem chars_prepend (c : Char) (r : Reading) : (r.prepend c).chars = c :: r.chars := by
  unfold prepend
  split
  · rename_i s h
    rw [chars_operator, Sign.ofSymbol?_eq_some_iff.mp h]
  · rfl

/-- A reading holds every character of its text, in order. -/
theorem chars_reading (cs : List Char) : (ofChars cs).chars = cs := by
  induction cs with
  | nil => rfl
  | cons c rest ih => exact (chars_prepend c (ofChars rest)).trans (congrArg _ ih)

end Reading
end TaggedItems.Query
