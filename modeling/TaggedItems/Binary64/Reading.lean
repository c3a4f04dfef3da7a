import TaggedItems.Binary64.Basic
import TaggedItems.Decimal
/-!
# Reading double-precision numbers

A number is written as decimal digits with an optional point among or beside them and an optional
power of ten behind an `e`, or by name.
-/
namespace TaggedItems.Binary64

/-- Takes a sign from the front, with whether it was a minus. -/
def takeSign : List Char → Bool × List Char
  | '-' :: rest => (true, rest)
  | '+' :: rest => (false, rest)
  | cs => (false, cs)

/-- The power of ten that follows the digits, if anything does. -/
def power? : List Char → Option Int
  | [] => some 0
  | c :: rest =>
    if c = 'e' ∨ c = 'E' then
      let (negative, digits) := takeSign rest
      (Decimal.natural? digits).map fun n => if negative then -(n : Int) else n
    else none

/-- A number without its sign. There is a digit on one side of the point at least. -/
def unsigned? (negative : Bool) (cs : List Char) : Option Binary64 :=
  let whole := cs.takeWhile Char.isDigit
  let rest := cs.dropWhile Char.isDigit
  let (fraction, exponent) := match rest with
    | '.' :: behind => (behind.takeWhile Char.isDigit, behind.dropWhile Char.isDigit)
    | _ => ([], rest)
  match Decimal.natural? (whole ++ fraction), power? exponent with
  | some digits, some power => some (ofDecimal negative digits (power - fraction.length))
  | _, _ => none

/-- The number that a text spells. The names of what is not finite may be in any case. -/
def ofText? (s : String) : Option Binary64 :=
  let (negative, cs) := takeSign s.toList
  match String.ofList (cs.map Char.toLower) with
  | "nan" => some .nan
  | "inf" | "infinity" => some (.infinite negative)
  | _ => unsigned? negative cs

end TaggedItems.Binary64
