import TaggedItems.Settings.Value
/-!
# JSON numbers

A number is whole or has a fraction or a power of ten. Whole numbers that 64 bits hold, with a sign
or without one, are exact. Any other number keeps as many of its leading digits as 64 bits hold and
is scaled by one power of ten, with a rounding at each step, so that it may be off by a bit or two
from the nearest double.
-/
namespace TaggedItems.Json

open Settings (Value)

/-- A number cut into its parts. -/
structure Numeral where
  negative : Bool
  whole : List Char
  fraction : List Char
  power : Option Int
  deriving DecidableEq

namespace Numeral

/-- Digits at the front, of which there must be one at least. -/
def takeDigits? (cs : List Char) : Option (List Char × List Char) :=
  let digits := cs.takeWhile Char.isDigit
  if digits = [] then none else some (digits, cs.dropWhile Char.isDigit)

/-- A point and the digits behind it, if there is a point. -/
def takeFraction? : List Char → Option (List Char × List Char)
  | '.' :: rest => takeDigits? rest
  | cs => some ([], cs)

/-- A power of ten, if there is one. -/
def takePower? : List Char → Option (Option Int × List Char)
  | [] => some (none, [])
  | c :: rest =>
    if c = 'e' ∨ c = 'E' then do
      let (negative, unsigned) := Binary64.takeSign rest
      let (digits, behind) ← takeDigits? unsigned
      let n ← Decimal.natural? digits
      pure (some (if negative then -(n : Int) else n), behind)
    else some (none, c :: rest)

/-- A number at the front of a text, and the rest. No other digit follows a zero in front. -/
def take? (cs : List Char) : Option (Numeral × List Char) := do
  let (negative, unsigned) := match cs with
    | '-' :: rest => (true, rest)
    | _ => (false, cs)
  let (whole, afterWhole) ← takeDigits? unsigned
  if whole.head? = some '0' ∧ whole.length ≠ 1 then none
  else
    let (fraction, afterFraction) ← takeFraction? afterWhole
    let (power, rest) ← takePower? afterFraction
    pure (⟨negative, whole, fraction, power⟩, rest)

/-- Appends digits to a number as long as 64 bits hold it. What is left over is returned. -/
def absorb (n : Nat) : List Char → Nat × List Char
  | [] => (n, [])
  | c :: rest =>
    let longer := 10 * n + (Decimal.digit? c).getD 0
    if longer < Settings.naturalLimit then absorb longer rest else (n, c :: rest)

/-- The units of a power of ten in the table, which goes up to the largest finite one. -/
def tableUnits (power : Nat) : Nat :=
  match Binary64.ofRatio false (Nat.pow 10 power) 1 with
  | .finite _ units => units
  | _ => 0

/-- The product of two finite numbers. -/
def multiply (x : Binary64) (units : Nat) : Binary64 :=
  match x with
  | .finite negative own => .ofUnits negative (own * units) Binary64.one
  | _ => x

/-- The quotient of two finite numbers. -/
def divide (x : Binary64) (units : Nat) : Binary64 :=
  match x with
  | .finite negative own => .ofUnits negative (own * Binary64.one) units
  | _ => x

/-- Digits times a power of ten. What is too large is refused, and what is too small is zero. -/
def scaled? (negative : Bool) (digits : Nat) (power : Int) : Option Binary64 :=
  let x := Binary64.ofRatio negative digits 1
  if digits = 0 then some x
  else if 308 < power then none
  else if 0 ≤ power then
    match multiply x (tableUnits power.toNat) with
    | .infinite _ => none
    | product => some product
  else if -308 ≤ power then some (divide x (tableUnits (-power).toNat))
  else if -616 ≤ power then
    some (divide (divide x (tableUnits 308)) (tableUnits (-power - 308).toNat))
  else some (.finite negative 0)

/-- The value of a number. A whole number that 64 bits hold is exact, except that zero with a minus
is a double. -/
def value? (n : Numeral) : Option Value :=
  let (whole, unread) := absorb 0 n.whole
  let exact : Int := if n.negative then -whole else whole
  let isDouble := n.fraction ≠ [] ∨ n.power ≠ none ∨ unread ≠ [] ∨ n.negative ∧ whole = 0
  if ¬ isDouble ∧ (Settings.fitsWord exact ∨ ¬ n.negative) then some (.int exact)
  else
    let (digits, dropped) := absorb whole n.fraction
    let read := n.fraction.length - dropped.length
    let power := (unread.length : Int) - read + n.power.getD 0
    (scaled? n.negative digits power).map .float

end Numeral
end TaggedItems.Json
