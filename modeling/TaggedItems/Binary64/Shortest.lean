import TaggedItems.Binary64.Basic
import TaggedItems.Decimal
/-!
# The shortest decimal text of a number

A number is written with the fewest digits that read back as the same number, and of those with
the nearest, always positionally and without a point where there is no fraction.
-/
namespace TaggedItems.Binary64

/-- A decimal number: digits times a power of ten. -/
structure Shortest where
  digits : Nat
  power : Int
  deriving DecidableEq

/-- The multiple of a power of ten that is nearest to a number of units among those that read back
as it, if there is one. Everything is counted in quarters of units. The bounds are half-way to the
neighbours, of which the lower one is closer where the spacing changes, and belong to the number
if it is even. Of two multiples that are equally near the greater one is taken. -/
def multiple? (units : Nat) (power : Int) : Option Nat :=
  let scale := Nat.pow 10 (-power).toNat
  let grid := 4 * (Nat.pow 10 power.toNat * one)
  let step := spacing units
  let value := 4 * units * scale
  let above := (4 * units + 2 * step) * scale
  let below :=
    (4 * units - if units = Nat.pow 2 units.log2 ∧ 1 < step then step else 2 * step) * scale
  let even := units / step % 2 = 0
  let down := value / grid
  let up := down + 1
  let downFits := below < down * grid ∨ even ∧ below = down * grid
  let upFits := up * grid < above ∨ even ∧ up * grid = above
  if downFits ∧ (upFits → value - down * grid < up * grid - value) then some down
  else if upFits then some up
  else none

/-- The largest power of ten that has a multiple which reads back, from one that is surely too
large downwards. No number needs more than forty steps. -/
def shortest (units : Nat) : Shortest :=
  let start : Int := (units.log2 - 1073 : Int) * 3 / 10 + 10
  let found := (List.range 40).findSome? fun (i : Nat) =>
    (multiple? units (start - i)).map fun digits => (⟨digits, start - i⟩ : Shortest)
  found.getD ⟨0, 0⟩

/-- Digits with zeros behind them, or with a point among or before them. -/
def Shortest.chars (s : Shortest) : List Char :=
  let digits := Decimal.digits s.digits
  let places := (-s.power).toNat
  if places = 0 then digits ++ List.replicate s.power.toNat '0'
  else
    let padded := List.replicate (places + 1 - digits.length) '0' ++ digits
    padded.take (padded.length - places) ++ '.' :: padded.drop (padded.length - places)

/-- The text of a number. -/
def text : Binary64 → String
  | .nan => "NaN"
  | .infinite negative => if negative then "-inf" else "inf"
  | .finite negative units =>
    let digits := if units = 0 then ['0'] else (shortest units).chars
    String.ofList (if negative then '-' :: digits else digits)

end TaggedItems.Binary64
