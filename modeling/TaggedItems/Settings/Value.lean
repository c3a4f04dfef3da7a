import TaggedItems.Binary64.Reading
import TaggedItems.Binary64.Shortest
/-!
# Setting values

A setting comes as a value of some kind, depending on where it is written, and is converted to the
kind that its field needs. Conversion is generous between single values. Arrays and tables fit no
field, so nothing is kept of what they hold.
-/
namespace TaggedItems.Settings

/-- A value as it was found. -/
inductive Value where
  | null
  | bool (b : Bool)
  | int (i : Int)
  | float (x : Binary64)
  | text (s : String)
  | composite
  deriving DecidableEq

/-- The words for yes and no that any text may be. Case does not matter. -/
def wordFlag? (s : String) : Option Bool :=
  if s ∈ ["true", "on", "yes"] then some true
  else if s ∈ ["false", "off", "no"] then some false
  else none

/-- The letters of a text in lower case. -/
def lowerCase (s : String) : String := String.ofList (s.toList.map Char.toLower)

/-- A natural number, which may have a plus in front. -/
def naturalText? (cs : List Char) : Option Nat :=
  match cs with
  | '+' :: digits => Decimal.natural? digits
  | digits => Decimal.natural? digits

/-- Whether a whole number has at most 63 binary digits. -/
def fitsWord (i : Int) : Bool := -9223372036854775808 ≤ i && i ≤ 9223372036854775807

/-- The first natural number of more than 64 binary digits. -/
def naturalLimit : Nat := 18446744073709551616

/-- The number of ports. -/
def portLimit : Nat := 65536

/-- A whole number of at most 63 binary digits and a sign. -/
def integerText? (s : String) : Option Int :=
  let value := match s.toList with
    | '-' :: digits => (Decimal.natural? digits).map fun n => -(n : Int)
    | cs => (naturalText? cs).map fun n => (n : Int)
  value.filter fitsWord

namespace Value

/-- What a text is in a place where kinds cannot be written: a truth value, a number, or else the
text itself. -/
def ofText (s : String) : Value :=
  match lowerCase s with
  | "true" => .bool true
  | "false" => .bool false
  | _ =>
    match integerText? s with
    | some i => .int i
    | none =>
      match Binary64.ofText? s with
      | some x => .float x
      | none => .text s

/-- A value as text. -/
def text? : Value → Option String
  | .bool b => some (if b then "true" else "false")
  | .int i => some (Decimal.text i)
  | .float x => some x.text
  | .text s => some s
  | .null | .composite => none

/-- A value as yes or no. A number means yes unless it is zero. -/
def flag? : Value → Option Bool
  | .bool b => some b
  | .int i => some (i ≠ 0)
  | .float x => some !x.isZero
  | .text s =>
    match lowerCase s with
    | "1" => some true
    | "0" => some false
    | word => wordFlag? word
  | .null | .composite => none

/-- A value as a natural number below the limit. What is not whole is rounded. -/
def natural? : Value → Option Nat
  | .bool b => some (if b then 1 else 0)
  | .int i => if 0 ≤ i then some i.toNat else none
  | .float x => some (x.toNatUpTo (naturalLimit - 1))
  | .text s =>
    match wordFlag? (lowerCase s) with
    | some b => some (if b then 1 else 0)
    | none => (naturalText? s.toList).filter (· < naturalLimit)
  | .null | .composite => none

/-- A value as the number of a network port. -/
def port? (v : Value) : Option Nat := v.natural?.filter (· < portLimit)

end Value
end TaggedItems.Settings
