/-!
# Hexadecimal digits

One digit at a time, written in lower case and read in either case. Main statement: `digit?_char`
reads back what is written.
-/
namespace TaggedItems.Hex

/-- The value of a hexadecimal digit of either case. -/
def digit? (c : Char) : Option Nat :=
  if '0' ≤ c ∧ c ≤ '9' then some (c.toNat - '0'.toNat)
  else if 'a' ≤ c ∧ c ≤ 'f' then some (c.toNat - 'a'.toNat + 10)
  else if 'A' ≤ c ∧ c ≤ 'F' then some (c.toNat - 'A'.toNat + 10)
  else none

/-- The lower-case digit of a value below sixteen. -/
def char (d : Nat) : Char :=
  if d < 10 then Char.ofNat ('0'.toNat + d) else Char.ofNat ('a'.toNat + (d - 10))

/-- Both digits of a value below 256. -/
def pair (n : Nat) : List Char := [char (n / 16), char (n % 16)]

theorem digit?_char {d : Nat} (h : d < 16) : digit? (char d) = some d := by
  have all : ∀ e : Fin 16, digit? (char e.val) = some e.val := by decide
  exact all ⟨d, h⟩

end TaggedItems.Hex
