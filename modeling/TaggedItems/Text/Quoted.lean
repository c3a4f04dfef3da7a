import TaggedItems.Hex
/-!
# Quoted text

A text between double quotes in which control characters can be seen, for messages to people.
-/
namespace TaggedItems.Text.Quoted

/-- A control character by its number, in as many digits as it needs. -/
def numbered (c : Char) : List Char :=
  let digits := if c.toNat < 16 then [Hex.char c.toNat] else Hex.pair c.toNat
  ['\\', 'u', '\x7b'] ++ digits ++ ['\x7d']

/-- A quote, a backslash and the usual control characters have an escape of their own; any other
control character is numbered. -/
def escape (c : Char) : List Char :=
  if c = '"' ∨ c = '\\' then ['\\', c]
  else if c = '\t' then ['\\', 't']
  else if c = '\n' then ['\\', 'n']
  else if c = '\r' then ['\\', 'r']
  else if c = '\x00' then ['\\', '0']
  else if c.toNat < 0x20 ∨ 0x7f ≤ c.toNat ∧ c.toNat < 0xa0 then numbered c
  else [c]

/-- The text in double quotes. -/
def encode (s : String) : String :=
  String.ofList ('"' :: s.toList.flatMap escape ++ ['"'])

end TaggedItems.Text.Quoted
