import TaggedItems.Hex
/-!
# Compact JSON text

How answers are written: without blanks, and with as few escapes as JSON allows.
-/
namespace TaggedItems.Json

/-- A quote, a backslash and the control characters are escaped, the common ones by a letter and
the others by their number in four digits. -/
def escape (c : Char) : List Char :=
  if c = '"' ∨ c = '\\' then ['\\', c]
  else if c = '\x08' then ['\\', 'b']
  else if c = '\t' then ['\\', 't']
  else if c = '\n' then ['\\', 'n']
  else if c = '\x0c' then ['\\', 'f']
  else if c = '\r' then ['\\', 'r']
  else if c.toNat < 0x20 then ['\\', 'u', '0', '0'] ++ Hex.pair c.toNat
  else [c]

/-- A string in quotes. -/
def string (s : String) : String :=
  String.ofList ('"' :: s.toList.flatMap escape ++ ['"'])

/-- Texts with commas between them. -/
def commas (texts : List String) : String := String.intercalate "," texts

/-- An array of values that are written already. -/
def array (values : List String) : String := "[" ++ commas values ++ "]"

/-- An object of values that are written already, in the order given. -/
def object (members : List (String × String)) : String :=
  "\x7b" ++ commas (members.map fun (name, value) => string name ++ ":" ++ value) ++ "\x7d"

end TaggedItems.Json
