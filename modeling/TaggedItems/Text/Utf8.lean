import TaggedItems.Decimal
/-!
# Reading UTF-8

Bytes are read as text or refused at the first character that is not one. The refusal says where
that character starts and how many of its bytes could still have belonged to one. Main statement:
`decode_eq_ok_iff` reads a text from its bytes and from no others.
-/
namespace TaggedItems.Text.Utf8

/-- Why bytes are no text. The index is where the good beginning ends. -/
inductive Fault where
  | invalid (length index : Nat)
  | incomplete (index : Nat)
  deriving DecidableEq

/-- The message for a fault. -/
def Fault.message : Fault → String
  | .invalid length index =>
    "invalid utf-8 sequence of " ++ Decimal.text length ++ " bytes from index "
      ++ Decimal.text index
  | .incomplete index => "incomplete utf-8 byte sequence from index " ++ Decimal.text index

/-- The least and the greatest byte allowed at a place. -/
structure Bounds where
  least : UInt8
  greatest : UInt8
  deriving DecidableEq

/-- The bounds of a byte that continues a character. -/
def tail : Bounds := ⟨0x80, 0xbf⟩

/-- What has to follow the first byte of a character. The second byte is bounded more closely where
a longer form than needed, a surrogate or a number beyond the last character would arise. -/
def followers? (first : UInt8) : Option (List Bounds) :=
  if first < 0x80 then some []
  else if first < 0xc2 then none
  else if first < 0xe0 then some [tail]
  else if first = 0xe0 then some [⟨0xa0, 0xbf⟩, tail]
  else if first = 0xed then some [⟨0x80, 0x9f⟩, tail]
  else if first < 0xf0 then some [tail, tail]
  else if first = 0xf0 then some [⟨0x90, 0xbf⟩, tail, tail]
  else if first < 0xf4 then some [tail, tail, tail]
  else if first = 0xf4 then some [⟨0x80, 0x8f⟩, tail, tail]
  else none

/-- The fault of bytes that are no text. `index` is where the current character starts, `seen` the
number of its bytes so far, and `awaited` what its other bytes have to be. -/
def locate (awaited : List Bounds) (index seen : Nat) : List UInt8 → Fault
  | [] => .incomplete index
  | byte :: rest =>
    match awaited with
    | bounds :: others =>
      if bounds.least ≤ byte ∧ byte ≤ bounds.greatest then locate others index (seen + 1) rest
      else .invalid seen index
    | [] =>
      match followers? byte with
      | some bounds => locate bounds (index + seen) 1 rest
      | none => .invalid 1 (index + seen)

/-- The text whose UTF-8 bytes these are. -/
def decode (bytes : ByteArray) : Except Fault String :=
  match String.fromUTF8? bytes with
  | some s => .ok s
  | none => .error (locate [] 0 0 bytes.toList)

theorem fromUTF8?_eq_some_iff {bytes : ByteArray} {text : String} :
    String.fromUTF8? bytes = some text ↔ text.toUTF8 = bytes := by
  constructor
  · intro read
    unfold String.fromUTF8? at read
    split at read
    · cases read
      rfl
    · cases read
  · rintro rfl
    exact dif_pos text.isValidUTF8

/-- A text is read from its bytes and from no others. -/
theorem decode_eq_ok_iff {bytes : ByteArray} {text : String} :
    decode bytes = .ok text ↔ text.toUTF8 = bytes := by
  rw [← fromUTF8?_eq_some_iff, decode]
  cases String.fromUTF8? bytes <;> simp

end TaggedItems.Text.Utf8
