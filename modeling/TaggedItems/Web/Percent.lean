import TaggedItems.Hex
/-!
# Percent decoding

A percent sign and two hexadecimal digits stand for one byte. Main statement: `decode_escaped`
reads an escape of either case back as its byte.
-/
namespace TaggedItems.Web.Percent

/-- The byte of two hexadecimal digits. -/
def byte? (high low : UInt8) : Option UInt8 :=
  match Hex.digit? (Char.ofNat high.toNat), Hex.digit? (Char.ofNat low.toNat) with
  | some h, some l => some (UInt8.ofNat (16 * h + l))
  | _, _ => none

/-- Replaces every escape by its byte, once. A percent sign without two digits after it stays, and
so does every other byte. -/
def decode : List UInt8 → List UInt8
  | first :: high :: low :: rest =>
    if first = '%'.toUInt8 then
      match byte? high low with
      | some byte => byte :: decode rest
      | none => first :: decode (high :: low :: rest)
    else first :: decode (high :: low :: rest)
  | first :: rest => first :: decode rest
  | [] => []

theorem decode_escaped {high low byte : UInt8} (h : byte? high low = some byte)
    (rest : List UInt8) : decode ('%'.toUInt8 :: high :: low :: rest) = byte :: decode rest := by
  rw [decode, if_pos rfl, h]

end TaggedItems.Web.Percent
