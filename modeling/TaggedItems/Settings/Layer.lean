import TaggedItems.Settings.Value
/-!
# Layers

Settings come in layers of keyed values. A key may reach into a part of a field, by dots and
numbers in brackets; the field then has a composite value. The numbers have 64 bits. A layer that
comes from one source has each key once, in any order.
-/
namespace TaggedItems.Settings

/-- What names are made of. -/
def isNameChar (c : Char) : Bool := c.isAlphanum || c = '_' || c = '-'

/-- Where the reading of a key stands. -/
inductive KeyState where
  | beforeName
  | inName
  | beforeIndex
  | afterMinus
  /-- Within a number, of which the sign and the size so far are known. -/
  | inIndex (negative : Bool) (size : Nat)
  | afterIndex
  | afterBracket
  | failed
  deriving DecidableEq

namespace KeyState

/-- What may follow a name or a bracket. -/
def further (c : Char) : KeyState :=
  if c = '.' then .beforeName else if c = '[' then .beforeIndex else .failed

/-- What follows the last digit of a number, unless the number is too large. -/
def closed (negative : Bool) (size : Nat) (behind : KeyState) : KeyState :=
  if fitsWord (if negative then -size else size) then behind else .failed

/-- Reads one character. -/
def next (state : KeyState) (c : Char) : KeyState :=
  let blank := c = ' ' || c = '\t'
  match state with
  | .beforeName => if isNameChar c then .inName else .failed
  | .inName => if isNameChar c then .inName else further c
  | .beforeIndex =>
    if blank then .beforeIndex
    else if c = '-' then .afterMinus
    else match Decimal.digit? c with
      | some digit => .inIndex false digit
      | none => .failed
  | .afterMinus =>
    match Decimal.digit? c with
    | some digit => .inIndex true digit
    | none => .failed
  | .inIndex negative size =>
    match Decimal.digit? c with
    | some digit => .inIndex negative (10 * size + digit)
    | none =>
      if blank then closed negative size .afterIndex
      else if c = ']' then closed negative size .afterBracket
      else .failed
  | .afterIndex => if blank then .afterIndex else if c = ']' then .afterBracket else .failed
  | .afterBracket => further c
  | .failed => .failed

/-- Whether a key may end here. -/
def complete (state : KeyState) : Bool := state = .inName || state = .afterBracket

end KeyState

/-- The part of a field that a key is for. -/
inductive Reach where
  | whole (field : String)
  | part (field : String)
  deriving DecidableEq

/-- Where a key reaches. A text that cannot be read as names and numbers is a name as it is. -/
def Reach.ofKey (key : String) : Reach :=
  let cs := key.toList
  let name := cs.takeWhile isNameChar
  if (cs.foldl KeyState.next .beforeName).complete && name.length < cs.length then
    .part (String.ofList name)
  else .whole key

/-- Keys and values. -/
abbrev Layer := List (String × Value)

namespace Layer

/-- The value that one entry gives to a field. -/
def entryValue? (field : String) (entry : String × Value) : Option Value :=
  match Reach.ofKey entry.1 with
  | .whole name => if name = field then some entry.2 else none
  | .part name => if name = field then some .composite else none

/-- The value that a layer gives to a field: of several for one field the last one counts. -/
def value? (layer : Layer) (field : String) : Option Value :=
  layer.reverse.findSome? (entryValue? field)

/-- Each key once, with the last of its values. -/
def settled : Layer → Layer
  | [] => []
  | entry :: rest => if rest.any (·.1 = entry.1) then settled rest else entry :: settled rest

end Layer

/-- In which order the keys of a source are applied. No order is promised, and it matters where two
keys of one source are for the same field. -/
structure Arrangement where
  arrange : Layer → Layer
  perm : ∀ layer, (arrange layer).Perm layer.settled

/-- The order in which the keys are written. -/
def Arrangement.written : Arrangement := ⟨Layer.settled, fun _ => .refl _⟩

end TaggedItems.Settings
