import TaggedItems.Settings.Value
import TaggedItems.Toml.Moment
import TaggedItems.Toml.Text
/-!
# TOML scalars

Strings, whole numbers, doubles, truth values, dates and times. A date or a time is kept as the text
by which it is commonly written.
-/
namespace TaggedItems.Toml

open Settings (Value)

/-- Digits with single underscores between them allowed, without the underscores. -/
def digits? (isDigit : Char → Bool) : List Char → Option (List Char)
  | [] => none
  | c :: '_' :: rest => if isDigit c then (digits? isDigit rest).map (c :: ·) else none
  | [c] => if isDigit c then some [c] else none
  | c :: rest => if isDigit c then (digits? isDigit rest).map (c :: ·) else none

/-- Decimal digits of which the first is zero only if it is alone. -/
def wholeDigits? (cs : List Char) : Option (List Char) :=
  (digits? Char.isDigit cs).filter fun digits => digits.head? ≠ some '0' ∨ digits.length = 1

/-- The value of digits in a base. -/
def valueIn (base : Nat) (digits : List Char) : Nat :=
  digits.foldl (fun n c => base * n + (Hex.digit? c).getD 0) 0

/-- The size of a whole number in one of four bases. -/
def magnitude? : List Char → Option Nat
  | '0' :: 'x' :: rest => (digits? (fun c => (Hex.digit? c).isSome) rest).map (valueIn 16)
  | '0' :: 'o' :: rest => (digits? (fun c => '0' ≤ c && c ≤ '7') rest).map (valueIn 8)
  | '0' :: 'b' :: rest => (digits? (fun c => c = '0' || c = '1') rest).map (valueIn 2)
  | _ => none

/-- A whole number of 64 bits. Only a decimal one has a sign. -/
def integer? (cs : List Char) : Option Int :=
  let value := match magnitude? cs with
    | some n => some (n : Int)
    | none =>
      let (negative, unsigned) := Binary64.takeSign cs
      ((wholeDigits? unsigned).bind Decimal.natural?).map fun n =>
        if negative then -(n : Int) else n
  value.filter Settings.fitsWord

/-- A fraction and a power of ten, of which there is one at least. -/
def fractionAndPower? (cs : List Char) : Option (List Char × Int) := do
  let isMark (c : Char) : Bool := c = 'e' || c = 'E'
  let (fraction, rest) ← match cs with
    | '.' :: behind => do
      let fraction ← digits? Char.isDigit (behind.takeWhile (!isMark ·))
      pure (fraction, behind.dropWhile (!isMark ·))
    | _ => if cs = [] then none else pure ([], cs)
  match rest with
  | [] => pure (fraction, 0)
  | mark :: behind =>
    if isMark mark then
      let (negative, unsigned) := Binary64.takeSign behind
      let n ← (digits? Char.isDigit unsigned).bind Decimal.natural?
      pure (fraction, if negative then -(n : Int) else n)
    else none

/-- A double. What is too large for one is refused. -/
def float? (cs : List Char) : Option Binary64 := do
  let (negative, unsigned) := Binary64.takeSign cs
  match unsigned with
  | ['n', 'a', 'n'] => pure .nan
  | ['i', 'n', 'f'] => pure (.infinite negative)
  | _ =>
    let isWhole (c : Char) : Bool := c.isDigit || c = '_'
    let whole ← wholeDigits? (unsigned.takeWhile isWhole)
    let (fraction, power) ← fractionAndPower? (unsigned.dropWhile isWhole)
    let digits ← Decimal.natural? (whole ++ fraction)
    match Binary64.ofDecimal negative digits (power - fraction.length) with
    | .infinite _ => none
    | x => pure x

/-- The value of a word. -/
def word? (cs : List Char) : Option Value :=
  match cs with
  | ['t', 'r', 'u', 'e'] => some (.bool true)
  | ['f', 'a', 'l', 's', 'e'] => some (.bool false)
  | _ =>
    match integer? cs with
    | some i => some (.int i)
    | none => (float? cs).map .float

/-- What words are made of. -/
def isWordChar (c : Char) : Bool := c.isAlphanum || c = '_' || c = '+' || c = '-' || c = '.'

/-- A scalar at the front of a text, and the rest. -/
def takeScalar? (cs : List Char) : Option (Value × List Char) :=
  match cs with
  | '"' :: _ | '\'' :: _ =>
    (takeString? cs).map fun (text, final) => (.text (String.ofList text), final)
  | _ =>
    match Moment.take? cs with
    | some (moment, final) => some (.text moment.text, final)
    | none => (word? (cs.takeWhile isWordChar)).map fun value => (value, cs.dropWhile isWordChar)

end TaggedItems.Toml
