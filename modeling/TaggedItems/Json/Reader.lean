import TaggedItems.Hex
import TaggedItems.Json.Number
/-!
# Reading JSON

A settings file may hold one JSON object. Its members are returned in the order in which they are
written; what stands inside of further arrays and objects is checked and then left out.
-/
namespace TaggedItems.Json

open Settings (Value)

/-- Blanks at the front are skipped. -/
def skipBlanks (cs : List Char) : List Char :=
  cs.dropWhile fun c => c = ' ' ∨ c = '\n' ∨ c = '\t' ∨ c = '\r'

/-- The number of four hexadecimal digits. -/
def unit? (a b c d : Char) : Option Nat := do
  pure (4096 * (← Hex.digit? a) + 256 * (← Hex.digit? b) + 16 * (← Hex.digit? c) + (← Hex.digit? d))

/-- The first of two units that make up one character. -/
def isHighSurrogate (n : Nat) : Bool := 0xd800 ≤ n && n < 0xdc00

/-- The second of two units that make up one character. -/
def isLowSurrogate (n : Nat) : Bool := 0xdc00 ≤ n && n < 0xe000

/-- What a letter behind a backslash stands for. -/
def letter? (c : Char) : Option Char :=
  match c with
  | '"' => some '"'
  | '\\' => some '\\'
  | '/' => some '/'
  | 'b' => some '\x08'
  | 'f' => some '\x0c'
  | 'n' => some '\n'
  | 'r' => some '\r'
  | 't' => some '\t'
  | _ => none

/-- A string behind its opening quote, and the rest behind its closing one. Surrogates come in
pairs, and control characters are always escaped. -/
def takeString? : List Char → Option (List Char × List Char)
  | [] => none
  | '"' :: rest => some ([], rest)
  | '\\' :: 'u' :: a :: b :: c :: d :: rest => do
    let first ← unit? a b c d
    if isHighSurrogate first then
      match rest with
      | '\\' :: 'u' :: e :: f :: g :: h :: behind =>
        let second ← unit? e f g h
        if isLowSurrogate second then
          let (text, final) ← takeString? behind
          pure (Char.ofNat (0x10000 + 1024 * (first - 0xd800) + (second - 0xdc00)) :: text, final)
        else none
      | _ => none
    else if isLowSurrogate first then none
    else
      let (text, final) ← takeString? rest
      pure (Char.ofNat first :: text, final)
  | '\\' :: c :: rest => do
    let meant ← letter? c
    let (text, final) ← takeString? rest
    pure (meant :: text, final)
  | c :: rest =>
    if c.toNat < 0x20 then none
    else (takeString? rest).map fun (text, final) => (c :: text, final)

/-- A word, a number or a string, and the rest. -/
def takeScalar? (cs : List Char) : Option (Value × List Char) :=
  match cs with
  | 'n' :: 'u' :: 'l' :: 'l' :: rest => some (.null, rest)
  | 't' :: 'r' :: 'u' :: 'e' :: rest => some (.bool true, rest)
  | 'f' :: 'a' :: 'l' :: 's' :: 'e' :: rest => some (.bool false, rest)
  | '"' :: rest => (takeString? rest).map fun (text, final) => (.text (String.ofList text), final)
  | _ => do
    let (number, rest) ← Numeral.take? cs
    pure (← number.value?, rest)

mutual

/-- A value and the rest. `depth` says how many arrays and objects may still be opened; `fuel`
exceeds the steps that the text allows. -/
def takeValue? (fuel depth : Nat) (cs : List Char) : Option (Value × List Char) :=
  match fuel with
  | 0 => none
  | fuel + 1 =>
    match cs, depth with
    | '[' :: _, 0 | '\x7b' :: _, 0 => none
    | '[' :: rest, depth + 1 =>
      match skipBlanks rest with
      | ']' :: final => some (.composite, final)
      | first => (takeElements? fuel depth first).map fun final => (.composite, final)
    | '\x7b' :: rest, depth + 1 =>
      (takeObject? fuel depth rest).map fun (_, final) => (.composite, final)
    | cs, _ => takeScalar? cs

/-- The elements of an array up to its end. -/
def takeElements? (fuel depth : Nat) (cs : List Char) : Option (List Char) :=
  match fuel with
  | 0 => none
  | fuel + 1 => do
    let (_, rest) ← takeValue? fuel depth cs
    match skipBlanks rest with
    | ',' :: more => takeElements? fuel depth (skipBlanks more)
    | ']' :: final => some final
    | _ => none

/-- The members of an object behind its opening brace, and the rest behind the closing one. -/
def takeObject? (fuel depth : Nat) (cs : List Char) :
    Option (List (String × Value) × List Char) :=
  match fuel with
  | 0 => none
  | fuel + 1 =>
    match skipBlanks cs with
    | '\x7d' :: final => some ([], final)
    | first => takeMembers? fuel depth first

/-- One member or more up to the closing brace. -/
def takeMembers? (fuel depth : Nat) (cs : List Char) :
    Option (List (String × Value) × List Char) :=
  match fuel with
  | 0 => none
  | fuel + 1 =>
    match cs with
    | '"' :: rest => do
      let (name, afterName) ← takeString? rest
      match skipBlanks afterName with
      | ':' :: behind =>
        let (value, afterValue) ← takeValue? fuel depth (skipBlanks behind)
        match skipBlanks afterValue with
        | ',' :: more =>
          let (others, final) ← takeMembers? fuel depth (skipBlanks more)
          pure ((String.ofList name, value) :: others, final)
        | '\x7d' :: final => pure ([(String.ofList name, value)], final)
        | _ => none
      | _ => none
    | _ => none

end

/-- How deeply arrays and objects may be nested. -/
def deepest : Nat := 127

/-- The members of the object that a text holds. Nothing but blanks may stand around it. -/
def members? (text : String) : Option (List (String × Value)) :=
  match skipBlanks text.toList with
  | '\x7b' :: rest => do
    let (members, final) ← takeObject? (4 * rest.length + 4) (deepest - 1) rest
    if skipBlanks final = [] then pure members else none
  | _ => none

end TaggedItems.Json
