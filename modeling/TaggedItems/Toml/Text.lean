import TaggedItems.Hex
/-!
# TOML strings

A string stands between quotes, either on one line or, between three quotes on each side, on
several. Double quotes allow escapes, single ones do not.
-/
namespace TaggedItems.Toml

/-- Blanks within a line. -/
def isBlank (c : Char) : Bool := c = ' ' || c = '\t'

/-- Blanks at the front are skipped. -/
def skipBlanks (cs : List Char) : List Char := cs.dropWhile isBlank

/-- The end of a line at the front is skipped. -/
def skipLineEnd : List Char → List Char
  | '\n' :: rest => rest
  | '\r' :: '\n' :: rest => rest
  | cs => cs

/-- What may stand unescaped in a string or a comment: anything but control characters other than
the tab. -/
def isPlain (c : Char) : Bool := c = '\t' || 0x20 ≤ c.toNat && c ≠ '\x7f'

/-- What a letter behind a backslash stands for. -/
def letter? (c : Char) : Option Char :=
  match c with
  | '"' => some '"'
  | '\\' => some '\\'
  | 'b' => some '\x08'
  | 'e' => some '\x1b'
  | 'f' => some '\x0c'
  | 'n' => some '\n'
  | 'r' => some '\r'
  | 't' => some '\t'
  | _ => none

/-- The value of hexadecimal digits. -/
def hexValue? (digits : List Char) : Option Nat :=
  digits.foldlM (fun n c => (Hex.digit? c).map (16 * n + ·)) 0

/-- The character of a number, unless it is the number of a surrogate or of none at all. -/
def character? (digits : List Char) : Option Char := do
  let n ← hexValue? digits
  if n.isValidChar then pure (Char.ofNat n) else none

/-- Where the reading of a string stands. -/
inductive Extent where
  /-- In a string that ends on its line. -/
  | line
  /-- In a string that may go on on the next line. -/
  | lines
  /-- In such a string behind a backslash that ended a line, where blanks and line ends are left
  out. -/
  | trimmed
  deriving DecidableEq

/-- Behind a character that was kept nothing is left out any more. -/
def Extent.kept : Extent → Extent
  | .line => .line
  | .lines | .trimmed => .lines

/-- Puts characters in front of what was read. -/
def keep (text : List Char) (read : Option (List Char × List Char)) :
    Option (List Char × List Char) :=
  read.map fun (others, final) => (text ++ others, final)

/-- What remains behind the first of the quotes that end a string. One quote ends a line. Three end
a string of several lines, and up to two that stand in front of them belong to it. -/
def closing? (quote : Char) (several : Bool) (behind : List Char) :
    Option (List Char × List Char) :=
  let others := (behind.takeWhile (· = quote)).length
  if !several then some ([], behind)
  else if others < 2 then none
  else some (List.replicate (min 2 (others - 2)) quote, behind.drop (min 4 others))

/-- A string with escapes behind its opening quotes, and the rest behind its closing ones. -/
def takeBasic? (extent : Extent) : List Char → Option (List Char × List Char)
  | [] => none
  | '"' :: rest =>
    (closing? '"' (extent ≠ .line) rest).or (keep ['"'] (takeBasic? extent.kept rest))
  | '\\' :: 'x' :: a :: b :: rest => do
    let meant ← character? [a, b]
    keep [meant] (takeBasic? extent.kept rest)
  | '\\' :: 'u' :: a :: b :: c :: d :: rest => do
    let meant ← character? [a, b, c, d]
    keep [meant] (takeBasic? extent.kept rest)
  | '\\' :: 'U' :: a :: b :: c :: d :: e :: f :: g :: h :: rest => do
    let meant ← character? [a, b, c, d, e, f, g, h]
    keep [meant] (takeBasic? extent.kept rest)
  | '\\' :: c :: rest =>
    match letter? c with
    | some meant => keep [meant] (takeBasic? extent.kept rest)
    | none =>
      let onLine := skipBlanks (c :: rest)
      if extent ≠ .line ∧ skipLineEnd onLine ≠ onLine then takeBasic? .trimmed rest else none
  | '\r' :: '\n' :: rest =>
    match extent with
    | .line => none
    | .lines => keep ['\r', '\n'] (takeBasic? .lines rest)
    | .trimmed => takeBasic? .trimmed rest
  | c :: rest =>
    if extent = .trimmed ∧ (isBlank c ∨ c = '\n') then takeBasic? .trimmed rest
    else if isPlain c ∨ extent = .lines ∧ c = '\n' then keep [c] (takeBasic? extent.kept rest)
    else none

/-- A string without escapes behind its opening quotes, and the rest behind its closing ones. -/
def takeLiteral? (several : Bool) : List Char → Option (List Char × List Char)
  | [] => none
  | '\'' :: rest => (closing? '\'' several rest).or (keep ['\''] (takeLiteral? several rest))
  | '\r' :: '\n' :: rest =>
    if several then keep ['\r', '\n'] (takeLiteral? several rest) else none
  | c :: rest =>
    if isPlain c ∨ several ∧ c = '\n' then keep [c] (takeLiteral? several rest) else none

/-- A string of one line, and the rest. -/
def takeLine? : List Char → Option (List Char × List Char)
  | '"' :: rest => takeBasic? .line rest
  | '\'' :: rest => takeLiteral? false rest
  | _ => none

/-- A string, and the rest. The end of a line right behind three opening quotes is no part of it. -/
def takeString? : List Char → Option (List Char × List Char)
  | '"' :: '"' :: '"' :: rest => takeBasic? .lines (skipLineEnd rest)
  | '\'' :: '\'' :: '\'' :: rest => takeLiteral? true (skipLineEnd rest)
  | cs => takeLine? cs

end TaggedItems.Toml
