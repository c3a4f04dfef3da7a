import Mathlib.Tactic.ByContra
import Mathlib.Tactic.SplitIfs
import TaggedItems.Ascending
/-!
# The order of texts is the order of their bytes

Texts compare by code point. A greater code point has a greater UTF-8 encoding, whatever follows, so
this is also the lexicographic order of the bytes (`lt_iff_bytes_lt`).
-/
namespace TaggedItems.Text

/-- The UTF-8 bytes of a text. -/
def bytes (s : String) : List UInt8 := s.toUTF8.data.toList

theorem bytes_eq (s : String) : bytes s = s.toList.flatMap String.utf8EncodeChar := by
  have encoded : s.toList.utf8Encode = s.toUTF8 := String.utf8Encode_toList
  rw [bytes, ← encoded, List.utf8Encode, List.toList_data_toByteArray]

/-- The encodings already differ before either of them ends, and the first difference is in favour
of the greater character. -/
theorem utf8EncodeChar_append_lt {c d : Char} (h : c < d) (u v : List UInt8) :
    String.utf8EncodeChar c ++ u < String.utf8EncodeChar d ++ v := by
  have below : c.val.toNat < d.val.toNat := h
  have bound : d.val.toNat < 0x110000 := by
    rcases d.valid with small | ⟨_, large⟩ <;> omega
  generalize hm : c.val.toNat = m at *
  generalize hn : d.val.toNat = n at *
  -- A byte carries six bits at most; a number is below another if it is so up to some six bits.
  have last : m / 64 < n / 64 ∨ m / 64 = n / 64 ∧ m % 64 < n % 64 := by omega
  have third : m / 64 < n / 64 →
      m / 4096 < n / 4096 ∨ m / 4096 = n / 4096 ∧ m / 64 % 64 < n / 64 % 64 := by omega
  have second : m / 4096 < n / 4096 →
      m / 262144 < n / 262144 ∨ m / 262144 = n / 262144 ∧ m / 4096 % 64 < n / 4096 % 64 := by omega
  simp only [String.utf8EncodeChar, hm, hn]
  split_ifs <;>
    simp only [List.cons_append, List.nil_append, List.cons_lt_cons_iff, UInt8.lt_iff_toNat_lt,
      ← UInt8.toNat_inj, UInt8.toNat_ofNat'] <;>
    simp (disch := omega) only [Nat.mod_eq_of_lt] <;>
    omega

theorem utf8EncodeChar_ne_nil (c : Char) : String.utf8EncodeChar c ≠ [] := by
  rw [← List.length_pos_iff, String.length_utf8EncodeChar]
  exact c.utf8Size_pos

theorem encoded_lt {xs ys : List Char} (h : xs < ys) :
    xs.flatMap String.utf8EncodeChar < ys.flatMap String.utf8EncodeChar := by
  induction h with
  | @nil d ys =>
    rw [List.flatMap_nil, List.flatMap_cons]
    cases first : String.utf8EncodeChar d with
    | nil => exact absurd first (utf8EncodeChar_ne_nil d)
    | cons b rest => exact List.nil_lt_cons _ _
  | cons _ ih =>
    rw [List.flatMap_cons, List.flatMap_cons]
    exact List.append_left_lt ih
  | rel below =>
    rw [List.flatMap_cons, List.flatMap_cons]
    exact utf8EncodeChar_append_lt below _ _

theorem lt_iff_bytes_lt {a b : String} : a < b ↔ bytes a < bytes b := by
  rw [bytes_eq, bytes_eq]
  refine ⟨encoded_lt, fun less => ?_⟩
  by_contra notBelow
  by_cases same : a = b
  · exact List.lt_irrefl _ (same ▸ less)
  · have above : b < a := by
      by_contra notAbove
      exact same (String.le_antisymm (String.not_lt.mp notAbove) (String.not_lt.mp notBelow))
    exact List.lt_asymm less (encoded_lt above)

end TaggedItems.Text
