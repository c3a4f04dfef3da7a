/-!
# Lists in strictly ascending order of a text key

Sets of named things are kept as strictly ascending lists, so that equal sets are equal lists and
every enumeration has one order. Texts compare by code point, which is also the order of their
UTF-8 bytes. Main statements: `insert_ascending` keeps the order, and `mem_insert` says what an
insertion adds.
-/
namespace TaggedItems

/-- Each entry's key is below the keys of all entries after it, so no key occurs twice. -/
def Ascending {α : Type} (key : α → String) (entries : List α) : Prop :=
  entries.Pairwise fun a b => key a < key b

namespace Ascending

variable {α : Type} (key : α → String)

/-- Puts an entry in its place. Where its key is held already, the entry that is there stays. -/
def insert (entry : α) : List α → List α
  | [] => [entry]
  | held :: rest =>
    if key entry < key held then entry :: held :: rest
    else if key entry = key held then held :: rest
    else held :: insert entry rest

variable {key}

theorem mem_of_mem_insert {entry a : α} {entries : List α} (h : a ∈ insert key entry entries) :
    a = entry ∨ a ∈ entries := by
  induction entries with
  | nil => simpa [insert] using h
  | cons held rest ih =>
    unfold insert at h
    split at h
    · simpa using h
    · split at h
      · exact .inr h
      · rcases List.mem_cons.mp h with rfl | later
        · simp
        · rcases ih later with rfl | deeper <;> simp_all

theorem insert_ascending {entry : α} {entries : List α} (h : Ascending key entries) :
    Ascending key (insert key entry entries) := by
  induction entries with
  | nil => simp [insert, Ascending]
  | cons held rest ih =>
    obtain ⟨above, ordered⟩ := List.pairwise_cons.mp h
    unfold insert
    split
    · rename_i below
      refine List.pairwise_cons.mpr ⟨fun a ha => ?_, h⟩
      rcases List.mem_cons.mp ha with rfl | later
      · exact below
      · exact String.lt_trans below (above a later)
    · split
      · exact h
      · rename_i notBelow different
        refine List.pairwise_cons.mpr ⟨fun a ha => ?_, ih ordered⟩
        rcases mem_of_mem_insert ha with rfl | later
        · rcases String.le_total (key held) (key a) with le | ge
          · exact Classical.byContradiction fun not =>
              different (String.le_antisymm (String.not_lt.mp not) le)
          · exact absurd (String.le_antisymm ge (String.not_lt.mp notBelow)) different
        · exact above a later

/-- An insertion adds its entry exactly when no entry has that key. -/
theorem mem_insert {entry a : α} {entries : List α} (h : Ascending key entries) :
    a ∈ insert key entry entries ↔
      a ∈ entries ∨ a = entry ∧ ∀ b ∈ entries, key b ≠ key entry := by
  induction entries with
  | nil => simp [insert]
  | cons held rest ih =>
    obtain ⟨above, ordered⟩ := List.pairwise_cons.mp h
    unfold insert
    split
    · rename_i below
      have fresh : ∀ b ∈ held :: rest, key b ≠ key entry := by
        intro b hb same
        rcases List.mem_cons.mp hb with rfl | later
        · exact String.lt_irrefl _ (same ▸ below)
        · exact String.lt_irrefl _ (String.lt_trans (same ▸ below) (above b later))
      grind
    · split
      · rename_i same
        grind
      · rename_i different
        simp only [List.mem_cons, ih ordered]
        grind

end Ascending
end TaggedItems
