/-!
# Joins

Two ways to pair the rows of a list with their partners. Main statements: `mem_inner` and
`mem_left`.
-/
namespace TaggedItems.Join

variable {α β : Type}

/-- Every row with every partner of it. A row without partners is left out. -/
def inner (rows : List α) (partners : α → List β) : List (α × β) :=
  rows.flatMap fun row => (partners row).map fun partner => (row, partner)

/-- Every row with every partner of it. A row without partners stands once, alone. -/
def left (rows : List α) (partners : α → List β) : List (α × Option β) :=
  rows.flatMap fun row =>
    match partners row with
    | [] => [(row, none)]
    | found => found.map fun partner => (row, some partner)

theorem mem_inner {rows : List α} {partners : α → List β} {row : α} {partner : β} :
    (row, partner) ∈ inner rows partners ↔ row ∈ rows ∧ partner ∈ partners row := by
  simp only [inner, List.mem_flatMap, List.mem_map, Prod.mk.injEq]
  constructor
  · rintro ⟨_, hr, _, hp, rfl, rfl⟩
    exact ⟨hr, hp⟩
  · rintro ⟨hr, hp⟩
    exact ⟨row, hr, partner, hp, rfl, rfl⟩

theorem mem_left {rows : List α} {partners : α → List β} {row : α} {partner : Option β} :
    (row, partner) ∈ left rows partners ↔
      row ∈ rows ∧ match partner with
        | some b => b ∈ partners row
        | none => partners row = [] := by
  simp only [left, List.mem_flatMap]
  constructor
  · rintro ⟨a, ha, h⟩
    split at h
    · rename_i alone
      obtain ⟨rfl, rfl⟩ : row = a ∧ partner = none := by simpa using h
      exact ⟨ha, alone⟩
    · obtain ⟨b, hb, same⟩ := List.mem_map.mp h
      cases same
      exact ⟨ha, hb⟩
  · rintro ⟨hr, h⟩
    refine ⟨row, hr, ?_⟩
    cases partner with
    | none => simp [h]
    | some b =>
      split
      · rename_i alone
        simp [alone] at h
      · exact List.mem_map.mpr ⟨b, h, rfl⟩

end TaggedItems.Join
