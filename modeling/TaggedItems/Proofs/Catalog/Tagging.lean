import TaggedItems.Proofs.Catalog.Gathering
/-!
# What predicates do to an item

Predicates are imposed on an item one after the other. Together they add the included names to its
tags, take the excluded ones away, and touch no other item (`retagged_foldlM`). When that fails
depends on the tables and on which names were ever kept (`fails_foldlM_impose`).
-/
namespace TaggedItems.Catalog
variable {c d e : Catalog} {item : Identity}

/-- The name was kept, so a tag has it. -/
def Kept (c : Catalog) (name : String) : Prop := ∃ tag ∈ c.heldTags.rows, tag.name = name

theorem kept_iff {name : String} :
    c.Kept name ↔ c.heldTags.rows.find? (·.name = name) ≠ none := by
  simp [Kept]

/-- `d` is `c` with predicates imposed on an item. -/
structure Retagged (item : Identity) (ps : List Predicate) (c d : Catalog) : Prop where
  sound : d.Sound
  items : d.items = c.items
  whole : c.Whole → d.Whole
  own : ∀ name, d.Carries item name ↔
    (c.Carries item name ∨ ⟨.includes, name⟩ ∈ ps) ∧ ⟨.excludes, name⟩ ∉ ps
  others : ∀ other, other ≠ item → ∀ name, d.Carries other name ↔ c.Carries other name

namespace Retagged
variable {ps : List Predicate}

theorem heldItems (h : Retagged item ps c d) : d.heldItems = c.heldItems := by
  simp only [Catalog.heldItems, h.items]

theorem holds (h : Retagged item ps c d) {i : Identity} : d.Holds i ↔ c.Holds i := by
  simp only [Holds, h.heldItems]

theorem contentOf (h : Retagged item ps c d) (i : Identity) : d.contentOf i = c.contentOf i := by
  simp only [Catalog.contentOf, h.heldItems]

theorem refl (sound : c.Sound) : Retagged item [] c c :=
  ⟨sound, rfl, id, by simp, fun _ _ _ => Iff.rfl⟩

/-- A name that comes once may be imposed before the others. -/
theorem cons {p : Predicate} (first : Retagged item [p] c d) (rest : Retagged item ps d e)
    (once : p.name ∉ ps.map Predicate.name) : Retagged item (p :: ps) c e := by
  refine ⟨rest.sound, rest.items.trans first.items, rest.whole ∘ first.whole, fun name => ?_,
    fun other differs name =>
      (rest.others other differs name).trans (first.others other differs name)⟩
  have apart (sign : Sign) : p.name = name → ⟨sign, name⟩ ∉ ps := by
    rintro rfl there
    exact once (List.mem_map.mpr ⟨_, there, rfl⟩)
  rw [rest.own, first.own]
  obtain ⟨sign, own⟩ := p
  simp only [List.mem_cons, Predicate.mk.injEq, List.not_mem_nil, or_false]
  by_cases same : own = name
  · have := apart .includes same
    have := apart .excludes same
    cases sign <;> simp_all
  · cases sign <;> simp [Ne.symm same]

end Retagged

theorem attach_retagged {name : String} (sound : c.Sound) (holds : c.Holds item)
    (h : attach item c name = .ok d) : Retagged item [⟨.includes, name⟩] c d := by
  obtain ⟨⟨tag, kept⟩, keep, associated⟩ := bind_eq_ok.mp h
  change kept.associate item tag.id = .ok d at associated
  obtain ⟨held, rfl⟩ := mem_of_keepTag keep
  obtain ⟨keptTags, keptItems, -⟩ := keepTag_frame keep
  obtain ⟨tags, items, links⟩ := associate_frame associated
  have keptSound := keepTag_sound sound keep
  have keptHolds : kept.Holds item := by
    simpa only [Holds, heldItems, keptItems] using holds
  have associatedSound : d.Sound :=
    associate_sound keptSound keptHolds ⟨tag, held, rfl⟩ associated
  have carries (i : Identity) (n : String) :
      d.Carries i n ↔ c.Carries i n ∨ i = item ∧ n = tag.name := by
    rw [carries_associate keptSound held associated, carries_keepTag sound keep]
  have whole (before : c.Whole) : d.Whole := by
    rw [whole_iff, tags, items, keptItems]
    exact ⟨keptTags, (whole_iff.mp before).2.1, links⟩
  have own (n : String) : d.Carries item n ↔
      (c.Carries item n ∨ ⟨.includes, n⟩ ∈ [Predicate.mk .includes tag.name]) ∧
        ⟨.excludes, n⟩ ∉ [Predicate.mk .includes tag.name] := by
    rw [carries]
    simp
  have others (other : Identity) (differs : other ≠ item) (n : String) :
      d.Carries other n ↔ c.Carries other n := by
    rw [carries]
    simp [differs]
  exact ⟨associatedSound, items.trans keptItems, whole, own, others⟩

/-- A name that no tag has is on no item. -/
theorem detach_missing {name : String} (sound : c.Sound) (missing : ¬ c.Kept name) :
    Retagged item [⟨.excludes, name⟩] c c := by
  have absent : ¬ c.Carries item name := by
    rintro ⟨tag, held, is, -⟩
    exact missing ⟨tag, held, is⟩
  have own (n : String) : c.Carries item n ↔
      (c.Carries item n ∨ ⟨.includes, n⟩ ∈ [Predicate.mk .excludes name]) ∧
        ⟨.excludes, n⟩ ∉ [Predicate.mk .excludes name] := by
    simp only [List.mem_singleton, Predicate.mk.injEq, reduceCtorEq, false_and, or_false, true_and]
    exact ⟨fun carries => ⟨carries, fun same => absent (same ▸ carries)⟩, And.left⟩
  exact ⟨sound, rfl, id, own, fun _ _ _ => Iff.rfl⟩

theorem dissociate_retagged {tag : Tag} (sound : c.Sound) (held : tag ∈ c.heldTags.rows)
    (h : c.dissociate item tag.id = .ok d) : Retagged item [⟨.excludes, tag.name⟩] c d := by
  obtain ⟨tags, items, links⟩ := dissociate_frame h
  have carries (i : Identity) (n : String) :
      d.Carries i n ↔ c.Carries i n ∧ ¬ (i = item ∧ n = tag.name) :=
    carries_dissociate sound held h
  have whole (before : c.Whole) : d.Whole := by
    obtain ⟨hasTags, hasItems, -⟩ := whole_iff.mp before
    exact whole_iff.mpr ⟨tags ▸ hasTags, items ▸ hasItems, links⟩
  have own (n : String) : d.Carries item n ↔
      (c.Carries item n ∨ ⟨.includes, n⟩ ∈ [Predicate.mk .excludes tag.name]) ∧
        ⟨.excludes, n⟩ ∉ [Predicate.mk .excludes tag.name] := by
    rw [carries]
    simp
  have others (other : Identity) (differs : other ≠ item) (n : String) :
      d.Carries other n ↔ c.Carries other n := by
    rw [carries]
    simp [differs]
  exact ⟨dissociate_sound sound h, items, whole, own, others⟩

theorem detach_retagged {name : String} (sound : c.Sound) (h : detach item c name = .ok d) :
    Retagged item [⟨.excludes, name⟩] c d := by
  obtain ⟨found, find, done⟩ := bind_eq_ok.mp h
  obtain ⟨-, rfl⟩ := findTag_eq_ok find
  split at done
  · rename_i tag look
    obtain rfl : tag.name = name := by simpa using List.find?_some look
    exact dissociate_retagged sound (List.mem_of_find?_eq_some look) done
  · rename_i look
    obtain rfl : c = d := by simpa [pure, Except.pure] using done
    exact detach_missing sound (kept_iff.not_left.mpr look)

theorem impose_retagged {p : Predicate} (sound : c.Sound) (holds : c.Holds item)
    (h : impose item c p = .ok d) : Retagged item [p] c d := by
  obtain ⟨sign, name⟩ := p
  cases sign with
  | includes => exact attach_retagged sound holds h
  | excludes => exact detach_retagged sound h

/-- Predicates with distinct names work independently of each other. -/
theorem retagged_foldlM {ps : List Predicate} (distinct : (ps.map Predicate.name).Nodup)
    (sound : c.Sound) (holds : c.Holds item) (h : ps.foldlM (impose item) c = .ok d) :
    Retagged item ps c d := by
  induction ps generalizing c with
  | nil =>
    obtain rfl : c = d := by simpa [pure, Except.pure] using h
    exact .refl sound
  | cons p rest ih =>
    obtain ⟨once, distinct⟩ := List.nodup_cons.mp distinct
    rw [List.foldlM_cons] at h
    obtain ⟨next, step, h⟩ := bind_eq_ok.mp h
    have first := impose_retagged sound holds step
    exact first.cons (ih distinct first.sound (first.holds.mpr holds) h) once

/-- Attaching names is imposing that they be there. -/
theorem foldlM_attach (names : List String) (c : Catalog) :
    names.foldlM (attach item) c =
      (names.map (Predicate.mk .includes)).foldlM (impose item) c := by
  rw [List.foldlM_map]
  rfl

/-- Tags come and go without a change to any item, whatever the tables hold. -/
theorem items_impose {p : Predicate} (h : impose item c p = .ok d) : d.items = c.items := by
  obtain ⟨sign, name⟩ := p
  cases sign with
  | includes =>
    obtain ⟨⟨tag, kept⟩, keep, associated⟩ := bind_eq_ok.mp h
    exact (associate_frame associated).2.1.trans (keepTag_frame keep).2.1
  | excludes =>
    obtain ⟨found, -, done⟩ := bind_eq_ok.mp h
    split at done
    · exact (dissociate_frame done).2.1
    · obtain rfl : c = d := by simpa [pure, Except.pure] using done
      rfl

theorem items_foldlM_impose {ps : List Predicate} (h : ps.foldlM (impose item) c = .ok d) :
    d.items = c.items := by
  induction ps generalizing c with
  | nil =>
    obtain rfl : c = d := by simpa [pure, Except.pure] using h
    rfl
  | cons p rest ih =>
    rw [List.foldlM_cons] at h
    obtain ⟨next, step, h⟩ := bind_eq_ok.mp h
    exact (ih h).trans (items_impose step)

/-! ## When predicates cannot be imposed -/

theorem fails_attach {name : String} :
    Fails (attach item c name) ↔ c.tags = none ∨ c.links = none := by
  by_cases missing : c.tags = none
  · have failed : Fails (attach item c name) := fails_bind.mpr (.inl (fails_keepTag.mpr missing))
    exact iff_of_true failed (.inl missing)
  · obtain ⟨⟨tag, kept⟩, keep⟩ := exists_ok_of_not_fails (mt fails_keepTag.mp missing)
    rw [attach, fails_bind_of_ok keep]
    change Fails (kept.associate item tag.id) ↔ _
    rw [fails_associate, (keepTag_frame keep).2.2, or_iff_right missing]

/-- A name that was never kept needs no link table. -/
theorem fails_detach {name : String} :
    Fails (detach item c name) ↔ c.tags = none ∨ c.links = none ∧ c.Kept name := by
  by_cases missing : c.tags = none
  · have failed : Fails (detach item c name) := fails_bind.mpr (.inl (fails_findTag.mpr missing))
    exact iff_of_true failed (.inl missing)
  · obtain ⟨found, find⟩ := exists_ok_of_not_fails (mt fails_findTag.mp missing)
    obtain ⟨-, rfl⟩ := findTag_eq_ok find
    rw [detach, fails_bind_of_ok find, or_iff_right missing, kept_iff]
    cases c.heldTags.rows.find? (·.name = name) with
    | some tag => simp
    | none => simp [pure, Except.pure]

theorem fails_impose {p : Predicate} :
    Fails (impose item c p) ↔
      c.tags = none ∨ c.links = none ∧ (p.sign = .includes ∨ c.Kept p.name) := by
  obtain ⟨sign, name⟩ := p
  cases sign with
  | includes => simp [impose, fails_attach]
  | excludes => simp [impose, fails_detach]

/-- Without the link table a predicate that can be imposed changes nothing. -/
theorem impose_eq_ok {p : Predicate} (h : impose item c p = .ok d) :
    c.tags ≠ none ∧ d.tags ≠ none ∧ (c.links = none → d = c) ∧
      (d.links = none ↔ c.links = none) := by
  have works : ¬ Fails (impose item c p) := h ▸ not_fails_ok d
  rw [fails_impose, not_or] at works
  refine ⟨works.1, ?_⟩
  obtain ⟨sign, name⟩ := p
  cases sign with
  | includes =>
    have links : c.links ≠ none := fun missing => works.2 ⟨missing, .inl rfl⟩
    obtain ⟨⟨tag, kept⟩, keep, associated⟩ := bind_eq_ok.mp h
    obtain ⟨-, ⟨-, -, rfl⟩ | ⟨-, -, rfl⟩⟩ := keepTag_eq_ok keep <;>
      obtain ⟨-, ⟨-, rfl⟩ | ⟨-, rfl⟩⟩ := associate_eq_ok associated <;> simp [links]
  | excludes =>
    obtain ⟨found, find, done⟩ := bind_eq_ok.mp h
    split at done
    · obtain ⟨there, rfl⟩ := dissociate_eq_ok done
      have links : c.links ≠ none := by simp [there]
      exact ⟨works.1, by simp [links]⟩
    · obtain rfl : c = d := by simpa [pure, Except.pure] using done
      exact ⟨works.1, fun _ => rfl, Iff.rfl⟩

/-- An included name touches both tag tables. An excluded one is looked up first, and touches the
link table only if some tag has it. -/
theorem fails_foldlM_impose (ps : List Predicate) :
    Fails (ps.foldlM (impose item) c) ↔
      ps ≠ [] ∧ c.tags = none ∨
        c.links = none ∧ ∃ p ∈ ps, p.sign = .includes ∨ c.Kept p.name := by
  induction ps generalizing c with
  | nil => simp [pure, Except.pure]
  | cons p rest ih =>
    rw [List.foldlM_cons, fails_bind, fails_impose]
    simp only [ne_eq, reduceCtorEq, not_false_eq_true, true_and, List.exists_mem_cons_iff,
      or_and_left]
    by_cases blocked : Fails (impose item c p)
    · have := fails_impose.mp blocked
      grind
    · obtain ⟨d, step⟩ := exists_ok_of_not_fails blocked
      obtain ⟨there, thereNext, same, links⟩ := impose_eq_ok step
      rw [fails_impose] at blocked
      simp only [step, Except.ok.injEq, exists_eq_left', ih, thereNext, and_false, false_or, links]
      by_cases missing : c.links = none
      · rw [same missing]
        grind
      · grind

theorem fails_foldlM_attach {names : List String} :
    Fails (names.foldlM (attach item) c) ↔ names ≠ [] ∧ (c.tags = none ∨ c.links = none) := by
  rw [foldlM_attach, fails_foldlM_impose]
  cases names with
  | nil => simp
  | cons name rest => simp

end TaggedItems.Catalog
