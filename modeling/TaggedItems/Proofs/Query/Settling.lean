import TaggedItems.Proofs.Query.RoundTrip
/-!
# Reading back until nothing changes

The text of a query may be read as another query, and the text of that one again. It ends after two
steps (`canonical_text_settles`): the first may turn a number into the target, since it comes first
in ascending order, and the next may drop the predicate that repeats the target. A target that is
there already leaves only the second of these.
-/
namespace TaggedItems

theorem PredicateSet.expressible_ofList {ps : List Predicate}
    (named : ∀ p ∈ ps, p.name ≠ "" ∧ ∀ c ∈ p.name.toList, ¬ Query.Operator c) :
    (PredicateSet.ofList ps).Expressible :=
  fun p held => named p (List.mem_of_find?_eq_some (mem_toList_ofList.mp held))

namespace Query
variable {predicates : PredicateSet} {q : Query} {i : Identity}

/-- The query is read back from its text as it is. -/
def Settled (q : Query) : Prop := parse q.text = .ok q

/-- Reading a target back drops the predicate that repeats it, and then there is none. -/
theorem settles_of_target (expressible : predicates.Expressible)
    (bounded : 0 ≤ i ∧ i ≤ 2 ^ 63 - 1) :
    ∃ r, parse (text ⟨predicates, some i⟩) = .ok r ∧ Settled r := by
  have kept : (PredicateSet.ofList
      (predicates.toList.filter (·.name ≠ Decimal.text i))).Expressible :=
    PredicateSet.expressible_ofList fun p there => expressible p (List.mem_of_mem_filter there)
  refine ⟨_, parse_text_of_asked expressible (ofScanned?_of_target bounded),
    parse_text_of_asked kept (ofScanned?_asked_eq_some_iff.mpr (.inl ⟨i, rfl, bounded, ?_⟩))⟩
  intro p held
  rw [PredicateSet.toList_ofList_filter] at held
  simpa using List.of_mem_filter held

theorem Means.target_bounded {scanned : List Predicate} (means : Means scanned q)
    (target : q.target = some i) : 0 ≤ i ∧ i ≤ 2 ^ 63 - 1 := by
  cases means with
  | target _ included spelled bounded is _ =>
    rw [is] at target
    exact Predicate.target?_bounded
      (Predicate.target?_eq_some_iff.mpr
        ⟨included, _, spelled, bounded, (Option.some.inj target).symm⟩)
  | noTarget _ _ is _ =>
    rw [is] at target
    cases target

/-- What was read from a path is the same after its text has been read back twice, and after once if
it has a target. -/
theorem canonical_text_settles {path : String} (parsed : parse path = .ok q) :
    ∃ r s, parse q.text = .ok r ∧ parse r.text = .ok s ∧ Settled s ∧
      (q.target ≠ none → Settled r) := by
  obtain ⟨p, wellFormed, -, means⟩ := parse_eq_ok parsed
  obtain ⟨expressible, asks⟩ := means.of_path wellFormed
  obtain ⟨predicates, _ | i⟩ := q
  · obtain ⟨first, others, listed⟩ := List.exists_cons_of_ne_nil asks
    change predicates.toList = first :: others at listed
    cases target : first.target? with
    | none =>
      have settled : Settled ⟨predicates, none⟩ := parse_text_of_asked expressible
        (ofScanned?_of_noTarget.mpr ⟨first, others, listed, target⟩)
      exact ⟨_, _, settled, settled, settled, fun has => absurd rfl has⟩
    | some i =>
      have read := parse_text_of_asked expressible (ofScanned?_of_promoted listed target)
      have rest : (PredicateSet.ofList others).Expressible :=
        PredicateSet.expressible_ofList fun p there =>
          expressible p (listed ▸ List.mem_cons_of_mem first there)
      obtain ⟨s, again, settled⟩ := settles_of_target rest (Predicate.target?_bounded target)
      exact ⟨_, s, read, again, settled, fun has => absurd rfl has⟩
  · obtain ⟨r, read, settled⟩ := settles_of_target expressible (means.target_bounded rfl)
    exact ⟨r, r, read, settled, settled, fun _ => settled⟩

/-- Both steps can be needed: the zero is not written again once the number is the target. -/
theorem canonical_text_settles_late :
    ∃ q r s, parse "!z/42/042" = .ok q ∧ parse q.text = .ok r ∧ parse r.text = .ok s ∧
      Settled s ∧ r ≠ q ∧ s ≠ r := by
  let q : Query := ⟨.ofList [⟨.includes, "042"⟩, ⟨.includes, "42"⟩, ⟨.excludes, "z"⟩], none⟩
  let promoted : Query := ⟨.ofList [⟨.includes, "42"⟩, ⟨.excludes, "z"⟩], some 42⟩
  let dropped : Query := ⟨.ofList [⟨.excludes, "z"⟩], some 42⟩
  have parsed : parse "!z/42/042" = .ok q := by decide +kernel
  obtain ⟨r, s, first, second, settled, -⟩ := canonical_text_settles parsed
  have isPromoted : parse q.text = .ok promoted := by decide +kernel
  cases first.symm.trans isPromoted
  have isDropped : parse promoted.text = .ok dropped := by decide +kernel
  cases second.symm.trans isDropped
  exact ⟨q, promoted, dropped, parsed, first, second, settled, by decide +kernel, by decide +kernel⟩

end Query
end TaggedItems
