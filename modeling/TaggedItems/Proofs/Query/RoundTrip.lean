import TaggedItems.Proofs.Query.Meaning
/-!
# Reading back the text of a query

The text of a query lists its target and then its predicates in ascending order. Read back, the
first of them counts as the target if it can, and a predicate that repeats the target is dropped, so
not every query is read back as it was (`parse_text_eq_iff`). Some query is, as soon as there is
anything to read.
-/
namespace TaggedItems

/-- Every name can stand in a path. -/
def PredicateSet.Expressible (set : PredicateSet) : Prop :=
  ∀ p ∈ set.toList, p.name ≠ "" ∧ ∀ c ∈ p.name.toList, ¬ Query.Operator c

namespace Predicate
variable {p : Predicate}

/-- The segment that a predicate is written as. -/
def segment (p : Predicate) : Query.Segment := ⟨[], p.sign, p.name.toList⟩

theorem segment_wellFormed (named : p.name ≠ "") (free : ∀ c ∈ p.name.toList, ¬ Query.Operator c) :
    p.segment.WellFormed :=
  ⟨by simpa [segment] using named, fun c there => Query.ofSymbol?_eq_none_iff.mpr (free c there)⟩

end Predicate

namespace Query
variable {q : Query} {i : Identity}

/-- The predicates that a query is written as, its target as an included number. -/
def asked (q : Query) : List Predicate :=
  match q.target with
  | some i => ⟨.includes, Decimal.text i⟩ :: q.predicates.toList
  | none => q.predicates.toList

/-! ## The text is a path -/

theorem text_eq (q : Query) : q.text.toList = q.asked.flatMap fun p => p.text.toList := by
  obtain ⟨predicates, _ | i⟩ := q
  · simp [text, asked, PredicateSet.text, List.flatMap_map]
  · simp [text, asked, PredicateSet.text, List.flatMap_map, Predicate.text, Sign.symbol]

theorem not_operator_of_digit {c : Char} (digit : '0' ≤ c ∧ c ≤ '9') : ¬ Operator c := by
  rintro (rfl | rfl)
  · exact absurd digit.1 (by decide)
  · exact absurd digit.1 (by decide)

/-- Numbers can stand in a path, with or without their sign. -/
theorem text_free (i : Identity) :
    Decimal.text i ≠ "" ∧ ∀ c ∈ (Decimal.text i).toList, ¬ Operator c := by
  rw [Decimal.text, String.toList_ofList, ne_eq, String.ofList_eq_empty_iff]
  constructor
  · cases i with
    | ofNat n => exact Decimal.digits_ne_nil n
    | negSucc n => exact List.cons_ne_nil _ _
  · intro c there
    rcases Decimal.of_mem_chars there with rfl | digit
    · decide
    · exact not_operator_of_digit digit

theorem asked_free (expressible : q.predicates.Expressible) :
    ∀ p ∈ q.asked, p.name ≠ "" ∧ ∀ c ∈ p.name.toList, ¬ Operator c := by
  obtain ⟨predicates, _ | i⟩ := q
  · exact expressible
  · exact List.forall_mem_cons.mpr ⟨text_free i, expressible⟩

/-- Predicates with names that can stand in a path are read back in order. Operators in front of the
first name change nothing. -/
theorem parse_pairs {path : String} {idle : List Sign} {pairs : List Predicate}
    (named : ∀ p ∈ pairs, p.name ≠ "" ∧ ∀ c ∈ p.name.toList, ¬ Operator c)
    (text : path.toList = idle.map Sign.symbol ++ pairs.flatMap fun p => p.text.toList) :
    parse path = (ofScanned? pairs).elim (.error (.emptyQuery path)) .ok := by
  have formed : ∀ p ∈ pairs, p.segment.WellFormed :=
    fun p there => Predicate.segment_wellFormed (named p there).1 (named p there).2
  cases pairs with
  | nil =>
    have wellFormed : Path.WellFormed ⟨[], idle⟩ := fun _ none => absurd none List.not_mem_nil
    have chars : Path.chars ⟨[], idle⟩ = path.toList := by simp [text, Path.chars]
    exact parse_of_path wellFormed chars
  | cons first rest =>
    obtain ⟨firstFormed, restFormed⟩ := List.forall_mem_cons.mp formed
    have wellFormed : Path.WellFormed
        ⟨{ first.segment with idle := idle } :: rest.map Predicate.segment, []⟩ :=
      List.forall_mem_cons.mpr ⟨firstFormed, List.forall_mem_map.mpr restFormed⟩
    have chars : Path.chars
        ⟨{ first.segment with idle := idle } :: rest.map Predicate.segment, []⟩ = path.toList := by
      simp [text, Path.chars, Segment.chars, Predicate.segment, List.flatMap_map, Predicate.text]
    have predicates : Path.predicates
        ⟨{ first.segment with idle := idle } :: rest.map Predicate.segment, []⟩ =
          first :: rest := by
      simp [Path.predicates, Function.comp_def, Segment.predicate, Predicate.segment]
    rw [parse_of_path wellFormed chars, predicates]

/-- What is read back are the predicates that were written. -/
theorem parse_text (expressible : q.predicates.Expressible) :
    parse q.text = (ofScanned? q.asked).elim (.error (.emptyQuery q.text)) .ok := by
  have text : q.text.toList = [].map Sign.symbol ++ q.asked.flatMap fun p => p.text.toList :=
    text_eq q
  exact parse_pairs (asked_free expressible) text

theorem parse_text_of_asked (expressible : q.predicates.Expressible) {r : Query}
    (asked : ofScanned? q.asked = some r) : parse q.text = .ok r := by
  rw [parse_text expressible, asked]
  rfl

/-! ## What is read back -/

theorem firstOfEachName_of_nodup {ps : List Predicate} (distinct : (ps.map Predicate.name).Nodup) :
    firstOfEachName ps = ps := by
  induction ps with
  | nil => rfl
  | cons p rest ih =>
    obtain ⟨once, distinct⟩ := List.nodup_cons.mp distinct
    rw [firstOfEachName, ih distinct, List.filter_eq_self.mpr]
    intro other later
    have differs : other.name ≠ p.name :=
      fun same => once (List.mem_map.mpr ⟨other, later, same⟩)
    simpa using differs

/-- A target is read back if a name can spell it, but the predicate that repeats it is not. -/
theorem ofScanned?_of_target {predicates : PredicateSet} (bounded : 0 ≤ i ∧ i ≤ 2 ^ 63 - 1) :
    ofScanned? (asked ⟨predicates, some i⟩) =
      some ⟨.ofList (predicates.toList.filter (·.name ≠ Decimal.text i)), some i⟩ := by
  have target : (Predicate.mk .includes (Decimal.text i)).target? = some i := by
    rw [Predicate.target?_text, if_pos bounded]
  rw [asked, ofScanned?_of_number predicates.toList target,
    firstOfEachName_of_nodup predicates.nodup_names]

/-- A number that no name can spell is read back as a predicate. -/
theorem target_of_unbounded {predicates : PredicateSet} (unbounded : ¬ (0 ≤ i ∧ i ≤ 2 ^ 63 - 1))
    {r : Query} (h : ofScanned? (asked ⟨predicates, some i⟩) = some r) : r.target = none := by
  have noTarget : (Predicate.mk .includes (Decimal.text i)).target? = none := by
    rw [Predicate.target?_text, if_neg unbounded]
  cases (ofScanned?_of_first predicates.toList noTarget).symm.trans h
  rfl

theorem filter_eq_iff {predicates : PredicateSet} {name : String} :
    PredicateSet.ofList (predicates.toList.filter (·.name ≠ name)) = predicates ↔
      ∀ p ∈ predicates.toList, p.name ≠ name := by
  rw [PredicateSet.ext_iff, PredicateSet.toList_ofList_filter, List.filter_eq_self]
  simp

theorem ofList_toList (predicates : PredicateSet) :
    PredicateSet.ofList predicates.toList = predicates :=
  PredicateSet.ext (PredicateSet.toList_ofList predicates.ascending)

/-- Without a target, the first predicate of the set becomes one if it can. -/
theorem ofScanned?_of_promoted {predicates : PredicateSet} {first : Predicate}
    {others : List Predicate} (listed : predicates.toList = first :: others)
    (target : first.target? = some i) :
    ofScanned? (asked ⟨predicates, none⟩) = some ⟨.ofList others, some i⟩ := by
  have kept := firstOfEachName_of_nodup predicates.nodup_names
  rw [listed, firstOfEachName, List.cons.injEq] at kept
  rw [asked, listed, ofScanned?_of_number others target, kept.2]

/-- Without a target, all predicates are read back unless the first of them becomes one. -/
theorem ofScanned?_of_noTarget {predicates : PredicateSet} :
    ofScanned? (asked ⟨predicates, none⟩) = some ⟨predicates, none⟩ ↔
      ∃ first others, predicates.toList = first :: others ∧ first.target? = none := by
  cases listed : predicates.toList with
  | nil => simp [asked, listed, ofScanned?, firstOfEachName]
  | cons first others =>
    cases target : first.target? with
    | some i => simp [ofScanned?_of_promoted listed target, target]
    | none =>
      refine iff_of_true ?_ ⟨first, others, rfl, target⟩
      rw [asked, listed, ofScanned?_of_first others target, ← listed,
        firstOfEachName_of_nodup predicates.nodup_names, ofList_toList]

theorem ofScanned?_asked_eq_some_iff :
    ofScanned? q.asked = some q ↔
      (∃ i, q.target = some i ∧ (0 ≤ i ∧ i ≤ 2 ^ 63 - 1) ∧
          ∀ p ∈ q.predicates.toList, p.name ≠ Decimal.text i) ∨
        q.target = none ∧ ∃ first others, q.predicates.toList = first :: others ∧
          first.target? = none := by
  obtain ⟨predicates, _ | i⟩ := q
  · rw [ofScanned?_of_noTarget]
    simp
  · by_cases bounded : 0 ≤ i ∧ i ≤ 2 ^ 63 - 1
    · rw [ofScanned?_of_target bounded, Option.some_inj, Query.mk.injEq, filter_eq_iff]
      constructor
      · rintro ⟨kept, -⟩
        exact .inl ⟨i, rfl, bounded, kept⟩
      · rintro (⟨_, same, -, kept⟩ | ⟨none, -⟩)
        · cases same
          exact ⟨kept, rfl⟩
        · cases none
    · constructor
      · intro h
        cases target_of_unbounded bounded h
      · rintro (⟨_, same, inside, -⟩ | ⟨none, -⟩)
        · cases same
          exact absurd inside bounded
        · cases none

/-! ## Queries that come from a path -/

theorem firsts_subset (scanned : List Predicate) : firsts scanned ⊆ scanned := by
  intro p h
  obtain ⟨entry, there, rfl⟩ := List.mem_map.mp h
  exact List.fst_mem_of_mem_zipIdx (List.mem_of_mem_filter there)

/-- A query asks for nothing but what its path names, and it asks for something. -/
theorem Means.of_path {p : Path} (wellFormed : p.WellFormed) (means : Means p.predicates q) :
    q.predicates.Expressible ∧ q.asked ≠ [] := by
  have named : ∀ a ∈ firsts p.predicates, a.name ≠ "" ∧ ∀ c ∈ a.name.toList, ¬ Operator c := by
    intro a first
    obtain ⟨s, there, rfl⟩ := List.mem_map.mp (firsts_subset _ first)
    obtain ⟨some, free⟩ := wellFormed s there
    refine ⟨by simpa [Segment.predicate, String.ofList_eq_empty_iff] using some, fun c held => ?_⟩
    exact ofSymbol?_eq_none_iff.mp (free c (by simpa [Segment.predicate] using held))
  obtain ⟨predicates, target⟩ := q
  cases means with
  | target kept _ _ _ target listed =>
    cases target
    refine ⟨fun a there => named a ?_, by simp [asked]⟩
    exact kept ▸ List.mem_cons_of_mem _ (listed.mem_iff.mp there)
  | noTarget kept _ target listed =>
    cases target
    refine ⟨fun a there => named a (kept ▸ listed.mem_iff.mp there), ?_⟩
    intro none
    change predicates.toList = [] at none
    exact List.cons_ne_nil _ _ (List.nil_perm.mp (none ▸ listed))

theorem parse_eq_ok {path : String} (h : parse path = .ok q) :
    ∃ p : Path, p.WellFormed ∧ p.chars = path.toList ∧ Means p.predicates q := by
  obtain ⟨p, wellFormed, text, asked⟩ := parse_eq_ok_iff.mp h
  exact ⟨p, wellFormed, text, ofScanned?_means asked⟩

/-- Reading a path and then the text of what was read gives another query. -/
def Drifts (path : String) : Prop :=
  ∃ q r, parse path = .ok q ∧ parse q.text = .ok r ∧ r ≠ q

/-- The order puts the number first, where it becomes the target. -/
theorem drifts_of_sorted_number : Drifts "!z/42" :=
  ⟨⟨.ofList [⟨.includes, "42"⟩, ⟨.excludes, "z"⟩], none⟩, ⟨.ofList [⟨.excludes, "z"⟩], some 42⟩,
    by decide +kernel, by decide +kernel, by decide +kernel⟩

/-- The zero is not written again, so the predicate repeats the target. -/
theorem drifts_of_leading_zero : Drifts "/042!42" :=
  ⟨⟨.ofList [⟨.excludes, "42"⟩], some 42⟩, ⟨.empty, some 42⟩,
    by decide +kernel, by decide +kernel, by decide +kernel⟩

/-- A query whose names can stand in a path is read back from its text exactly if its target is a
number that names can spell and no predicate repeats, or if it has no target and its first predicate
does not become one. A query that comes from a path has such names, and its text is always read
back, though not always as the same query. -/
theorem parse_text_eq_iff :
    (∀ q : Query, q.predicates.Expressible →
      (parse q.text = .ok q ↔
        (∃ i, q.target = some i ∧ (0 ≤ i ∧ i ≤ 2 ^ 63 - 1) ∧
            ∀ p ∈ q.predicates.toList, p.name ≠ Decimal.text i) ∨
          q.target = none ∧ ∃ first others, q.predicates.toList = first :: others ∧
            ¬ (first.sign = .includes ∧ ∃ i, first.identity? = some i))) ∧
      (∀ path q, parse path = .ok q →
        q.predicates.Expressible ∧ ∃ r, parse q.text = .ok r) ∧
      Drifts "!z/42" ∧ Drifts "/042!42" := by
  refine ⟨fun q expressible => ?_, fun path q h => ?_, drifts_of_sorted_number,
    drifts_of_leading_zero⟩
  · have read : parse q.text = .ok q ↔ ofScanned? q.asked = some q := by
      rw [parse_text expressible]
      cases ofScanned? q.asked <;> simp
    rw [read, ofScanned?_asked_eq_some_iff]
    simp only [Predicate.target?_eq_none_iff]
  · obtain ⟨p, wellFormed, -, means⟩ := parse_eq_ok h
    obtain ⟨expressible, some⟩ := means.of_path wellFormed
    refine ⟨expressible, ?_⟩
    cases read : ofScanned? q.asked with
    | some r => exact ⟨r, by rw [parse_text expressible, read]; rfl⟩
    | none => exact absurd (ofScanned?_eq_none_iff.mp read) some

theorem parse_text_of_unrepeated_target :
    (PredicateSet.ofList [⟨.includes, "foo"⟩, ⟨.excludes, "042"⟩]).Expressible ∧
      parse (text ⟨.ofList [⟨.includes, "foo"⟩, ⟨.excludes, "042"⟩], some 42⟩) =
        .ok ⟨.ofList [⟨.includes, "foo"⟩, ⟨.excludes, "042"⟩], some 42⟩ := by
  have listed : (PredicateSet.ofList [⟨.includes, "foo"⟩, ⟨.excludes, "042"⟩]).toList =
      [⟨.excludes, "042"⟩, ⟨.includes, "foo"⟩] := by
    decide +kernel
  have expressible :
      (PredicateSet.ofList [⟨.includes, "foo"⟩, ⟨.excludes, "042"⟩]).Expressible := by
    simp [PredicateSet.Expressible, listed, Operator]
  exact ⟨expressible, (parse_text_eq_iff.1 ⟨_, some 42⟩ expressible).mpr
    (.inl ⟨42, rfl, by decide, by decide +kernel⟩)⟩

end Query
end TaggedItems
