import Mathlib.Data.List.Induction
import TaggedItems.Proofs.Ascending
import TaggedItems.Proofs.Query.Grammar
import TaggedItems.Proofs.Spelling
import TaggedItems.Proofs.Text.ByteOrder
/-!
# What a query path asks

A path gives its predicates in some order, with repetitions. `firsts` and `Means` say what they ask
without saying how it is computed. Parsing computes just that for every text that is a path with a
name in it, and tells apart the two ways in which a text can fail to be one
(`parse_accepts_query_language`).
-/
namespace TaggedItems

/-- Predicate sets are enumerated by the bytes of their names. -/
def PredicateSet.InByteOrder (set : PredicateSet) : Prop :=
  set.toList.Pairwise fun a b => Text.bytes a.name < Text.bytes b.name

theorem PredicateSet.inByteOrder (set : PredicateSet) : set.InByteOrder :=
  set.ascending.imp Text.lt_iff_bytes_lt.mp

namespace Query
variable {scanned : List Predicate} {q : Query}

/-! ## The first predicate of each name -/

/-- The predicates whose name no predicate before them has. -/
def firsts (scanned : List Predicate) : List Predicate :=
  (scanned.zipIdx.filter fun (p, place) => p.name ∉ (scanned.take place).map (·.name)).map (·.1)

theorem firsts_append (scanned : List Predicate) (p : Predicate) :
    firsts (scanned ++ [p]) =
      firsts scanned ++ if p.name ∈ scanned.map (·.name) then [] else [p] := by
  -- What stands before an earlier place is the same in the longer list.
  have before : ∀ entry ∈ scanned.zipIdx,
      (decide (entry.1.name ∉ ((scanned ++ [p]).take entry.2).map (·.name)) =
        decide (entry.1.name ∉ (scanned.take entry.2).map (·.name))) := by
    rintro ⟨q, place⟩ there
    have inside := (List.mem_zipIdx there).2.1
    rw [List.take_append_of_le_length (by omega)]
  rw [firsts, List.zipIdx_append, List.filter_append, List.map_append, List.filter_congr before]
  by_cases earlier : p.name ∈ scanned.map (·.name) <;> simp [firsts, earlier]

theorem firstOfEachName_append (scanned : List Predicate) (p : Predicate) :
    firstOfEachName (scanned ++ [p]) =
      firstOfEachName scanned ++ if p.name ∈ scanned.map (·.name) then [] else [p] := by
  induction scanned with
  | nil => rfl
  | cons q rest ih =>
    rw [List.cons_append, firstOfEachName, ih, List.filter_append, firstOfEachName,
      List.cons_append]
    by_cases later : p.name ∈ rest.map (·.name)
    · simp [later]
    · by_cases same : p.name = q.name <;> simp [later, same]

theorem firstOfEachName_eq_firsts (scanned : List Predicate) :
    firstOfEachName scanned = firsts scanned := by
  induction scanned using List.reverseRecOn with
  | nil => rfl
  | append_singleton rest p ih => rw [firstOfEachName_append, firsts_append, ih]

theorem firstOfEachName_eq_nil_iff : firstOfEachName scanned = [] ↔ scanned = [] := by
  cases scanned <;> simp [firstOfEachName]

theorem nodup_firstOfEachName (scanned : List Predicate) :
    ((firstOfEachName scanned).map Predicate.name).Nodup := by
  induction scanned with
  | nil => exact .nil
  | cons p rest ih =>
    refine List.nodup_cons.mpr ⟨?_, ih.sublist (List.filter_sublist.map _)⟩
    simp

theorem find?_filter_name (ps : List Predicate) (other name : String) :
    (ps.filter (·.name ≠ other)).find? (·.name = name) =
      if other = name then none else ps.find? (·.name = name) := by
  rw [List.find?_filter]
  split_ifs with same
  · rw [List.find?_eq_none]
    intro p there
    simp [same]
  · have stays : ∀ p : Predicate, (p.name ≠ other ∧ p.name = name) ↔ p.name = name := by
      intro p
      rw [and_iff_right_iff_imp]
      rintro rfl
      exact Ne.symm same
    simp [stays]

theorem find?_firstOfEachName (scanned : List Predicate) (name : String) :
    (firstOfEachName scanned).find? (·.name = name) = scanned.find? (·.name = name) := by
  induction scanned with
  | nil => rfl
  | cons p rest ih =>
    rw [firstOfEachName, List.find?_cons, List.find?_cons, find?_filter_name, ih]
    by_cases same : p.name = name <;> simp [same]

/-- The first predicate of a name is kept. -/
theorem mem_firstOfEachName {p : Predicate} :
    p ∈ firstOfEachName scanned ↔ scanned.find? (·.name = p.name) = some p := by
  rw [← find?_firstOfEachName,
    PredicateSet.find?_name_eq_some_iff (nodup_firstOfEachName scanned)]

/-! ## The query that predicates ask -/

/-- What predicates ask, in the order in which a path gives them. If the first of them includes a
number, that is the target; all others are predicates of the query, and so is the first without a
target. -/
inductive Means (scanned : List Predicate) (q : Query) : Prop
  | target {first : Predicate} {others : List Predicate} {n : Nat}
      (kept : firsts scanned = first :: others) (included : first.sign = .includes)
      (spelled : Decimal.Spells first.name.toList n) (bounded : n ≤ 2 ^ 63 - 1)
      (target : q.target = some (n : Int)) (predicates : q.predicates.toList.Perm others)
  | noTarget {first : Predicate} {others : List Predicate}
      (kept : firsts scanned = first :: others)
      (other : first.sign = .includes →
        ∀ n, Decimal.Spells first.name.toList n → ¬ n ≤ 2 ^ 63 - 1)
      (target : q.target = none) (predicates : q.predicates.toList.Perm (first :: others))

theorem ofScanned?_eq_none_iff : ofScanned? scanned = none ↔ scanned = [] := by
  unfold ofScanned?
  rw [← firstOfEachName_eq_nil_iff]
  split
  · simp [*]
  · split <;> simp [*]

/-- Without a target every name is asked about. -/
theorem ofScanned?_of_first {first : Predicate} (rest : List Predicate)
    (noTarget : first.target? = none) :
    ofScanned? (first :: rest) = some ⟨.ofList (firstOfEachName (first :: rest)), none⟩ := by
  simp only [ofScanned?, firstOfEachName, noTarget]

/-- The first predicate is the target and no tag, and no other predicate has its name. -/
theorem ofScanned?_of_number {first : Predicate} (rest : List Predicate) {i : Identity}
    (target : first.target? = some i) :
    ofScanned? (first :: rest) =
      some ⟨.ofList ((firstOfEachName rest).filter (·.name ≠ first.name)), some i⟩ := by
  simp only [ofScanned?, firstOfEachName, target]

theorem ofScanned?_means (h : ofScanned? scanned = some q) : Means scanned q := by
  cases scanned with
  | nil => cases h
  | cons first rest =>
    have kept := (firstOfEachName_eq_firsts (first :: rest)).symm
    have distinct := nodup_firstOfEachName (first :: rest)
    rw [firstOfEachName] at kept distinct
    cases target : first.target? with
    | some i =>
      cases (ofScanned?_of_number rest target).symm.trans h
      obtain ⟨included, n, spelled, bounded, rfl⟩ := Predicate.target?_eq_some_iff.mp target
      exact .target kept included spelled bounded rfl
        (PredicateSet.toList_ofList_perm distinct.of_cons)
    | none =>
      cases (ofScanned?_of_first rest target).symm.trans h
      refine .noTarget kept (fun included n spelled bounded => ?_) rfl
        (PredicateSet.toList_ofList_perm distinct)
      have spells := Predicate.target?_eq_some_iff.mpr ⟨included, n, spelled, bounded, rfl⟩
      cases target.symm.trans spells

/-! ## Parsing -/

variable {path : String}

theorem parse_of_loose (h : ∃ c ∈ path.toList.head?, ¬ Operator c) :
    ∃ detail, parse path = .error (.malformedQuery detail 0) := by
  have loose : (Reading.ofChars path.toList).loose ≠ [] := by
    rw [ne_eq, Reading.loose_eq_nil_iff]
    push Not
    exact h
  exact ⟨_, if_neg loose⟩

/-- A path is parsed into the query of its predicates. -/
theorem parse_of_path {p : Path} (wellFormed : p.WellFormed) (text : p.chars = path.toList) :
    parse path = (ofScanned? p.predicates).elim (.error (.emptyQuery path)) .ok := by
  rw [parse, ← text, Reading.ofChars_chars wellFormed, if_pos rfl]
  cases ofScanned? p.predicates <;> rfl

/-- Only a path is parsed, and into the query of its predicates. -/
theorem parse_eq_ok_iff : parse path = .ok q ↔
    ∃ p : Path, p.WellFormed ∧ p.chars = path.toList ∧ ofScanned? p.predicates = some q := by
  constructor
  · intro parsed
    have tight : ∀ c ∈ path.toList.head?, Operator c := by
      by_contra loose
      push Not at loose
      obtain ⟨detail, malformed⟩ := parse_of_loose loose
      cases malformed.symm.trans parsed
    obtain ⟨p, wellFormed, text⟩ := exists_path tight
    refine ⟨p, wellFormed, text, ?_⟩
    rw [parse_of_path wellFormed text] at parsed
    cases asked : ofScanned? p.predicates with
    | some r =>
      rw [asked] at parsed
      cases parsed
      rfl
    | none =>
      rw [asked] at parsed
      cases parsed
  · rintro ⟨p, wellFormed, text, asked⟩
    rw [parse_of_path wellFormed text, asked]
    rfl

theorem parse_of_segments {p : Path} (wellFormed : p.WellFormed) (text : p.chars = path.toList)
    (some : p.segments ≠ []) : ∃ q, parse path = .ok q ∧ Means p.predicates q := by
  rw [parse_of_path wellFormed text]
  cases asked : ofScanned? p.predicates with
  | some q => exact ⟨q, rfl, ofScanned?_means asked⟩
  | none => exact absurd (List.map_eq_nil_iff.mp (ofScanned?_eq_none_iff.mp asked)) some

theorem parse_of_operators (h : ∀ c ∈ path.toList, Operator c) :
    parse path = .error (.emptyQuery path) := by
  obtain ⟨p, wellFormed, text⟩ := exists_path fun c first => h c (List.mem_of_mem_head? first)
  have none : p.predicates = [] :=
    List.map_eq_nil_iff.mpr ((Path.segments_eq_nil_iff wellFormed).mpr (text ▸ h))
  rw [parse_of_path wellFormed text, ofScanned?_eq_none_iff.mpr none]
  rfl

/-- A text begins with something else than an operator, or holds operators only, or is a path with a
name in it. -/
theorem parse_cases (path : String) :
    (∃ c ∈ path.toList.head?, ¬ Operator c) ∨ (∀ c ∈ path.toList, Operator c) ∨
      (∀ c ∈ path.toList.head?, Operator c) ∧ (∃ c ∈ path.toList, ¬ Operator c) ∧
        ∃ p : Path, p.WellFormed ∧ p.chars = path.toList ∧
          ∃ q, parse path = .ok q ∧ Means p.predicates q := by
  by_cases tight : ∀ c ∈ path.toList.head?, Operator c
  · by_cases operators : ∀ c ∈ path.toList, Operator c
    · exact .inr (.inl operators)
    · obtain ⟨p, wellFormed, text⟩ := exists_path tight
      have some : p.segments ≠ [] := by
        rwa [ne_eq, Path.segments_eq_nil_iff wellFormed, text]
      push Not at operators
      exact .inr (.inr ⟨tight, operators, p, wellFormed, text,
        parse_of_segments wellFormed text some⟩)
  · push Not at tight
    exact .inl tight

/-- A text behind a slash is a path, so it is a query or empty. -/
theorem parse_slash (tail : String) :
    ((∀ c ∈ tail.toList, Operator c) ∧
        parse ("/" ++ tail) = .error (.emptyQuery ("/" ++ tail))) ∨
      ((∃ c ∈ tail.toList, ¬ Operator c) ∧ ∃ q, parse ("/" ++ tail) = .ok q) := by
  have text : ("/" ++ tail).toList = '/' :: tail.toList := by simp
  have slash : Operator '/' := .inl rfl
  rcases parse_cases ("/" ++ tail) with
    ⟨c, first, other⟩ | operators | ⟨-, ⟨c, there, other⟩, -, -, -, q, parsed, -⟩
  · rw [text, List.head?_cons, Option.mem_some_iff] at first
    exact absurd (first ▸ slash) other
  · refine .inl ⟨fun c there => operators c ?_, parse_of_operators operators⟩
    exact text ▸ List.mem_cons_of_mem _ there
  · refine .inr ⟨⟨c, ?_, other⟩, q, parsed⟩
    rcases List.mem_cons.mp (text ▸ there) with rfl | there
    · exact absurd slash other
    · exact there

/-- Every text is malformed, empty or a query. It is malformed if it begins with a character that is
no operator, and empty if it holds operators only. Any other text is one path and no other, and asks
what that path means. -/
theorem parse_accepts_query_language (path : String) :
    ((∃ detail, parse path = .error (.malformedQuery detail 0)) ↔
        ∃ c ∈ path.toList.head?, ¬ Operator c) ∧
      (parse path = .error (.emptyQuery path) ↔ ∀ c ∈ path.toList, Operator c) ∧
      ((∀ c ∈ path.toList.head?, Operator c) → (∃ c ∈ path.toList, ¬ Operator c) →
        ∃ p : Path, (p.WellFormed ∧ p.chars = path.toList) ∧
          (∀ other : Path, other.WellFormed → other.chars = path.toList → other = p) ∧
          ∃ q, parse path = .ok q ∧ Means p.predicates q ∧ q.predicates.InByteOrder) := by
  rcases parse_cases path with
    loose | operators | ⟨tight, named, p, wellFormed, text, q, parsed, means⟩
  · obtain ⟨detail, malformed⟩ := parse_of_loose loose
    obtain ⟨c, first, other⟩ := loose
    refine ⟨iff_of_true ⟨detail, malformed⟩ ⟨c, first, other⟩, iff_of_false ?_ ?_, ?_⟩
    · simp [malformed]
    · exact fun operators => other (operators c (List.mem_of_mem_head? first))
    · exact fun tight => absurd (tight c first) other
  · have empty := parse_of_operators operators
    refine ⟨iff_of_false ?_ ?_, iff_of_true empty operators, ?_⟩
    · simp [empty]
    · rintro ⟨c, first, other⟩
      exact other (operators c (List.mem_of_mem_head? first))
    · rintro - ⟨c, there, other⟩
      exact absurd (operators c there) other
  · refine ⟨iff_of_false ?_ ?_, iff_of_false ?_ ?_, fun _ _ => ?_⟩
    · simp [parsed]
    · rintro ⟨c, first, other⟩
      exact other (tight c first)
    · simp [parsed]
    · obtain ⟨c, there, other⟩ := named
      exact fun operators => other (operators c there)
    · refine ⟨p, ⟨wellFormed, text⟩, fun other otherFormed same => ?_, q, parsed, means,
        q.predicates.inByteOrder⟩
      exact Path.eq_of_chars_eq otherFormed wellFormed (same.trans text.symm)

theorem parse_accepts_repeated_target :
    (∀ c ∈ "!/042!b/b/042//".toList.head?, Operator c) ∧
      (∃ c ∈ "!/042!b/b/042//".toList, ¬ Operator c) ∧
      ∃ p : Path, p.chars = "!/042!b/b/042//".toList ∧
        ∃ q, parse "!/042!b/b/042//" = .ok q ∧ Means p.predicates q := by
  have tight : ∀ c ∈ "!/042!b/b/042//".toList.head?, Operator c := by simp [Operator]
  have named : ∃ c ∈ "!/042!b/b/042//".toList, ¬ Operator c := by simp [Operator]
  obtain ⟨p, ⟨-, text⟩, -, q, parsed, means, -⟩ :=
    (parse_accepts_query_language "!/042!b/b/042//").2.2 tight named
  exact ⟨tight, named, p, text, q, parsed, means⟩

end Query
end TaggedItems
