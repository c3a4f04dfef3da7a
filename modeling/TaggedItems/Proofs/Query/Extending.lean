import TaggedItems.Proofs.Query.Meaning
/-!
# Longer paths

A path may go on. What it said before stays as it is, and what comes behind it only speaks of the
names that were not settled (`parse_append`). The operators that a path ends in join those that the
rest begins with, and since only the last operator of a run counts, they still carry nothing.
-/
namespace TaggedItems.Query
variable {scanned : List Predicate} {q r : Query}

/-! ## One path behind another -/

/-- The predicates of one path and then those of the other make up a path with both texts. -/
theorem exists_joined {p s : Path} (hp : p.WellFormed) (hs : s.WellFormed) :
    ∃ u : Path, u.WellFormed ∧ u.chars = p.chars ++ s.chars ∧
      u.predicates = p.predicates ++ s.predicates := by
  obtain ⟨segments, trailing⟩ := p
  obtain ⟨_ | ⟨first, others⟩, last⟩ := s
  · refine ⟨⟨segments, trailing ++ last⟩, hp, ?_, ?_⟩
    · simp [Path.chars]
    · simp [Path.predicates]
  · -- The operators at the end of the one path are idle in front of the other's first name.
    obtain ⟨firstFormed, othersFormed⟩ := List.forall_mem_cons.mp hs
    refine ⟨⟨segments ++ { first with idle := trailing ++ first.idle } :: others, last⟩, ?_, ?_, ?_⟩
    · exact List.forall_mem_append.mpr ⟨hp, List.forall_mem_cons.mpr ⟨firstFormed, othersFormed⟩⟩
    · simp [Path.chars, Segment.chars]
    · simp [Path.predicates, Segment.predicate]

/-! ## What is said about each name -/

/-- The name that the target is spelled by. Only the first predicate can have one. -/
def spelling? (scanned : List Predicate) : Option String :=
  scanned.head?.bind fun first => first.target?.map fun _ => first.name

theorem spelling?_append (asks : scanned ≠ []) (more : List Predicate) :
    spelling? (scanned ++ more) = spelling? scanned := by
  rw [spelling?, List.head?_append_of_ne_nil _ asks, spelling?]

/-- The target is what its spelling stands for. -/
theorem target_of_scanned (h : ofScanned? scanned = some q) :
    q.target = (spelling? scanned).bind Identity.ofName? := by
  cases scanned with
  | nil => cases h
  | cons first rest =>
    cases target : first.target? with
    | none =>
      cases (ofScanned?_of_first rest target).symm.trans h
      simp [spelling?, target]
    | some i =>
      cases (ofScanned?_of_number rest target).symm.trans h
      have spelled : Identity.ofName? first.name = some i :=
        Predicate.identity?_eq_some_iff.mpr (Predicate.target?_eq_some_iff.mp target).2
      simp [spelling?, target, spelled]

/-- A query holds the first predicate of each name, except of the one that spells the target. -/
theorem get?_of_scanned (h : ofScanned? scanned = some q) (name : String) :
    q.predicates.get? name =
      if spelling? scanned = some name then none else scanned.find? (·.name = name) := by
  cases scanned with
  | nil => cases h
  | cons first rest =>
    cases target : first.target? with
    | none =>
      cases (ofScanned?_of_first rest target).symm.trans h
      have none : spelling? (first :: rest) ≠ some name := by simp [spelling?, target]
      rw [if_neg none, PredicateSet.get?_ofList, find?_firstOfEachName]
    | some i =>
      cases (ofScanned?_of_number rest target).symm.trans h
      have spelled : spelling? (first :: rest) = some first.name := by simp [spelling?, target]
      rw [spelled, PredicateSet.get?_ofList, find?_filter_name, find?_firstOfEachName,
        List.find?_cons]
      by_cases same : first.name = name <;> simp [same]

/-! ## Going on -/

/-- What `q` asks for a path `p`, and what `r` asks when `s` stands behind it. -/
structure Extends (p s : Path) (q r : Query) : Prop where
  target : r.target = q.target
  kept : ∀ name a, q.predicates.get? name = some a → r.predicates.get? name = some a
  spelled : ∀ name, spelling? p.predicates = some name → r.predicates.get? name = none
  added : ∀ name, q.predicates.get? name = none → spelling? p.predicates ≠ some name →
    r.predicates.get? name = s.predicates.find? (·.name = name)

theorem extends_of_scanned {p s : Path} (hq : ofScanned? p.predicates = some q) :
    ∃ r, ofScanned? (p.predicates ++ s.predicates) = some r ∧ Extends p s q r := by
  have asks : p.predicates ≠ [] := by
    rw [ne_eq, ← ofScanned?_eq_none_iff, hq]
    exact Option.some_ne_none q
  have spelling := spelling?_append asks s.predicates
  have asksStill : p.predicates ++ s.predicates ≠ [] := List.append_ne_nil_of_left_ne_nil asks _
  obtain ⟨r, hr⟩ := Option.ne_none_iff_exists'.mp (mt ofScanned?_eq_none_iff.mp asksStill)
  refine ⟨r, hr, ?_, fun name a found => ?_, fun name spelled => ?_, fun name missing other => ?_⟩
  · rw [target_of_scanned hr, target_of_scanned hq, spelling]
  · rw [get?_of_scanned hq] at found
    split_ifs at found with spelled
    rw [get?_of_scanned hr, spelling, if_neg spelled, List.find?_append, found, Option.some_or]
  · rw [get?_of_scanned hr, spelling, if_pos spelled]
  · rw [get?_of_scanned hq, if_neg other] at missing
    rw [get?_of_scanned hr, spelling, if_neg other, List.find?_append, missing, Option.none_or]

/-- A path that goes on with itself asks nothing else. -/
theorem Extends.self {p : Path} (hq : ofScanned? p.predicates = some q) (h : Extends p p q r) :
    r = q := by
  obtain ⟨predicates, target⟩ := r
  obtain rfl : target = q.target := h.target
  have same : predicates = q.predicates := by
    apply PredicateSet.ext_get?
    intro name
    cases found : q.predicates.get? name with
    | some a => exact h.kept name a found
    | none =>
      by_cases spelled : spelling? p.predicates = some name
      · exact h.spelled name spelled
      · have missing := get?_of_scanned hq name
        rw [found, if_neg spelled] at missing
        exact (h.added name found spelled).trans missing.symm
  rw [same]

/-- A path may go on with any other one. Whatever it asked is asked still: its target is the target,
and its predicates are kept. The name that spells the target stays out. Any other name that the path
does not ask about has the first predicate that follows. So it changes nothing to go on with the
same path. -/
theorem parse_append {path : String} (parsed : parse path = .ok q) :
    (∀ tail : String, (∀ c ∈ tail.toList.head?, Operator c) →
      ∃ p s : Path, (p.WellFormed ∧ p.chars = path.toList) ∧
        (s.WellFormed ∧ s.chars = tail.toList) ∧
        q.target = (spelling? p.predicates).bind Identity.ofName? ∧
        ∃ r, parse (path ++ tail) = .ok r ∧ Extends p s q r) ∧
      parse (path ++ path) = .ok q := by
  obtain ⟨p, wellFormed, text, asked⟩ := parse_eq_ok_iff.mp parsed
  have joined {tail : String} {s : Path} (formed : s.WellFormed) (rest : s.chars = tail.toList) :
      ∃ r, parse (path ++ tail) = .ok r ∧ Extends p s q r := by
    obtain ⟨u, joinedFormed, chars, predicates⟩ := exists_joined wellFormed formed
    obtain ⟨r, read, ext⟩ := extends_of_scanned (s := s) asked
    refine ⟨r, parse_eq_ok_iff.mpr ⟨u, joinedFormed, ?_, predicates ▸ read⟩, ext⟩
    rw [chars, text, rest, String.toList_append]
  constructor
  · intro tail operator
    obtain ⟨s, formed, rest⟩ := exists_path operator
    exact ⟨p, s, ⟨wellFormed, text⟩, ⟨formed, rest⟩, target_of_scanned asked, joined formed rest⟩
  · obtain ⟨r, twice, ext⟩ := joined wellFormed text
    rw [twice, ext.self asked]

/-- The spelling of the target stays taken although no predicate has it, and another spelling of the
same number is free. -/
theorem parse_append_respelled :
    parse "/042!b/" = .ok ⟨.ofList [⟨.excludes, "b"⟩], some 42⟩ ∧
      (∀ c ∈ "!c/042/b!/42".toList.head?, Operator c) ∧
      ∃ r, parse ("/042!b/" ++ "!c/042/b!/42") = .ok r ∧ r.target = some 42 ∧
        r.predicates.get? "b" = some ⟨.excludes, "b"⟩ ∧ r.predicates.get? "042" = none ∧
        r.predicates.get? "42" = some ⟨.includes, "42"⟩ := by
  have parsed : parse "/042!b/" = .ok ⟨.ofList [⟨.excludes, "b"⟩], some 42⟩ := by decide +kernel
  have operator : ∀ c ∈ "!c/042/b!/42".toList.head?, Operator c := by simp [Operator]
  obtain ⟨p, s, ⟨wellFormed, text⟩, ⟨formed, rest⟩, -, r, longer, ext⟩ :=
    (parse_append parsed).1 "!c/042/b!/42" operator
  obtain rfl : (Reading.ofChars "/042!b/".toList).path = p := by
    rw [← text, Reading.ofChars_chars wellFormed]
  obtain rfl : (Reading.ofChars "!c/042/b!/42".toList).path = s := by
    rw [← rest, Reading.ofChars_chars formed]
  refine ⟨parsed, operator, r, longer, ext.target, ext.kept "b" _ (by decide +kernel),
    ext.spelled "042" (by decide +kernel), ?_⟩
  rw [ext.added "42" (by decide +kernel) (by decide +kernel)]
  decide +kernel

end TaggedItems.Query
