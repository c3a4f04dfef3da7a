import Mathlib.Data.Nat.Digits.Defs
import TaggedItems.Query.Parse
/-!
# Names that spell numbers

A reader of decimal numbers accepts one or more ASCII digits and nothing else, and their value is
the positional one (`natural?_eq_some_iff`). Names stand for items up to the largest number
(`target?_eq_some_iff`), and an item is refused by every set in which a name spells its number
(`PredicateSet.Spells`).
-/
namespace TaggedItems

namespace Decimal

/-- One or more ASCII digits, the last of which counts ones. -/
def Spells (cs : List Char) (n : Nat) : Prop :=
  cs ≠ [] ∧ (∀ c ∈ cs, '0' ≤ c ∧ c ≤ '9') ∧
    n = Nat.ofDigits 10 (cs.reverse.map fun c => c.toNat - '0'.toNat)

theorem isDigit_iff {c : Char} : c.isDigit = true ↔ '0' ≤ c ∧ c ≤ '9' := by
  simp only [Char.isDigit, Bool.and_eq_true, decide_eq_true_eq]
  exact Iff.rfl

theorem digit?_eq_some_iff {c : Char} {d : Nat} :
    digit? c = some d ↔ ('0' ≤ c ∧ c ≤ '9') ∧ d = c.toNat - '0'.toNat := by
  unfold digit?
  split
  · rename_i digit
    simp [isDigit_iff.mp digit, eq_comm]
  · rename_i other
    simp [mt isDigit_iff.mpr other]

theorem extend?_eq_some_iff {m n : Nat} {cs : List Char} :
    extend? m cs = some n ↔ (∀ c ∈ cs, '0' ≤ c ∧ c ≤ '9') ∧
      n = Nat.ofDigits 10 (cs.reverse.map fun c => c.toNat - '0'.toNat) + 10 ^ cs.length * m := by
  induction cs generalizing m with
  | nil => simp [extend?, eq_comm]
  | cons c rest ih =>
    simp only [extend?, Option.bind_eq_some_iff, digit?_eq_some_iff, ih, List.forall_mem_cons,
      List.reverse_cons, List.map_append, List.map_cons, List.map_nil, Nat.ofDigits_append,
      Nat.ofDigits_singleton, List.length_map, List.length_reverse, List.length_cons]
    constructor
    · rintro ⟨d, ⟨digit, rfl⟩, digits, rfl⟩
      exact ⟨⟨digit, digits⟩, by ring⟩
    · rintro ⟨⟨digit, digits⟩, rfl⟩
      exact ⟨_, ⟨digit, rfl⟩, digits, by ring⟩

theorem natural?_eq_some_iff {cs : List Char} {n : Nat} :
    natural? cs = some n ↔ Spells cs n := by
  cases cs with
  | nil => simp [natural?, Spells]
  | cons c rest =>
    rw [natural?, extend?_eq_some_iff, Spells]
    simp

theorem length_digits_le {n k : Nat} (below : n < 10 ^ (k + 1)) : (digits n).length ≤ k + 1 := by
  induction k generalizing n with
  | zero => rw [digits, if_pos (by omega), List.length_singleton]
  | succ k ih =>
    unfold digits
    split
    · simp
    · have := ih (Nat.div_lt_of_lt_mul (by rw [← Nat.pow_succ']; exact below))
      rw [List.length_append, List.length_singleton]
      omega

theorem Spells.isDigit {cs : List Char} {n : Nat} (spells : Spells cs n) :
    ∀ c ∈ cs, c.isDigit = true :=
  fun c there => isDigit_iff.mpr (spells.2.1 c there)

theorem Spells.unique {cs : List Char} {m n : Nat} (first : Spells cs m) (second : Spells cs n) :
    m = n :=
  first.2.2.trans second.2.2.symm

/-- A number begins with a digit. -/
theorem Spells.ne_cons {cs : List Char} {n : Nat} (spells : Spells cs n) {c : Char}
    (other : c.isDigit = false) (rest : List Char) : cs ≠ c :: rest := by
  rintro rfl
  simp [spells.isDigit c List.mem_cons_self] at other

/-- What is written for a number spells it. -/
theorem digits_spells (n : Nat) : Spells (digits n) n := natural?_eq_some_iff.mp (natural?_digits n)

theorem of_mem_chars {n : Int} {c : Char} (h : c ∈ chars n) : c = '-' ∨ '0' ≤ c ∧ c ≤ '9' := by
  cases n with
  | ofNat n => exact .inr ((digits_spells n).2.1 c h)
  | negSucc n =>
    rcases List.mem_cons.mp h with rfl | digit
    · exact .inl rfl
    · exact .inr ((digits_spells (n + 1)).2.1 c digit)

theorem digits_inj {m n : Nat} (same : digits m = digits n) : m = n := by
  have read := congrArg natural? same
  rwa [natural?_digits, natural?_digits, Option.some_inj] at read

/-- Numbers are told apart by their texts. -/
theorem chars_inj {m n : Int} (same : chars m = chars n) : m = n := by
  cases m with
  | ofNat m =>
    cases n with
    | ofNat n => rw [digits_inj same]
    | negSucc n => exact absurd same ((digits_spells m).ne_cons rfl _)
  | negSucc m =>
    cases n with
    | ofNat n => exact absurd same.symm ((digits_spells n).ne_cons rfl _)
    | negSucc n =>
      have below := digits_inj (List.cons.inj same).2
      rw [Nat.succ.inj below]

end Decimal

namespace Predicate
variable {p : Predicate} {i : Identity}

theorem identity?_eq_some_iff :
    p.identity? = some i ↔
      ∃ n : Nat, Decimal.Spells p.name.toList n ∧ n ≤ 2 ^ 63 - 1 ∧ i = n := by
  simp only [identity?, Identity.ofName?_eq_some_iff, Decimal.natural?_eq_some_iff]
  exact Iff.rfl

theorem target?_eq_some_iff :
    p.target? = some i ↔ p.sign = .includes ∧
      ∃ n : Nat, Decimal.Spells p.name.toList n ∧ n ≤ 2 ^ 63 - 1 ∧ i = n := by
  rw [← identity?_eq_some_iff]
  obtain ⟨sign, name⟩ := p
  cases sign <;> simp [target?]

theorem target?_bounded (h : p.target? = some i) : 0 ≤ i ∧ i ≤ 2 ^ 63 - 1 := by
  obtain ⟨-, n, -, bounded, rfl⟩ := target?_eq_some_iff.mp h
  change (0 : Int) ≤ n ∧ (n : Int) ≤ 2 ^ 63 - 1
  omega

theorem target?_eq_none_iff :
    p.target? = none ↔ ¬ (p.sign = .includes ∧ ∃ i, p.identity? = some i) := by
  obtain ⟨sign, name⟩ := p
  cases sign <;> simp [target?, Option.eq_none_iff_forall_ne_some]

/-- The text of a number targets that number, if it is one that a name can spell. -/
theorem target?_text (i : Identity) :
    (Predicate.mk .includes (Decimal.text i)).target? =
      if 0 ≤ i ∧ i ≤ 2 ^ 63 - 1 then some i else none := by
  simp only [target?, identity?, Identity.ofName?, Decimal.text, String.toList_ofList]
  cases i with
  | ofNat n =>
    have bounded : n ≤ Identity.largest ↔ 0 ≤ Int.ofNat n ∧ Int.ofNat n ≤ 2 ^ 63 - 1 := by
      simp only [Identity.largest, Int.ofNat_eq_natCast]
      omega
    simp only [Decimal.chars, Decimal.natural?_digits, bounded]
    rfl
  | negSucc n => simp [Decimal.chars, Decimal.natural?, Decimal.extend?, Decimal.digit?]

end Predicate

/-- The name is a decimal spelling of the number, with or without zeros in front. -/
def Identity.SpelledBy (i : Identity) (name : String) : Prop :=
  ∃ n : Nat, n ≤ 2 ^ 63 - 1 ∧ Decimal.Spells name.toList n ∧ i = n

theorem Predicate.identity?_eq_some_iff_spelledBy {p : Predicate} {i : Identity} :
    p.identity? = some i ↔ i.SpelledBy p.name := by
  rw [identity?_eq_some_iff, Identity.SpelledBy]
  exact exists_congr fun n => and_left_comm

/-- Some name of the set spells the number, with whichever sign. -/
def PredicateSet.Spells (predicates : PredicateSet) (i : Identity) : Prop :=
  ∃ p ∈ predicates.toList, ∃ n : Nat, n ≤ 2 ^ 63 - 1 ∧ Decimal.Spells p.name.toList n ∧ i = n

theorem PredicateSet.not_spells_iff {predicates : PredicateSet} {i : Identity} :
    ¬ predicates.Spells i ↔ ∀ p ∈ predicates.toList, p.identity? ≠ some i := by
  change (¬ ∃ p ∈ predicates.toList, i.SpelledBy p.name) ↔ _
  simp only [not_exists, not_and, ne_eq, Predicate.identity?_eq_some_iff_spelledBy]

end TaggedItems
