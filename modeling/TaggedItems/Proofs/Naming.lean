import TaggedItems.Proofs.Catalog.Conditions
import TaggedItems.Proofs.Query.RoundTrip
/-!
# Names that stand for items

A name that spells a number up to the largest one stands for the item of that number: as the first
name of a path it makes the item the target, and anywhere else it refuses the item. Zeros in front
make no difference, so two spellings stand for one item exactly if they have the same value
(`ofName?_reads_numbers`).
-/
namespace TaggedItems.Identity
variable {i : Identity} {name other : String} {m n : Nat}

/-- The item is the target of the path that gives nothing but the name. -/
def TargetOf (i : Identity) (name : String) : Prop :=
  ∃ q, Query.parse ("/" ++ name) = .ok q ∧ q.target = some i

/-- The item satisfies no predicates that the name is among, whatever their signs and its tags. -/
def RefusedBy (i : Identity) (name : String) : Prop :=
  ∀ (item : Item) (predicates : PredicateSet), item.id = i →
    (∃ p ∈ predicates.toList, p.name = name) → item.satisfies predicates = false

theorem ofName?_eq_some_iff_spelledBy : ofName? name = some i ↔ i.SpelledBy name :=
  Predicate.identity?_eq_some_iff_spelledBy (p := ⟨.includes, name⟩)

theorem ofName?_of_spells (spells : Decimal.Spells name.toList n) (bounded : n ≤ 2 ^ 63 - 1) :
    ofName? name = some (n : Int) :=
  ofName?_eq_some_iff_spelledBy.mpr ⟨n, bounded, spells, rfl⟩

theorem refusedBy_iff : i.RefusedBy name ↔ ofName? name = some i := by
  constructor
  · intro refused
    by_contra other
    -- If the name does not stand for the item, the item satisfies it with a tag of that name.
    have named : ∃ p ∈ (PredicateSet.ofList [⟨.includes, name⟩]).toList, p.name = name :=
      ⟨⟨.includes, name⟩, by simp [PredicateSet.toList_ofList_singleton], rfl⟩
    have meets : (Item.mk i "" (.ofList [name])).meets ⟨.includes, name⟩ = true :=
      Item.meets_iff.mpr ⟨other, by simp [TagSet.mem_ofList]⟩
    have satisfied := refused ⟨i, "", .ofList [name]⟩ _ rfl named
    simp [Item.satisfies, PredicateSet.toList_ofList_singleton, meets] at satisfied
  · rintro own item predicates rfl ⟨p, there, rfl⟩
    rw [Item.satisfies, List.all_eq_false]
    exact ⟨p, there, fun meets => (Item.meets_iff.mp meets).1 own⟩

theorem targetOf_iff (spells : Decimal.Spells name.toList n) :
    i.TargetOf name ↔ ofName? name = some i := by
  have named : ∀ p ∈ [Predicate.mk .includes name],
      p.name ≠ "" ∧ ∀ c ∈ p.name.toList, ¬ Query.Operator c :=
    List.forall_mem_singleton.mpr ⟨by simpa using spells.1, fun c there =>
      Query.not_operator_of_digit (spells.2.1 c there)⟩
  have text : ("/" ++ name).toList = [].map Sign.symbol ++
      [Predicate.mk .includes name].flatMap fun p => p.text.toList := by
    simp [Predicate.text, Sign.symbol]
  have parsed := Query.parse_pairs named text
  have target : (Predicate.mk .includes name).target? = ofName? name := rfl
  unfold TargetOf
  cases number : ofName? name with
  | some j =>
    rw [parsed, Query.ofScanned?_of_number [] (target.trans number)]
    simp
  | none =>
    rw [parsed, Query.ofScanned?_of_first [] (target.trans number)]
    simp

/-- Two spellings stand for one number exactly if their values are the same and not too large. -/
theorem exists_ofName?_iff (first : Decimal.Spells name.toList m)
    (second : Decimal.Spells other.toList n) :
    (∃ i, ofName? name = some i ∧ ofName? other = some i) ↔ m = n ∧ m ≤ 2 ^ 63 - 1 := by
  constructor
  · rintro ⟨i, one, two⟩
    obtain ⟨k, bounded, spells, rfl⟩ := ofName?_eq_some_iff_spelledBy.mp one
    obtain ⟨l, -, spells', same⟩ := ofName?_eq_some_iff_spelledBy.mp two
    obtain rfl := spells.unique first
    obtain rfl := spells'.unique second
    exact ⟨Int.ofNat_inj.mp same, bounded⟩
  · rintro ⟨rfl, bounded⟩
    exact ⟨m, ofName?_of_spells first bounded, ofName?_of_spells second bounded⟩

/-- What a name stands for. -/
structure Reads (name : String) : Prop where
  number : ∀ i, ofName? name = some i ↔
    ∃ n : Nat, Decimal.Spells name.toList n ∧ n ≤ 2 ^ 63 - 1 ∧ i = n
  zeros : name ≠ "" → ∀ count,
    ofName? (String.ofList (List.replicate count '0') ++ name) = ofName? name
  targeted : ∀ other m n, Decimal.Spells name.toList m → Decimal.Spells other.toList n →
    ((∃ i : Identity, i.TargetOf name ∧ i.TargetOf other) ↔ m = n ∧ m ≤ 2 ^ 63 - 1)
  refused : ∀ other m n, Decimal.Spells name.toList m → Decimal.Spells other.toList n →
    ((∃ i : Identity, i.RefusedBy name ∧ i.RefusedBy other) ↔ m = n ∧ m ≤ 2 ^ 63 - 1)
  either : ∀ other m n, Decimal.Spells name.toList m → Decimal.Spells other.toList n →
    ((∃ i : Identity, i.TargetOf name ∧ i.RefusedBy other) ↔ m = n ∧ m ≤ 2 ^ 63 - 1)

/-- A name stands for a number exactly if it spells it in decimal digits, however many, and the
number is not larger than a signed word of 64 bits allows. Every such number is spelled by its own
text. -/
theorem ofName?_reads_numbers :
    (∀ name, Reads name) ∧
      ∀ n : Nat, n ≤ 2 ^ 63 - 1 → ofName? (Decimal.text n) = some (n : Int) := by
  refine ⟨fun name => ⟨fun i => ?_, fun some count => ?_, ?_, ?_, ?_⟩, fun n bounded => ?_⟩
  · exact Predicate.identity?_eq_some_iff (p := ⟨.includes, name⟩)
  · have listed : name.toList ≠ [] := by simpa using some
    simp only [ofName?, String.toList_append, String.toList_ofList,
      Decimal.natural?_replicate_zero count listed]
  · intro other m n first second
    simp only [targetOf_iff first, targetOf_iff second, exists_ofName?_iff first second]
  · intro other m n first second
    simp only [refusedBy_iff, exists_ofName?_iff first second]
  · intro other m n first second
    simp only [targetOf_iff first, refusedBy_iff, exists_ofName?_iff first second]
  · apply ofName?_of_spells _ bounded
    simpa [Decimal.text, Decimal.chars] using Decimal.digits_spells n

end TaggedItems.Identity
