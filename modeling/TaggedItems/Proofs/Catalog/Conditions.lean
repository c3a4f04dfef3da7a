import TaggedItems.Proofs.Shelf
import TaggedItems.Proofs.Spelling
/-!
# Queries as conditions

The candidates of a query depend on its target alone, so what it finds is a part of what is found
when nothing is asked (`getItems_eq_filter`), in whatever state the tables are. To ask for two sets
together is then to ask for one of them among what the other one finds, and to ask about one name
more divides what is found in two, but for the item whose number it spells (`queries_combine`).
-/
namespace TaggedItems

/-- No name has opposite signs in the two sets. -/
def PredicateSet.Consistent (p q : PredicateSet) : Prop :=
  ∀ a ∈ p.toList, ∀ b ∈ q.toList, a.name = b.name → a.sign = b.sign

instance (p q : PredicateSet) : Decidable (p.Consistent q) :=
  inferInstanceAs (Decidable (∀ a ∈ p.toList, ∀ b ∈ q.toList, a.name = b.name → a.sign = b.sign))

namespace PredicateSet
variable {p q : PredicateSet} {together : List Predicate} {item : Item} {name : String}

theorem Consistent.eq (consistent : p.Consistent q) {a b : Predicate} (ha : a ∈ p.toList)
    (hb : b ∈ q.toList) (same : a.name = b.name) : a = b := by
  have signs := consistent a ha b hb same
  cases a
  cases b
  simp_all

/-- Nothing is dropped where the sets agree about the names that they share. -/
theorem mem_ofList_of_consistent (consistent : p.Consistent q)
    (both : ∀ a, a ∈ together ↔ a ∈ p.toList ∨ a ∈ q.toList) {a : Predicate} :
    a ∈ (ofList together).toList ↔ a ∈ p.toList ∨ a ∈ q.toList := by
  have unique : ∀ a ∈ together, ∀ b ∈ together, a.name = b.name → a = b := by
    intro a ha b hb same
    rcases (both a).mp ha with ha | ha <;> rcases (both b).mp hb with hb | hb
    · exact p.eq_of_name ha hb same
    · exact consistent.eq ha hb same
    · exact (consistent.eq hb ha same.symm).symm
    · exact q.eq_of_name ha hb same
  rw [mem_toList_ofList, find?_name_eq_some_iff_of_unique unique, both]

theorem satisfies_ofList (consistent : p.Consistent q)
    (both : ∀ a, a ∈ together ↔ a ∈ p.toList ∨ a ∈ q.toList) :
    item.satisfies (ofList together) = (item.satisfies p && item.satisfies q) := by
  apply Bool.eq_iff_iff.mpr
  simp only [Item.satisfies, Bool.and_eq_true, List.all_eq_true,
    mem_ofList_of_consistent consistent both, or_imp, forall_and]

theorem toList_ofList_singleton (a : Predicate) : (ofList [a]).toList = [a] :=
  toList_ofList (List.pairwise_singleton _ a)

/-- One predicate more is a set of its own. -/
theorem satisfies_ofList_cons {a : Predicate} (free : ∀ b ∈ p.toList, b.name ≠ a.name) :
    item.satisfies (ofList (a :: p.toList)) = (item.meets a && item.satisfies p) := by
  have alone := toList_ofList_singleton a
  have consistent : (ofList [a]).Consistent p := by
    intro b hb other there same
    obtain rfl : b = a := List.mem_singleton.mp (alone ▸ hb)
    exact absurd same.symm (free other there)
  rw [satisfies_ofList consistent (by simp [alone])]
  simp [Item.satisfies, alone]

end PredicateSet

namespace Catalog
variable {c : Catalog} {target : Option Identity} {p q : PredicateSet} {name : String}

/-- The candidates are what the query finds that asks nothing. -/
theorem getItems_eq_filter (c : Catalog) (p : PredicateSet) (target : Option Identity) :
    c.getItems p target = (c.getItems .empty target).filter (·.satisfies p) := by
  have all (item : Item) : item.satisfies .empty = true := rfl
  cases target with
  | none =>
    cases fetched : c.fetchTagged <;>
      simp [getItems, fetchMatching, fetched, all, bind, Except.bind, pure, Except.pure,
        Except.toOption]
  | some item =>
    cases fetched : c.fetchItem item <;>
      simp [getItems, fetchMatching, fetched, all, bind, Except.bind, pure, Except.pure,
        Except.toOption, Functor.map, Except.map]

theorem mem_getItems_iff {item : Item} :
    item ∈ c.getItems p target ↔ item ∈ c.getItems .empty target ∧ item.satisfies p = true := by
  rw [getItems_eq_filter, List.mem_filter]

theorem getItems_of_consistent {together : List Predicate} (consistent : p.Consistent q)
    (both : ∀ a, a ∈ together ↔ a ∈ p.toList ∨ a ∈ q.toList) :
    c.getItems (.ofList together) target =
      (c.getItems p target).filter (· ∈ c.getItems q target) := by
  rw [getItems_eq_filter, getItems_eq_filter c p, List.filter_filter]
  apply List.filter_congr
  intro item candidate
  rw [PredicateSet.satisfies_ofList consistent both, Bool.and_comm]
  simp only [mem_getItems_iff, candidate, true_and, Bool.decide_eq_true]

/-! ## One name more -/

theorem getItems_cons {a : Predicate} (free : ∀ b ∈ p.toList, b.name ≠ a.name) :
    c.getItems (.ofList (a :: p.toList)) target = (c.getItems p target).filter (·.meets a) := by
  rw [getItems_eq_filter, getItems_eq_filter c p, List.filter_filter]
  exact List.filter_congr fun _ _ => PredicateSet.satisfies_ofList_cons free

/-- What is found is divided by a name: there is a part with the tag and a part without it, and an
item whose number the name spells is in neither of them, whatever its tags are. -/
structure Divides (name : String) (found tagged untagged : List Item) : Prop where
  taggedPart : tagged.Sublist found
  untaggedPart : untagged.Sublist found
  disjoint : ∀ item ∈ tagged, item ∉ untagged
  covered : ∀ item ∈ found, ¬ item.id.SpelledBy name → item ∈ tagged ∨ item ∈ untagged
  apart : ∀ item ∈ found, item.id.SpelledBy name → item ∉ tagged ∧ item ∉ untagged
  carry : ∀ item ∈ tagged, name ∈ item.tags
  lack : ∀ item ∈ untagged, name ∉ item.tags

theorem divides_filter (name : String) (found : List Item) :
    Divides name found (found.filter (·.meets ⟨.includes, name⟩))
      (found.filter (·.meets ⟨.excludes, name⟩)) := by
  have meets (sign : Sign) (item : Item) : item.meets ⟨sign, name⟩ = true ↔
      ¬ item.id.SpelledBy name ∧ (sign = .includes ↔ name ∈ item.tags) := by
    rw [Item.meets_iff, ne_eq, Predicate.identity?_eq_some_iff_spelledBy]
  refine ⟨List.filter_sublist, List.filter_sublist, ?_, ?_, ?_, ?_, ?_⟩ <;>
    simp only [List.mem_filter, meets]
  · rintro item ⟨-, -, tagged⟩ ⟨-, -, untagged⟩
    simp_all
  · intro item there other
    by_cases tagged : name ∈ item.tags
    · exact .inl ⟨there, other, by simp [tagged]⟩
    · exact .inr ⟨there, other, by simp [tagged]⟩
  · intro item _ own
    exact ⟨fun h => h.2.1 own, fun h => h.2.1 own⟩
  · rintro item ⟨-, -, tagged⟩
    exact tagged.mp trivial
  · rintro item ⟨-, -, untagged⟩ tagged
    cases untagged.mpr tagged

/-- Whatever the tables hold, two sets that agree about their names ask together for what both of
them find, in the order of the one, and a name that a set does not have divides what it finds. -/
theorem queries_combine (c : Catalog) (target : Option Identity) (p : PredicateSet) :
    (∀ q together, p.Consistent q → (∀ a, a ∈ together ↔ a ∈ p.toList ∨ a ∈ q.toList) →
      c.getItems (.ofList together) target =
        (c.getItems p target).filter (· ∈ c.getItems q target)) ∧
      ∀ name, (∀ a ∈ p.toList, a.name ≠ name) →
        Divides name (c.getItems p target)
          (c.getItems (.ofList (⟨.includes, name⟩ :: p.toList)) target)
          (c.getItems (.ofList (⟨.excludes, name⟩ :: p.toList)) target) := by
  refine ⟨fun q together consistent both => getItems_of_consistent consistent both,
    fun name free => ?_⟩
  rw [getItems_cons (a := ⟨.includes, name⟩) free, getItems_cons (a := ⟨.excludes, name⟩) free]
  exact divides_filter name _

/-- The second item has its own number among its tags, with a zero in front. -/
def selfNamed : Catalog :=
  ⟨some ⟨2, [⟨1, "foo"⟩, ⟨2, "02"⟩]⟩,
    some ⟨3, [⟨1, .text "first"⟩, ⟨2, .text "second"⟩, ⟨3, .text "third"⟩]⟩,
    some [⟨1, 1⟩, ⟨1, 2⟩, ⟨2, 1⟩, ⟨2, 2⟩, ⟨3, 1⟩]⟩

/-- All three items have the one tag. About the other one the first and the third item differ, and
the second item is found neither with it nor without it. -/
theorem selfNamed_combines :
    (PredicateSet.ofList [⟨.includes, "foo"⟩]).Consistent (.ofList [⟨.includes, "02"⟩]) ∧
      selfNamed.getItems (.ofList [⟨.includes, "02"⟩, ⟨.includes, "foo"⟩]) none =
        (selfNamed.getItems (.ofList [⟨.includes, "foo"⟩]) none).filter
          (· ∈ selfNamed.getItems (.ofList [⟨.includes, "02"⟩]) none) ∧
      (selfNamed.getItems (.ofList [⟨.includes, "foo"⟩]) none).map (·.id) = [1, 2, 3] ∧
      (∀ a ∈ (PredicateSet.ofList [⟨.includes, "foo"⟩]).toList, a.name ≠ "02") ∧
      ∃ tagged untagged,
        Divides "02" (selfNamed.getItems (.ofList [⟨.includes, "foo"⟩]) none) tagged untagged ∧
          tagged.map (·.id) = [1] ∧ untagged.map (·.id) = [3] := by
  have alone := PredicateSet.toList_ofList_singleton
  have free : ∀ a ∈ (PredicateSet.ofList [⟨.includes, "foo"⟩]).toList, a.name ≠ "02" := by
    simp [alone]
  have consistent :
      (PredicateSet.ofList [⟨.includes, "foo"⟩]).Consistent (.ofList [⟨.includes, "02"⟩]) := by
    simp [PredicateSet.Consistent, alone]
  obtain ⟨combines, divides⟩ := queries_combine selfNamed none (.ofList [⟨.includes, "foo"⟩])
  exact ⟨consistent, combines _ _ consistent (by simp [alone, or_comm]), by decide +kernel, free, _,
    _,
    divides "02" free, by decide +kernel, by decide +kernel⟩

end Catalog
end TaggedItems
