import Mathlib.Data.List.Dedup
import TaggedItems.Proofs.Query.Meaning
/-!
# Collecting predicates

The predicates of a list may stand in any order, and several of them may share a name. Only the
first of each name counts (`ofList_eq_iff`), so a list may be rearranged as long as predicates that
share a name keep their order, and the predicates of a set make up the same set again in whatever
order they come. What was collected is found under its name by halving (`ofList_collects`).
-/
namespace TaggedItems.PredicateSet
variable {ps others : List Predicate} {set : PredicateSet} {name : String}

/-- The same predicates in another order, in which those that share a name keep theirs. -/
structure Rearranges (others ps : List Predicate) : Prop where
  perm : others.Perm ps
  stable : ∀ name, others.filter (·.name = name) = ps.filter (·.name = name)

/-- The predicates of one sign, in the order of their set. -/
structure PartOf (set : PredicateSet) (sign : Sign) (part : List Predicate) : Prop where
  sublist : part.Sublist set.toList
  mem_iff : ∀ p, p ∈ part ↔ p ∈ set.toList ∧ p.sign = sign

/-- The set holds the first predicate of each name that the list has, and nothing else. -/
structure Collects (ps : List Predicate) (set : PredicateSet) : Prop where
  ordered : set.InByteOrder
  found : ∀ name, set.get? name = ps.find? (·.name = name)
  absent : ∀ name, set.get? name = none ↔ ∀ p ∈ ps, p.name ≠ name
  size : set.size = (ps.map Predicate.name).dedup.length
  includes : set.PartOf .includes set.includes
  excludes : set.PartOf .excludes set.excludes
  again : ∀ others, others.Perm set.toList → ofList others = set
  rearranged : ∀ others, Rearranges others ps → ofList others = set

/-- Two lists make up the same set exactly if they begin alike with every name. -/
theorem ofList_eq_iff :
    ofList others = ofList ps ↔
      ∀ name, others.find? (·.name = name) = ps.find? (·.name = name) := by
  simp only [← get?_ofList]
  constructor
  · intro same name
    rw [same]
  · exact ext_get?

theorem Rearranges.ofList_eq (h : Rearranges others ps) : ofList others = ofList ps := by
  rw [ofList_eq_iff]
  intro name
  rw [← List.head?_filter, h.stable name, List.head?_filter]

/-- The predicates of a set have distinct names, so none of them gets lost in another order. -/
theorem ofList_eq_of_perm (h : others.Perm set.toList) : ofList others = set := by
  have distinct : (others.map Predicate.name).Nodup :=
    (h.map Predicate.name).nodup_iff.mpr set.nodup_names
  apply PredicateSet.ext
  apply Ascending.eq_of_mem_iff (ofList others).ascending set.ascending
  intro p
  exact ((toList_ofList_perm distinct).trans h).mem_iff

theorem mem_names_ofList :
    name ∈ (ofList ps).toList.map Predicate.name ↔ name ∈ ps.map Predicate.name := by
  simp only [List.mem_map]
  constructor
  · rintro ⟨p, held, rfl⟩
    exact ⟨p, List.mem_of_find?_eq_some (mem_toList_ofList.mp held), rfl⟩
  · rintro ⟨p, there, rfl⟩
    obtain ⟨first, look, same⟩ := exists_first there
    exact ⟨first, mem_toList_ofList.mpr (same ▸ look), same⟩

/-- A set has one predicate for each name of its list. -/
theorem size_ofList (ps : List Predicate) :
    (ofList ps).size = (ps.map Predicate.name).dedup.length := by
  have names : ((ofList ps).toList.map Predicate.name).Perm (ps.map Predicate.name).dedup := by
    rw [List.perm_ext_iff_of_nodup (nodup_names _) (List.nodup_dedup _)]
    intro name
    rw [mem_names_ofList, List.mem_dedup]
  rw [← names.length_eq, List.length_map]
  rfl

theorem partOf_filter (set : PredicateSet) (sign : Sign) :
    set.PartOf sign (set.toList.filter (·.sign = sign)) :=
  ⟨List.filter_sublist, fun p => by rw [List.mem_filter, decide_eq_true_iff]⟩

/-- Whatever a list of predicates holds, what is collected from it is in the order of bytes, has the
first predicate of each name and finds it, and does not depend on more of the list's order than
that. -/
theorem ofList_collects (ps : List Predicate) : Collects ps (ofList ps) where
  ordered := inByteOrder _
  found := get?_ofList
  absent name := by
    rw [get?_ofList, List.find?_eq_none]
    simp only [decide_eq_true_eq, ne_eq]
  size := size_ofList ps
  includes := partOf_filter _ .includes
  excludes := partOf_filter _ .excludes
  again _ := ofList_eq_of_perm
  rearranged _ := Rearranges.ofList_eq

/-- A name may be empty or hold an operator. The first predicate of a name decides about its
sign. -/
example :
    (ofList [⟨.excludes, "b"⟩, ⟨.includes, "a/c"⟩, ⟨.includes, "b"⟩, ⟨.includes, ""⟩]).toList =
    [⟨.includes, ""⟩, ⟨.includes, "a/c"⟩, ⟨.excludes, "b"⟩] := by
  decide +kernel

end TaggedItems.PredicateSet
