import Mathlib.Data.List.Sort
import TaggedItems.Item
/-!
# Ascending lists by their members

A list that is strictly ordered is determined by its members, so sets that are kept as ascending
lists are equal as soon as they hold the same entries (`TagSet.ext`). On tag sets this
gives union and difference. A predicate set that is collected holds the first predicate of each name
(`mem_toList_ofList`), so of two sets one can be laid over the other (`mem_laidOver`), and that one
is found when its name is looked up (`get?_ofList`).
-/
namespace TaggedItems

theorem eq_of_pairwise_of_mem_iff {α : Type} {r : α → α → Prop} (asymm : ∀ a b, r a b → ¬ r b a)
    {xs ys : List α} (hx : xs.Pairwise r) (hy : ys.Pairwise r) (same : ∀ a, a ∈ xs ↔ a ∈ ys) :
    xs = ys := by
  have : Std.Irrefl r := ⟨fun a h => asymm a a h h⟩
  have : Std.Antisymm r := ⟨fun a b h h' => absurd h' (asymm a b h)⟩
  exact hx.eq_of_mem_iff hy same

namespace Ascending
variable {α : Type} {key : α → String} {xs ys : List α}

theorem eq_of_mem_iff (hx : Ascending key xs) (hy : Ascending key ys)
    (same : ∀ a, a ∈ xs ↔ a ∈ ys) : xs = ys :=
  eq_of_pairwise_of_mem_iff (fun _ _ h h' => String.lt_irrefl _ (String.lt_trans h h')) hx hy same

theorem lt_iff_lt (h : Ascending key xs) {i j : Nat} (hi : i < xs.length) (hj : j < xs.length) :
    key xs[i] < key xs[j] ↔ i < j := by
  have below {i j : Nat} (hj : j < xs.length) (before : i < j) : key xs[i] < key xs[j] :=
    List.pairwise_iff_getElem.mp h i j (by omega) hj before
  constructor
  · intro less
    rcases Nat.lt_trichotomy i j with before | rfl | behind
    · exact before
    · exact absurd less (String.lt_irrefl _)
    · exact absurd (String.lt_trans less (below hi behind)) (String.lt_irrefl _)
  · exact below hj

theorem nodup_keys (h : Ascending key xs) : (xs.map key).Nodup := by
  rw [List.Nodup, List.pairwise_map]
  apply h.imp
  intro a b below same
  exact String.lt_irrefl _ (same ▸ below)

end Ascending

namespace TagSet
variable {a b : TagSet} {name : String}

@[ext] theorem ext (same : ∀ name, name ∈ a ↔ name ∈ b) : a = b := by
  obtain ⟨as, ha⟩ := a
  obtain ⟨bs, hb⟩ := b
  obtain rfl : as = bs := Ascending.eq_of_mem_iff ha hb same
  rfl

theorem insert_eq_self_iff : a.insert name = a ↔ name ∈ a := by
  constructor
  · intro same
    rw [← same, mem_insert]
    exact .inl rfl
  · intro held
    ext other
    rw [mem_insert, or_iff_right_of_imp]
    rintro rfl
    exact held

/-- A name is new exactly if the set changes. -/
theorem add_new_iff : (a.add name).1 = true ↔ (a.add name).2 ≠ a := by
  rw [add, decide_eq_true_iff, ne_eq, insert_eq_self_iff]

instance : Union TagSet := ⟨fun a b => b.names.foldl insert a⟩

instance : SDiff TagSet := ⟨fun a b => .ofList (a.names.filter (· ∉ b))⟩

@[simp] theorem mem_union : name ∈ a ∪ b ↔ name ∈ a ∨ name ∈ b := by
  change name ∈ b.names.foldl insert a ↔ _
  rw [mem_foldl_insert, or_comm]
  rfl

@[simp] theorem mem_sdiff : name ∈ a \ b ↔ name ∈ a ∧ name ∉ b := by
  change name ∈ ofList (a.names.filter (· ∉ b)) ↔ _
  rw [mem_ofList, List.mem_filter]
  simp only [decide_eq_true_eq]
  rfl

theorem ne_empty_iff : a ≠ empty ↔ ∃ name, name ∈ a := by
  rw [← not_iff_not, not_not, not_exists, TagSet.ext_iff]
  exact forall_congr' fun name => iff_false_right List.not_mem_nil

end TagSet

namespace PredicateSet
variable {set : PredicateSet} {name : String}

/-- Every name is asked about once. -/
theorem nodup_names (set : PredicateSet) : (set.toList.map Predicate.name).Nodup :=
  Ascending.nodup_keys set.ascending

theorem eq_of_name (set : PredicateSet) {p q : Predicate} (hp : p ∈ set.toList)
    (hq : q ∈ set.toList) (same : p.name = q.name) : p = q :=
  List.inj_on_of_nodup_map set.nodup_names hp hq same

theorem not_excludes (set : PredicateSet) (h : ⟨.includes, name⟩ ∈ set.toList) :
    ⟨.excludes, name⟩ ∉ set.toList := fun opposite => by
  cases set.eq_of_name h opposite rfl

theorem mem_names_of_sign {sign : Sign} :
    name ∈ (set.toList.filter (·.sign = sign)).map (·.name) ↔ ⟨sign, name⟩ ∈ set.toList := by
  simp only [List.mem_map, List.mem_filter, decide_eq_true_eq]
  constructor
  · rintro ⟨p, ⟨held, rfl⟩, rfl⟩
    exact held
  · intro held
    exact ⟨_, ⟨held, rfl⟩, rfl⟩

theorem mem_includedNames : name ∈ set.includedNames ↔ ⟨.includes, name⟩ ∈ set.toList :=
  mem_names_of_sign

/-- Of the predicates that share a name the first one is collected, if none of that name is held. -/
theorem mem_collected {ps held : List Predicate} {p : Predicate}
    (ascending : Ascending Predicate.name held) :
    p ∈ ps.foldl (fun held q => Ascending.insert Predicate.name q held) held ↔
      p ∈ held ∨ (∀ old ∈ held, old.name ≠ p.name) ∧ ps.find? (·.name = p.name) = some p := by
  induction ps generalizing held with
  | nil => simp
  | cons first rest ih =>
    have inserted : ∀ a, a ∈ Ascending.insert Predicate.name first held ↔
        a ∈ held ∨ a = first ∧ ∀ b ∈ held, b.name ≠ first.name :=
      fun _ => Ascending.mem_insert ascending
    rw [List.foldl_cons, ih (Ascending.insert_ascending ascending), List.find?_cons]
    by_cases same : first.name = p.name
    · -- The name is held now, if it was not before.
      have taken : ¬ ∀ old ∈ Ascending.insert Predicate.name first held, old.name ≠ p.name := by
        intro free
        have new : first ∈ Ascending.insert Predicate.name first held :=
          (inserted first).mpr (.inr ⟨rfl, fun b there is =>
            free b ((inserted b).mpr (.inl there)) (is.trans same)⟩)
        exact free first new same
      rw [or_iff_left fun free => taken free.1, inserted]
      simp only [same, decide_true, Option.some.injEq, and_comm, eq_comm]
    · have other : p ≠ first := fun is => same (is ▸ rfl)
      have free : (∀ old ∈ Ascending.insert Predicate.name first held, old.name ≠ p.name) ↔
          ∀ old ∈ held, old.name ≠ p.name := by
        simp only [inserted, or_imp, forall_and, and_imp, forall_eq, same, not_false_eq_true,
          implies_true, and_true, ne_eq]
      rw [free, inserted]
      simp only [other, false_and, or_false, same, decide_false]

/-- The first predicate of each name is collected. -/
theorem mem_toList_ofList {ps : List Predicate} {p : Predicate} :
    p ∈ (ofList ps).toList ↔ ps.find? (·.name = p.name) = some p := by
  rw [ofList, toList_ofAscending, mem_collected .nil]
  simp

theorem exists_first {ps : List Predicate} {p : Predicate} (there : p ∈ ps) :
    ∃ first, ps.find? (·.name = p.name) = some first ∧ first.name = p.name := by
  have found : (ps.find? (·.name = p.name)).isSome := List.find?_isSome.mpr ⟨p, there, by simp⟩
  obtain ⟨first, look⟩ := Option.isSome_iff_exists.mp found
  exact ⟨first, look, by simpa using List.find?_some look⟩

/-- Where no two predicates share a name, each one is the first of its name. -/
theorem find?_name_eq_some_iff_of_unique {ps : List Predicate} {p : Predicate}
    (unique : ∀ a ∈ ps, ∀ b ∈ ps, a.name = b.name → a = b) :
    ps.find? (·.name = p.name) = some p ↔ p ∈ ps := by
  constructor
  · exact List.mem_of_find?_eq_some
  · intro there
    obtain ⟨first, look, same⟩ := exists_first there
    obtain rfl := unique first (List.mem_of_find?_eq_some look) p there same
    exact look

theorem find?_name_eq_some_iff {ps : List Predicate} (distinct : (ps.map Predicate.name).Nodup)
    {p : Predicate} : ps.find? (·.name = p.name) = some p ↔ p ∈ ps :=
  find?_name_eq_some_iff_of_unique fun _ ha _ hb same =>
    List.inj_on_of_nodup_map distinct ha hb same

theorem toList_ofList_perm {ps : List Predicate} (distinct : (ps.map Predicate.name).Nodup) :
    (ofList ps).toList.Perm ps := by
  apply (List.perm_ext_iff_of_nodup (.of_map _ (nodup_names _)) (.of_map _ distinct)).mpr
  intro p
  rw [mem_toList_ofList, find?_name_eq_some_iff distinct]

/-- What is in order is collected as it stands. -/
theorem toList_ofList {ps : List Predicate} (ascending : Ascending Predicate.name ps) :
    (ofList ps).toList = ps :=
  Ascending.eq_of_mem_iff (ofList ps).ascending ascending
    fun _ => (toList_ofList_perm ascending.nodup_keys).mem_iff

/-- A part of a set is collected as it stands. -/
theorem toList_ofList_filter (set : PredicateSet) (keep : Predicate → Bool) :
    (ofList (set.toList.filter keep)).toList = set.toList.filter keep :=
  toList_ofList (List.Pairwise.filter _ set.ascending)

/-! ## Looking a name up -/

/-- What stands in the range under the name is found, and nothing else. -/
theorem search_eq_some_iff {entries : Array Predicate}
    (ascending : Ascending Predicate.name entries.toList) {low high : Nat}
    {within : high ≤ entries.size} {p : Predicate} :
    search entries name low high within = some p ↔
      ∃ (i : Nat) (inside : i < entries.size),
        low ≤ i ∧ i < high ∧ entries[i] = p ∧ p.name = name := by
  fun_induction search entries name low high within with
  | case1 low high within range middle inside found =>
    have place : low ≤ middle ∧ middle < high := by omega
    constructor
    · rintro ⟨⟩
      exact ⟨middle, inside, place.1, place.2, rfl, found⟩
    · rintro ⟨i, held, -, -, rfl, same⟩
      have only := eq_of_name ⟨entries, ascending⟩ (Array.getElem_mem_toList inside)
        (Array.getElem_mem_toList held) (found.trans same.symm)
      rw [only]
  | case2 low high within range middle inside other less ih =>
    -- The name can only stand behind the middle.
    have past {i : Nat} (held : i < entries.size) (is : entries[i].name = name) : middle < i :=
      (ascending.lt_iff_lt inside held).mp (is ▸ less)
    rw [ih]
    refine exists₂_congr fun i held => ⟨?_, ?_⟩
    · rintro ⟨behind, rest⟩
      exact ⟨by omega, rest⟩
    · rintro ⟨-, ends, rfl, is⟩
      exact ⟨past held is, ends, rfl, is⟩
  | case3 low high within range middle inside other notLess ih =>
    -- The name can only stand before the middle.
    have before {i : Nat} (held : i < entries.size) (is : entries[i].name = name) : i < middle := by
      have notPast : ¬ middle < i := fun past =>
        notLess (is ▸ (ascending.lt_iff_lt inside held).mpr past)
      have differs : i ≠ middle := by
        rintro rfl
        exact other is
      omega
    rw [ih]
    refine exists₂_congr fun i held => ⟨?_, ?_⟩
    · rintro ⟨starts, ends, rest⟩
      exact ⟨starts, by omega, rest⟩
    · rintro ⟨starts, -, rfl, is⟩
      exact ⟨starts, before held is, rfl, is⟩
  | case4 low high within empty =>
    constructor
    · rintro ⟨⟩
    · rintro ⟨i, -, starts, ends, -⟩
      omega

theorem get?_eq_some_iff {p : Predicate} :
    set.get? name = some p ↔ p ∈ set.toList ∧ p.name = name := by
  rw [get?, search_eq_some_iff set.ascending, toList, Array.mem_toList_iff, Array.mem_iff_getElem]
  constructor
  · rintro ⟨i, inside, -, -, rfl, same⟩
    exact ⟨⟨i, inside, rfl⟩, same⟩
  · rintro ⟨⟨i, inside, rfl⟩, same⟩
    exact ⟨i, inside, Nat.zero_le i, inside, rfl, same⟩

/-- The first predicate of a name is found in what is collected. -/
theorem get?_ofList {ps : List Predicate} (name : String) :
    (ofList ps).get? name = ps.find? (·.name = name) := by
  ext p
  rw [get?_eq_some_iff, mem_toList_ofList]
  constructor
  · rintro ⟨first, rfl⟩
    exact first
  · intro first
    obtain rfl : p.name = name := by simpa using List.find?_some first
    exact ⟨first, rfl⟩

/-- A set is known by what it says about each name. -/
theorem ext_get? {a b : PredicateSet} (same : ∀ name, a.get? name = b.get? name) : a = b := by
  apply PredicateSet.ext
  apply Ascending.eq_of_mem_iff a.ascending b.ascending
  intro p
  have found (set : PredicateSet) : p ∈ set.toList ↔ set.get? p.name = some p := by
    rw [get?_eq_some_iff, and_iff_left rfl]
  exact (found a).trans (same p.name ▸ (found b).symm)

/-! ## Two sets together -/

/-- What two sets ask together, where the later one decides about the names that both have. -/
def laidOver (later earlier : PredicateSet) : PredicateSet :=
  .ofList (later.toList ++ earlier.toList)

theorem mem_laidOver {later earlier : PredicateSet} {p : Predicate} :
    p ∈ (later.laidOver earlier).toList ↔
      p ∈ later.toList ∨ (∀ q ∈ later.toList, q.name ≠ p.name) ∧ p ∈ earlier.toList := by
  rw [laidOver, mem_toList_ofList, List.find?_append, Option.or_eq_some_iff,
    find?_name_eq_some_iff later.nodup_names, find?_name_eq_some_iff earlier.nodup_names,
    List.find?_eq_none]
  simp only [decide_eq_true_eq, ne_eq]

@[simp] theorem laidOver_self (set : PredicateSet) : set.laidOver set = set := by
  apply PredicateSet.ext
  apply Ascending.eq_of_mem_iff (set.laidOver set).ascending set.ascending
  intro p
  change p ∈ (set.laidOver set).toList ↔ p ∈ set.toList
  rw [mem_laidOver]
  exact or_iff_left_of_imp And.right

end PredicateSet
end TaggedItems
