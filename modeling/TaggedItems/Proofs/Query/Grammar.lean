import Mathlib.Data.List.Basic
import TaggedItems.Query.Path
/-!
# The language of query paths

Reading is exact: what it cuts a text into is well formed (`ofChars_clean`), and there is no other
way to cut it (`ofChars_chars`). So a text has a loose beginning exactly when it begins with a
character that is no operator (`loose_eq_nil_iff`), and no segment exactly when it holds operators
only (`segments_eq_nil_iff`).
-/
namespace TaggedItems.Query

/-- The characters that no name holds. -/
def Operator (c : Char) : Prop := c = '/' ∨ c = '!'

instance (c : Char) : Decidable (Operator c) := inferInstanceAs (Decidable (c = '/' ∨ c = '!'))

theorem ofSymbol?_eq_none_iff {c : Char} : Sign.ofSymbol? c = none ↔ ¬ Operator c := by
  unfold Sign.ofSymbol? Operator
  split_ifs <;> simp [*]

theorem operator_symbol (s : Sign) : Operator s.symbol := by
  cases s
  · exact .inl rfl
  · exact .inr rfl

namespace Reading
variable {r : Reading} {c : Char}

/-- No name holds an operator, and no segment is without a name. -/
structure Clean (r : Reading) : Prop where
  loose : ∀ c ∈ r.loose, Sign.ofSymbol? c = none
  path : r.path.WellFormed

theorem operator_clean (s : Sign) (clean : r.Clean) : (r.operator s).Clean := by
  obtain ⟨loose, segments, trailing⟩ := r
  obtain ⟨free, wellFormed⟩ := clean
  have none : ∀ c ∈ ([] : List Char), Sign.ofSymbol? c = none := by simp
  cases loose with
  | cons c rest =>
    exact ⟨none, List.forall_mem_cons.mpr ⟨⟨List.cons_ne_nil c rest, free⟩, wellFormed⟩⟩
  | nil =>
    cases segments with
    | cons first others =>
      obtain ⟨firstFormed, othersFormed⟩ := List.forall_mem_cons.mp wellFormed
      exact ⟨none, List.forall_mem_cons.mpr ⟨firstFormed, othersFormed⟩⟩
    | nil => exact ⟨none, wellFormed⟩

theorem prepend_clean (c : Char) (clean : r.Clean) : (r.prepend c).Clean := by
  unfold prepend
  split
  · exact operator_clean _ clean
  · rename_i name
    exact ⟨List.forall_mem_cons.mpr ⟨name, clean.loose⟩, clean.path⟩

theorem ofChars_clean (cs : List Char) : (ofChars cs).Clean := by
  induction cs with
  | nil => exact ⟨by simp [ofChars], by simp [ofChars, Path.WellFormed]⟩
  | cons c rest ih => exact prepend_clean c ih

theorem operator_loose (s : Sign) (r : Reading) : (r.operator s).loose = [] := by
  unfold operator
  split
  · rfl
  · split <;> rfl

/-- Only an operator at the very beginning leaves nothing loose. -/
theorem loose_eq_nil_iff {cs : List Char} :
    (ofChars cs).loose = [] ↔ ∀ c ∈ cs.head?, Operator c := by
  cases cs with
  | nil => simp [ofChars]
  | cons c rest =>
    change (prepend c (ofChars rest)).loose = [] ↔ _
    simp only [List.head?_cons, Option.mem_def, Option.some.injEq, forall_eq']
    rw [← not_iff_not, ← ofSymbol?_eq_none_iff]
    unfold prepend
    cases symbol : Sign.ofSymbol? c with
    | some s => simp [operator_loose]
    | none => simp

/-! ## Reading from the end -/

theorem foldr_name {name loose : List Char} {p : Path}
    (free : ∀ c ∈ name, Sign.ofSymbol? c = none) :
    name.foldr prepend ⟨loose, p⟩ = ⟨name ++ loose, p⟩ := by
  induction name with
  | nil => rfl
  | cons c rest ih =>
    obtain ⟨first, free⟩ := List.forall_mem_cons.mp free
    rw [List.foldr_cons, ih free]
    simp only [prepend, first]
    rfl

theorem foldr_idle (signs : List Sign) (s : Segment) (p : Path) :
    (signs.map Sign.symbol).foldr prepend ⟨[], { p with segments := s :: p.segments }⟩ =
      ⟨[], { p with segments := { s with idle := signs ++ s.idle } :: p.segments }⟩ := by
  induction signs with
  | nil => rfl
  | cons sign rest ih =>
    rw [List.map_cons, List.foldr_cons, ih]
    simp only [prepend, Sign.ofSymbol?_symbol]
    rfl

theorem foldr_trailing (signs : List Sign) :
    (signs.map Sign.symbol).foldr prepend ⟨[], ⟨[], []⟩⟩ = ⟨[], ⟨[], signs⟩⟩ := by
  induction signs with
  | nil => rfl
  | cons sign rest ih =>
    rw [List.map_cons, List.foldr_cons, ih]
    simp only [prepend, Sign.ofSymbol?_symbol]
    rfl

theorem foldr_segment {s : Segment} (wellFormed : s.WellFormed) (p : Path) :
    s.chars.foldr prepend ⟨[], p⟩ = ⟨[], { p with segments := s :: p.segments }⟩ := by
  obtain ⟨idle, sign, name⟩ := s
  obtain ⟨named, free⟩ := wellFormed
  obtain ⟨c, rest, rfl⟩ := List.exists_cons_of_ne_nil named
  have start : prepend sign.symbol ⟨c :: rest, p⟩ =
      ⟨[], { p with segments := ⟨[], sign, c :: rest⟩ :: p.segments }⟩ := by
    simp only [prepend, Sign.ofSymbol?_symbol]
    rfl
  rw [Segment.chars, List.foldr_append, List.foldr_cons, foldr_name free, List.append_nil, start,
    foldr_idle, List.append_nil]

/-- A path is the only one with its text. -/
theorem ofChars_chars {p : Path} (wellFormed : p.WellFormed) : ofChars p.chars = ⟨[], p⟩ := by
  obtain ⟨segments, trailing⟩ := p
  unfold ofChars Path.chars
  rw [List.foldr_append, foldr_trailing]
  induction segments with
  | nil => rfl
  | cons s rest ih =>
    obtain ⟨first, others⟩ := List.forall_mem_cons.mp wellFormed
    rw [List.flatMap_cons, List.foldr_append, ih others, foldr_segment first]

end Reading

/-- A text that does not begin with anything else than an operator is a path. -/
theorem exists_path {cs : List Char} (h : ∀ c ∈ cs.head?, Operator c) :
    ∃ p : Path, p.WellFormed ∧ p.chars = cs := by
  have tight := Reading.loose_eq_nil_iff.mpr h
  refine ⟨(Reading.ofChars cs).path, (Reading.ofChars_clean cs).path, ?_⟩
  calc (Reading.ofChars cs).path.chars
    _ = (Reading.ofChars cs).chars := by rw [Reading.chars, tight, List.nil_append]
    _ = cs := Reading.chars_reading cs

theorem Path.eq_of_chars_eq {p q : Path} (hp : p.WellFormed) (hq : q.WellFormed)
    (same : p.chars = q.chars) : p = q := by
  have read := Reading.ofChars_chars hp
  rw [same, Reading.ofChars_chars hq] at read
  cases read
  rfl

/-- A path without segments holds operators only, and a segment holds a name. -/
theorem Path.segments_eq_nil_iff {p : Path} (wellFormed : p.WellFormed) :
    p.segments = [] ↔ ∀ c ∈ p.chars, Operator c := by
  obtain ⟨segments, trailing⟩ := p
  constructor
  · rintro rfl c there
    obtain ⟨sign, -, rfl⟩ := List.mem_map.mp there
    exact operator_symbol sign
  · intro operators
    by_contra some
    obtain ⟨s, rest, rfl⟩ := List.exists_cons_of_ne_nil some
    obtain ⟨named, free⟩ := wellFormed s List.mem_cons_self
    obtain ⟨c, _, name⟩ := List.exists_cons_of_ne_nil named
    have here : c ∈ s.name := name ▸ List.mem_cons_self
    exact ofSymbol?_eq_none_iff.mp (free c here)
      (operators c (by simp [Path.chars, Segment.chars, here]))

end TaggedItems.Query
