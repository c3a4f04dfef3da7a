import TaggedItems.Proofs.Catalog.Adding
import TaggedItems.Proofs.Query.RoundTrip
import TaggedItems.Proofs.Web.Escaping
import TaggedItems.Proofs.Web.Status
/-!
# What is sent can be read back

Content that is sent to a path becomes an item, and the item's number is a path by which the content
and the included names are read back. The names can hold anything but operators, and each of their
bytes may be escaped or not (`sent_item_is_read_back`).
-/
namespace TaggedItems

theorem Query.ofScanned?_number {n : Nat} (bounded : n ≤ 2 ^ 63 - 1) :
    ofScanned? [⟨.includes, Decimal.text n⟩] = some ⟨.empty, some (n : Int)⟩ := by
  have inside : (0 : Int) ≤ n ∧ (n : Int) ≤ 2 ^ 63 - 1 := by omega
  exact ofScanned?_of_number [] (by rw [Predicate.target?_text, if_pos inside])

namespace Web
variable {pairs : List Predicate} {target : String}

/-- A request to a written path asks for what was written. -/
theorem Request.exists_asks {name : String} {method : Method} {query : Query} (body : ByteArray)
    (known : Method.ofName? name = some method) (writes : WritesTarget pairs target)
    (named : ∀ p ∈ pairs, p.name ≠ "" ∧ ∀ c ∈ p.name.toList, ¬ Query.Operator c)
    (fits : target.utf8ByteSize ≤ Target.longest) (asked : Query.ofScanned? pairs = some query) :
    ∃ r, Request.of? name target [] body = some r ∧ r.method = method ∧ r.body = body ∧
      r.Asks query := by
  have some : pairs ≠ [] := fun none => by simp [none, Query.ofScanned?_eq_none_iff.mpr] at asked
  obtain ⟨rest, tail, idle, text, written, decoded, path⟩ := writes.decoded some
  have read : (String.ofList tail).toUTF8 =
      Request.decodedTail ⟨method, String.ofList rest, body⟩ := by
    rw [Request.decodedTail, Text.toList_toUTF8, ← Text.encode_toList, String.toList_ofList,
      decoded, Text.toByteArray_encode]
  have parsed : Query.parse ("/" ++ String.ofList tail) = .ok query := by
    rw [Query.parse_pairs named (by simpa using path), asked]
    rfl
  refine ⟨⟨method, String.ofList rest, body⟩, ?_, rfl, rfl, String.ofList tail, read, parsed⟩
  simp [Request.of?, known, tail?_of_written text written fits]

theorem writes_number {n : Nat} (bounded : n ≤ 2 ^ 63 - 1) :
    WritesTarget [⟨.includes, Decimal.text n⟩] ("/" ++ Decimal.text n) ∧
      ("/" ++ Decimal.text n).utf8ByteSize ≤ Target.longest := by
  have listed : (Decimal.text n).toList = Decimal.digits n := by simp [Decimal.text, Decimal.chars]
  have plain : ∀ c ∈ (Decimal.text n).toList, Plain c := by
    intro c there
    have digit := (Decimal.digits_spells n).isDigit c (listed ▸ there)
    exact .inl (by simp [Char.isAlphanum, digit])
  constructor
  · refine ⟨'/' :: (Decimal.text n).toList, ?_, by simp⟩
    have name := writesBytes_of_plain plain
    rw [Text.encode_toList] at name
    simpa [Sign.symbol] using
      WritesPairs.cons (p := ⟨.includes, Decimal.text n⟩) name WritesPairs.nil
  · have size : (Decimal.text n).utf8ByteSize = (Text.bytes (Decimal.text n)).length := rfl
    have short : (Decimal.digits n).length ≤ 19 :=
      Decimal.length_digits_le (Nat.lt_of_le_of_lt bounded (by decide))
    rw [String.utf8ByteSize_append, size, ← Text.encode_toList,
      Text.length_encode fun c there => (plain c there).ascii, listed]
    change 1 + _ ≤ 65534
    omega

/-! ## Sending and reading back -/

/-- A request is accepted and answered, and `d` is what becomes of `c`. -/
def Answers (c : Catalog) (method target : String) (body : ByteArray) (answer : Response)
    (d : Catalog) : Prop :=
  ∃ r, Request.of? method target [] body = some r ∧ Service.respond c r = (answer, d)

/-- Content is sent to a path and stored as the item of the next number, with the names as tags
whose first predicate includes them. As long as names can spell the number, the item is read back by
it. -/
structure ReadBack (c : Catalog) (pairs : List Predicate) (target content : String) (n : Nat)
    (tags : List String) (d : Catalog) : Prop where
  next : (n : Int) = c.heldItems.counter + 1
  above : ∀ item, c.Holds item → item < n
  ascending : tags.Pairwise (· < ·)
  included : ∀ name, name ∈ tags ↔ pairs.find? (·.name = name) = some ⟨.includes, name⟩
  sent : Answers c "POST" target content.toUTF8
    (.json 200 (Json.object [("Id", Decimal.text n)])) d
  read : n ≤ 2 ^ 63 - 1 → Answers d "GET" ("/" ++ Decimal.text n) .empty
    (.json 200 (Json.array [Json.object
      [("Id", Decimal.text n), ("Content", Json.string content),
        ("Tags", Json.array (tags.map Json.string))]])) d

theorem put_of_noTarget {c d : Catalog} {item : Identity} {predicates : PredicateSet}
    {content : String} (work : Catalog.insertTagged content predicates c = .ok (item, d)) :
    c.put ⟨predicates, none⟩ content = (.created item, d) :=
  Catalog.put_of_ok (by simp [Catalog.putWork, work, bind, Except.bind, pure, Except.pure])

/-- A written path without a target answers content with the number of the new item. -/
theorem answers_post {c d : Catalog} {item : Identity} {predicates : PredicateSet}
    {content : String} (work : Catalog.insertTagged content predicates c = .ok (item, d))
    (short : content.utf8ByteSize ≤ 2097152)
    (named : ∀ p ∈ pairs, p.name ≠ "" ∧ ∀ c ∈ p.name.toList, ¬ Query.Operator c)
    (writes : WritesTarget pairs target) (fits : target.utf8ByteSize ≤ Target.longest)
    (asked : Query.ofScanned? pairs = some ⟨predicates, none⟩) :
    Answers c "POST" target content.toUTF8
      (.json 200 (Json.object [("Id", Decimal.text item)])) d := by
  have known : Method.ofName? "POST" = some .post := rfl
  obtain ⟨post, accepted, method, body, asks⟩ :=
    Request.exists_asks content.toUTF8 known writes named fits asked
  have fitting : ¬ post.TooLong := by
    rw [Request.TooLong, body]
    exact Nat.not_lt.mpr short
  have sends : post.Sends ⟨predicates, none⟩ content := ⟨fitting, body.symm, asks⟩
  refine ⟨post, accepted, ?_⟩
  rw [Service.respond_post c method, Service.createOrUpdate_of_sends sends, put_of_noTarget work]
  rfl

/-- The path of a number finds the item of that number. -/
theorem answers_get {d : Catalog} {n : Nat} {item : Item} (bounded : n ≤ 2 ^ 63 - 1)
    (found : d.getItems .empty (some (n : Int)) = [item]) :
    Answers d "GET" ("/" ++ Decimal.text n) .empty (.json 200 (Json.array [item.json])) d := by
  have known : Method.ofName? "GET" = some .get := rfl
  have named : ∀ p ∈ [Predicate.mk .includes (Decimal.text n)],
      p.name ≠ "" ∧ ∀ c ∈ p.name.toList, ¬ Query.Operator c :=
    List.forall_mem_singleton.mpr (Query.text_free n)
  obtain ⟨writes, fits⟩ := writes_number bounded
  obtain ⟨get, accepted, method, -, asks⟩ :=
    Request.exists_asks .empty known writes named fits (Query.ofScanned?_number bounded)
  refine ⟨get, accepted, ?_⟩
  rw [Service.respond, method]
  simp only [Service.retrieve_of_asks d asks, found]
  rfl

theorem mem_includedNames_ofList {name : String} :
    name ∈ (PredicateSet.ofList (Query.firstOfEachName pairs)).includedNames ↔
      pairs.find? (·.name = name) = some ⟨.includes, name⟩ := by
  rw [PredicateSet.mem_includedNames,
    (PredicateSet.toList_ofList_perm (Query.nodup_firstOfEachName pairs)).mem_iff,
    Query.mem_firstOfEachName]

/-- What is sent to a written path is read back by the number that is answered: the content and the
included names are the ones that were sent, whatever they hold and however they were escaped. -/
theorem sent_item_is_read_back {c : Catalog} (h : c.Reachable) (whole : c.Whole) {content : String}
    (short : content.utf8ByteSize ≤ 2097152) {first : Predicate} {others : List Predicate}
    (named : ∀ p ∈ first :: others, p.name ≠ "" ∧ ∀ c ∈ p.name.toList, ¬ Query.Operator c)
    (noTarget : ¬ (first.sign = .includes ∧
      ∃ n : Nat, Decimal.Spells first.name.toList n ∧ n ≤ 2 ^ 63 - 1))
    (writes : WritesTarget (first :: others) target) (fits : target.utf8ByteSize ≤ 65534) :
    ∃ n tags d, ReadBack c (first :: others) target content n tags d := by
  have sound := Catalog.reachable_sound h
  have none : first.target? = none := by
    rw [Option.eq_none_iff_forall_ne_some]
    intro i spelled
    obtain ⟨included, n, spells, bounded, -⟩ := Predicate.target?_eq_some_iff.mp spelled
    exact noTarget ⟨included, n, spells, bounded⟩
  have asked := Query.ofScanned?_of_first others none
  obtain ⟨id, d, work, inserted⟩ := Catalog.exists_inserted sound whole content
    (.ofList (Query.firstOfEachName (first :: others)))
  have nonneg : 0 ≤ id := inserted.next ▸ Int.add_nonneg sound.items.counter_nonneg Int.one_nonneg
  obtain ⟨n, rfl⟩ := Int.eq_ofNat_of_zero_le nonneg
  have sent := answers_post work short named writes fits asked
  have own := inserted.getItems_own whole
  -- The tags are the set that the item was stored with.
  generalize tagged : TagSet.ofList
    (PredicateSet.ofList (Query.firstOfEachName (first :: others))).includedNames = tags at own
  have included (name : String) :
      name ∈ tags ↔ (first :: others).find? (·.name = name) = some ⟨.includes, name⟩ := by
    rw [← tagged, TagSet.mem_ofList, mem_includedNames_ofList]
  have above (item : Identity) (held : c.Holds item) : item < n :=
    inserted.next ▸ Catalog.lt_next_of_holds sound held
  refine ⟨n, tags.names, d, inserted.next, above, tags.ascending, included, sent,
    fun bounded => ?_⟩
  have read := answers_get bounded own
  rwa [Item.json, TagSet.json] at read

/-- Escapes of either case, one of them of a percent sign that digits follow. -/
theorem writes_escapes :
    WritesTarget [⟨.excludes, "é"⟩, ⟨.includes, "%41"⟩, ⟨.includes, "é"⟩]
      "/!%C3%a9/%2541/%c3%A9" := by
  have upperLower : WritesBytes [0xc3, 0xa9] ['%', 'C', '3', '%', 'a', '9'] :=
    .cons (.escaped (by decide) (by decide)) (.cons (.escaped (by decide) (by decide)) .nil)
  have lowerUpper : WritesBytes [0xc3, 0xa9] ['%', 'c', '3', '%', 'A', '9'] :=
    .cons (.escaped (by decide) (by decide)) (.cons (.escaped (by decide) (by decide)) .nil)
  have percent : WritesBytes [0x25, '4'.toUInt8, '1'.toUInt8] ['%', '2', '5', '4', '1'] :=
    .cons (.escaped (by decide) (by decide))
      (.cons (.plain (by decide)) (.cons (.plain (by decide)) .nil))
  have accented : Text.bytes "é" = [0xc3, 0xa9] := by decide +kernel
  have marked : Text.bytes "%41" = [0x25, '4'.toUInt8, '1'.toUInt8] := by decide +kernel
  exact ⟨_, .cons (accented ▸ upperLower) (.cons (marked ▸ percent)
    (.cons (accented ▸ lowerUpper) .nil)), by decide +kernel⟩

/-- The first predicate of a name decides, and the percent sign is no escape a second time. -/
theorem spotted_reads_back :
    Catalog.spotted.Reachable ∧ Catalog.spotted.Whole ∧ ∃ d,
      ReadBack Catalog.spotted [⟨.excludes, "é"⟩, ⟨.includes, "%41"⟩, ⟨.includes, "é"⟩]
          "/!%C3%a9/%2541/%c3%A9" "third" 3 ["%41"] d ∧
        Answers d "GET" "/3" .empty
          (.json 200 "[\x7b\"Id\":3,\"Content\":\"third\",\"Tags\":[\"%41\"]\x7d]") d := by
  have named : ∀ p ∈ [Predicate.mk .excludes "é", ⟨.includes, "%41"⟩, ⟨.includes, "é"⟩],
      p.name ≠ "" ∧ ∀ c ∈ p.name.toList, ¬ Query.Operator c := by
    simp [Query.Operator]
  have short : "third".utf8ByteSize ≤ 2097152 := by decide +kernel
  obtain ⟨n, tags, d, readBack⟩ :=
    sent_item_is_read_back Catalog.spotted_reachable ⟨rfl, rfl, rfl⟩ short named (by simp)
      writes_escapes (by decide +kernel)
  have counted : Catalog.spotted.heldItems.counter = 2 := by decide +kernel
  obtain rfl : n = 3 := by
    have next : (n : Int) = 2 + 1 := counted ▸ readBack.next
    omega
  obtain rfl : tags = ["%41"] := by
    have ascending : Ascending id tags := readBack.ascending
    refine ascending.eq_of_mem_iff (List.pairwise_singleton ..) fun name => ?_
    rw [readBack.included]
    by_cases accented : "é" = name
    · simp [← accented]
    · by_cases marked : "%41" = name
      · simp [← marked]
      · simp [accented, marked, Ne.symm marked]
  have read := readBack.read (by decide)
  have path : "/" ++ Decimal.text (3 : Nat) = "/3" := by decide +kernel
  have body : Json.array [Json.object [("Id", Decimal.text (3 : Nat)),
      ("Content", Json.string "third"), ("Tags", Json.array (["%41"].map Json.string))]] =
        "[\x7b\"Id\":3,\"Content\":\"third\",\"Tags\":[\"%41\"]\x7d]" := by decide +kernel
  rw [path, body] at read
  exact ⟨Catalog.spotted_reachable, ⟨rfl, rfl, rfl⟩, d, readBack, read⟩

end Web
end TaggedItems
