import TaggedItems.Proofs.Catalog.Putting
import TaggedItems.Proofs.Query.Meaning
import TaggedItems.Web.Service
/-!
# What the status tells

A request is judged part by part: its body by length and encoding, its path by encoding and by what
it names, its target by the item table, and only then by what the tables allow. `Ending` has one
constructor for each way in which a request to store content can end, and the status is that of the
one way that applies. Whatever state the tables are in, nothing changes them but a request whose
status tells success (`status_tells_what_happened`).
-/
namespace TaggedItems.Web

/-- The bytes are those of some text. -/
def IsUtf8 (bytes : ByteArray) : Prop := ∃ text : String, text.toUTF8 = bytes

theorem eq_of_toUTF8_eq {s t : String} (h : s.toUTF8 = t.toUTF8) : s = t := by
  rw [← Text.Utf8.fromUTF8?_eq_some_iff, Text.Utf8.fromUTF8?_eq_some_iff.mpr rfl] at h
  exact (Option.some.inj h).symm

/-! ## Requests -/

namespace Request
variable {r : Request} {query : Query} {content : String}

/-- The path behind its leading slash, each escape replaced by its byte. -/
def decodedTail (r : Request) : ByteArray := (Percent.decode r.tail.toUTF8.toList).toByteArray

/-- The path is no text, or holds operators only. -/
def NamesNothing (r : Request) : Prop :=
  ¬ IsUtf8 r.decodedTail ∨
    ∃ tail : String, tail.toUTF8 = r.decodedTail ∧ ∀ c ∈ tail.toList, Query.Operator c

/-- The path is a query. -/
def Asks (r : Request) (query : Query) : Prop :=
  ∃ tail : String, tail.toUTF8 = r.decodedTail ∧ Query.parse ("/" ++ tail) = .ok query

/-- The body is longer than two mebibytes. -/
def TooLong (r : Request) : Prop := 2097152 < r.body.size

/-- The request has content for a query, and both can be read. -/
structure Sends (r : Request) (query : Query) (content : String) : Prop where
  short : ¬ r.TooLong
  text : content.toUTF8 = r.body
  asks : r.Asks query

theorem query_of_text {tail : String} (text : tail.toUTF8 = r.decodedTail) :
    r.query = Query.parse ("/" ++ tail) := by
  have read : String.fromUTF8? (Percent.decode r.tail.toUTF8.toList).toByteArray = some tail :=
    Text.Utf8.fromUTF8?_eq_some_iff.mpr text
  rw [query, read]

theorem query_of_not_isUtf8 (binary : ¬ IsUtf8 r.decodedTail) :
    ∃ detail, r.query = .error (.malformedQuery detail 0) := by
  unfold query
  split
  · rename_i tail read
    exact absurd ⟨tail, Text.Utf8.fromUTF8?_eq_some_iff.mp read⟩ binary
  · exact ⟨_, rfl⟩

theorem Asks.eq (h : r.Asks query) : r.query = .ok query := by
  obtain ⟨tail, text, parsed⟩ := h
  exact (query_of_text text).trans parsed

theorem Sends.unique {otherQuery : Query} {otherContent : String} (h : r.Sends query content)
    (h' : r.Sends otherQuery otherContent) : otherQuery = query ∧ otherContent = content :=
  ⟨Except.ok.inj (h'.asks.eq.symm.trans h.asks.eq), eq_of_toUTF8_eq (h'.text.trans h.text.symm)⟩

/-- A path is a query, or it names nothing and is refused. -/
theorem query_cases (r : Request) :
    (r.NamesNothing ∧ ∃ failure, r.query = .error failure ∧ failure.isQueryFailure = true) ∨
      (¬ r.NamesNothing ∧ ∃ query, r.Asks query) := by
  by_cases utf8 : IsUtf8 r.decodedTail
  · obtain ⟨tail, text⟩ := utf8
    rcases Query.parse_slash tail with ⟨operators, empty⟩ | ⟨⟨c, there, other⟩, query, parsed⟩
    · exact .inl ⟨.inr ⟨tail, text, operators⟩, _, (query_of_text text).trans empty, rfl⟩
    · refine .inr ⟨?_, query, tail, text, parsed⟩
      rintro (binary | ⟨same, sameText, operators⟩)
      · exact binary ⟨tail, text⟩
      · obtain rfl := eq_of_toUTF8_eq (sameText.trans text.symm)
        exact other (operators c there)
  · obtain ⟨detail, refused⟩ := query_of_not_isUtf8 utf8
    exact .inl ⟨.inl utf8, _, refused, rfl⟩

theorem Asks.not_namesNothing (h : r.Asks query) : ¬ r.NamesNothing := by
  rcases r.query_cases with ⟨-, failure, refused, -⟩ | ⟨named, -⟩
  · rw [h.eq] at refused
    cases refused
  · exact named

theorem Sends.readable (h : r.Sends query content) : ¬ (¬ IsUtf8 r.body ∨ r.NamesNothing) := by
  rintro (binary | nothing)
  · exact binary ⟨content, h.text⟩
  · exact h.asks.not_namesNothing nothing

end Request

/-! ## Endings -/

/-- How a request to store content can end, by the status that tells it. -/
inductive Ending (c : Catalog) (r : Request) : Nat → Prop
  | tooLong (long : r.TooLong) : Ending c r 413
  | bad (short : ¬ r.TooLong) (fault : ¬ IsUtf8 r.body ∨ r.NamesNothing) : Ending c r 400
  | missing {query : Query} {content : String} {item : Identity} (sends : r.Sends query content)
      (misses : c.Misses query item) : Ending c r 404
  | failed {query : Query} {content : String} (sends : r.Sends query content)
      (there : ∀ item, ¬ c.Misses query item)
      (fails : Fails (c.attempt (.put query content))) : Ending c r 500
  | stored {query : Query} {content : String} (sends : r.Sends query content)
      (there : ∀ item, ¬ c.Misses query item)
      (succeeds : ¬ Fails (c.attempt (.put query content))) : Ending c r 200

section
variable {c : Catalog} {r : Request} {query : Query} {content : String} {status other : Nat}

/-- A request that sends something ends by what becomes of that. -/
theorem Ending.eq_of_sends (sends : r.Sends query content) (h : Ending c r status) :
    status = 404 ∧ (∃ item, c.Misses query item) ∨
      (∀ item, ¬ c.Misses query item) ∧
        (status = 500 ∧ Fails (c.attempt (.put query content)) ∨
          status = 200 ∧ ¬ Fails (c.attempt (.put query content))) := by
  cases h with
  | tooLong long => exact absurd long sends.short
  | bad _ fault => exact absurd fault sends.readable
  | missing same misses =>
    obtain ⟨rfl, rfl⟩ := sends.unique same
    exact .inl ⟨rfl, _, misses⟩
  | failed same there fails =>
    obtain ⟨rfl, rfl⟩ := sends.unique same
    exact .inr ⟨there, .inl ⟨rfl, fails⟩⟩
  | stored same there succeeds =>
    obtain ⟨rfl, rfl⟩ := sends.unique same
    exact .inr ⟨there, .inr ⟨rfl, succeeds⟩⟩

/-- A request ends in one way. -/
theorem Ending.unique (h : Ending c r status) (h' : Ending c r other) : other = status := by
  cases h with
  | tooLong long =>
    cases h' with
    | tooLong _ => rfl
    | bad short _ => exact absurd long short
    | missing sends _ | failed sends _ _ | stored sends _ _ => exact absurd long sends.short
  | bad short fault =>
    cases h' with
    | tooLong long => exact absurd long short
    | bad _ _ => rfl
    | missing sends _ | failed sends _ _ | stored sends _ _ => exact absurd fault sends.readable
  -- What is sent is told by the request, so both endings are about the same query and content.
  | missing sends misses =>
    rcases h'.eq_of_sends sends with ⟨rfl, -⟩ | ⟨there, -⟩
    · rfl
    · exact absurd misses (there _)
  | failed sends there fails =>
    rcases h'.eq_of_sends sends with ⟨-, item, misses⟩ | ⟨-, ⟨rfl, -⟩ | ⟨-, succeeds⟩⟩
    · exact absurd misses (there item)
    · rfl
    · exact absurd fails succeeds
  | stored sends there succeeds =>
    rcases h'.eq_of_sends sends with ⟨-, item, misses⟩ | ⟨-, ⟨-, fails⟩ | ⟨rfl, -⟩⟩
    · exact absurd misses (there item)
    · exact absurd fails succeeds
    · rfl

end

/-! ## Answers -/

/-- The answer names the item that was created or updated, and `d` is what came of it. -/
def Stored (c : Catalog) (r : Request) (answer : Response) (d : Catalog) : Prop :=
  ∃ query content item, r.Sends query content ∧
    (query.target = none ∧ c.put query content = (.created item, d) ∨
      query.target = some item ∧ c.put query content = (.updated item, d)) ∧
    answer = .json 200 (Json.object [("Id", Decimal.text item)])

/-- A request to store content ended as its answer says, and only success has an effect. -/
structure Ended (c : Catalog) (r : Request) (answer : Response) (d : Catalog) : Prop where
  ending : Ending c r answer.status
  unchanged : answer.status ≠ 200 → d = c
  stored : answer.status = 200 → Stored c r answer d

theorem Ended.refused {c : Catalog} {r : Request} {answer : Response} {status : Nat}
    (ending : Ending c r status) (tells : answer.status = status) (failure : status ≠ 200) :
    Ended c r answer c := by
  subst tells
  exact ⟨ending, fun _ => rfl, fun success => absurd success failure⟩

namespace Service
variable {c : Catalog} {r : Request} {query : Query} {content : String}

theorem createOrUpdate_of_tooLong (long : r.TooLong) :
    ∃ message, createOrUpdate c r = (.plain 413 message, c) :=
  ⟨_, if_pos (show r.body.size > Request.largestBody from long)⟩

theorem createOrUpdate_of_short (short : ¬ r.TooLong) :
    createOrUpdate c r =
      match Text.Utf8.decode r.body with
      | .error fault =>
        (.plain 400 ("Request body didn't contain valid UTF-8: " ++ fault.message), c)
      | .ok content =>
        match r.query with
        | .error failure => (.ofFailure failure, c)
        | .ok query => (c.put query content).map .ofOutcome id :=
  if_neg (show ¬ r.body.size > Request.largestBody from short)

theorem createOrUpdate_of_not_isUtf8 (short : ¬ r.TooLong) (binary : ¬ IsUtf8 r.body) :
    ∃ message, createOrUpdate c r = (.plain 400 message, c) := by
  rw [createOrUpdate_of_short short]
  split
  · exact ⟨_, rfl⟩
  · rename_i content read
    exact absurd ⟨content, Text.Utf8.decode_eq_ok_iff.mp read⟩ binary

theorem createOrUpdate_of_failure {failure : Failure} (short : ¬ r.TooLong)
    (text : content.toUTF8 = r.body) (refused : r.query = .error failure) :
    createOrUpdate c r = (.ofFailure failure, c) := by
  simp [createOrUpdate_of_short short, Text.Utf8.decode_eq_ok_iff.mpr text, refused]

theorem createOrUpdate_of_sends (sends : r.Sends query content) :
    createOrUpdate c r = (c.put query content).map .ofOutcome id := by
  simp [createOrUpdate_of_short sends.short, Text.Utf8.decode_eq_ok_iff.mpr sends.text,
    sends.asks.eq]

theorem ofFailure_status {failure : Failure} (fault : failure.isQueryFailure = true) :
    (Response.ofFailure failure).status = 400 := by
  rw [Response.ofFailure, if_pos fault]
  rfl

/-- What the catalog tells is told on. -/
theorem put_ended (sends : r.Sends query content) :
    Ended c r (.ofOutcome (c.put query content).1) (c.put query content).2 := by
  by_cases misses : ∃ item, c.Misses query item
  · obtain ⟨item, misses⟩ := misses
    rw [Catalog.put_of_misses misses]
    exact .refused (.missing sends misses) rfl (by decide)
  · have there : ∀ item, ¬ c.Misses query item := not_exists.mp misses
    by_cases fails : Fails (c.attempt (.put query content))
    · rw [Catalog.put_of_fails fails]
      exact .refused (.failed sends there fails) rfl (by decide)
    · have ending : Ending c r 200 := .stored sends there fails
      obtain ⟨item, d, ⟨target, put⟩ | ⟨target, put⟩⟩ := Catalog.put_of_succeeds there fails
      · rw [put]
        exact ⟨ending, fun failure => absurd rfl failure,
          fun _ => ⟨query, content, item, sends, .inl ⟨target, put⟩, rfl⟩⟩
      · rw [put]
        exact ⟨ending, fun failure => absurd rfl failure,
          fun _ => ⟨query, content, item, sends, .inr ⟨target, put⟩, rfl⟩⟩

theorem createOrUpdate_ended (c : Catalog) (r : Request) :
    Ended c r (createOrUpdate c r).1 (createOrUpdate c r).2 := by
  by_cases long : r.TooLong
  · obtain ⟨message, answered⟩ := createOrUpdate_of_tooLong (c := c) long
    rw [answered]
    exact .refused (.tooLong long) rfl (by decide)
  by_cases utf8 : IsUtf8 r.body
  · obtain ⟨content, text⟩ := utf8
    rcases r.query_cases with ⟨nothing, failure, refused, fault⟩ | ⟨-, query, asks⟩
    · rw [createOrUpdate_of_failure long text refused]
      exact .refused (.bad long (.inr nothing)) (ofFailure_status fault) (by decide)
    · have sends : r.Sends query content := ⟨long, text, asks⟩
      rw [createOrUpdate_of_sends sends]
      exact put_ended sends
  · obtain ⟨message, answered⟩ := createOrUpdate_of_not_isUtf8 (c := c) long utf8
    rw [answered]
    exact .refused (.bad long (.inl utf8)) rfl (by decide)

/-- What is asked for is listed. -/
theorem retrieve_of_asks (c : Catalog) (asks : r.Asks query) :
    retrieve c r = .ofItems (c.getItems query.predicates query.target) := by
  rw [retrieve, asks.eq]

/-- What is asked for is removed, and the answer does not tell what that was. -/
theorem remove_of_asks (c : Catalog) (asks : r.Asks query) :
    remove c r = (.noContent, (c.deleteItems query).2) := by
  rw [remove, asks.eq]

/-- Whether any items are found does not matter. -/
theorem retrieve_status (c : Catalog) (r : Request) :
    ((retrieve c r).status = 400 ↔ r.NamesNothing) ∧
      ((retrieve c r).status = 200 ↔ ¬ r.NamesNothing) := by
  rcases r.query_cases with ⟨nothing, failure, refused, fault⟩ | ⟨named, query, asks⟩
  · have bad : (retrieve c r).status = 400 := by
      rw [retrieve, refused]
      exact ofFailure_status fault
    simp [bad, nothing]
  · have good : (retrieve c r).status = 200 := by
      rw [retrieve_of_asks c asks]
      rfl
    simp [good, named]

/-- Whether any items are removed does not matter. -/
theorem remove_status (c : Catalog) (r : Request) :
    ((remove c r).1.status = 400 ↔ r.NamesNothing) ∧
      ((remove c r).1.status = 204 ↔ ¬ r.NamesNothing) := by
  rcases r.query_cases with ⟨nothing, failure, refused, fault⟩ | ⟨named, query, asks⟩
  · have bad : (remove c r).1.status = 400 := by
      rw [remove, refused]
      exact ofFailure_status fault
    simp [bad, nothing]
  · have good : (remove c r).1.status = 204 := by
      rw [remove_of_asks c asks]
      rfl
    simp [good, named]

theorem remove_unchanged (failure : (remove c r).1.status ≠ 204) : (remove c r).2 = c := by
  rcases r.query_cases with ⟨-, _, refused, -⟩ | ⟨named, -⟩
  · rw [remove, refused]
  · exact absurd ((remove_status c r).2.mpr named) failure

theorem respond_post (c : Catalog) (post : r.method = .post) :
    respond c r = createOrUpdate c r := by
  rw [respond, post]

theorem respond_delete (c : Catalog) (delete : r.method = .delete) :
    respond c r = remove c r := by
  rw [respond, delete]

end Service

/-- What the answer to a request tells, and what became of the catalog. -/
structure Honest (c : Catalog) (r : Request) (answer : Response) (d : Catalog) : Prop where
  unchanged : ¬ (r.method = .post ∧ answer.status = 200) →
    ¬ (r.method = .delete ∧ answer.status = 204) → d = c
  found : r.method = .get ∨ r.method = .head →
    (answer.status = 400 ↔ r.NamesNothing) ∧ (answer.status = 200 ↔ ¬ r.NamesNothing)
  removed : r.method = .delete →
    (answer.status = 400 ↔ r.NamesNothing) ∧ (answer.status = 204 ↔ ¬ r.NamesNothing)
  ended : r.method = .post → ∀ status, answer.status = status ↔ Ending c r status
  stored : r.method = .post → answer.status = 200 → Stored c r answer d
  preflight : r.method = .options → answer = .preflight ∧ d = c
  notAllowed : r.method = .other → answer.status = 405 ∧ d = c
  wellFormed : ∀ tail detail position,
    Query.parse ("/" ++ tail) ≠ .error (.malformedQuery detail position)

namespace Service

theorem respond_unchanged (c : Catalog) (r : Request)
    (notStored : ¬ (r.method = .post ∧ (respond c r).1.status = 200))
    (notRemoved : ¬ (r.method = .delete ∧ (respond c r).1.status = 204)) :
    (respond c r).2 = c := by
  cases method : r.method with
  | get | head | options | other => rw [respond, method]
  | post =>
    have failure := not_and.mp notStored method
    rw [respond_post c method] at failure ⊢
    exact (createOrUpdate_ended c r).unchanged failure
  | delete =>
    have failure := not_and.mp notRemoved method
    rw [respond_delete c method] at failure ⊢
    exact remove_unchanged failure

/-- In whatever state the tables are, the status of an answer tells what happened, and nothing
changes unless it tells that content was stored or that items were removed. -/
theorem status_tells_what_happened (c : Catalog) (r : Request) :
    Honest c r (respond c r).1 (respond c r).2 where
  unchanged := respond_unchanged c r
  found := by
    rintro (get | head)
    · rw [respond, get]
      exact retrieve_status c r
    · rw [respond, head]
      exact retrieve_status c r
  removed := by
    intro delete
    rw [respond_delete c delete]
    exact remove_status c r
  ended := by
    intro post status
    have ending := (createOrUpdate_ended c r).ending
    rw [respond_post c post]
    exact ⟨fun tells => tells ▸ ending, fun other => other.unique ending⟩
  stored := by
    intro post
    rw [respond_post c post]
    exact (createOrUpdate_ended c r).stored
  preflight := by
    intro options
    rw [respond, options]
    exact ⟨rfl, rfl⟩
  notAllowed := by
    intro other
    rw [respond, other]
    exact ⟨rfl, rfl⟩
  wellFormed := by
    intro tail detail position malformed
    rcases Query.parse_slash tail with ⟨-, empty⟩ | ⟨-, query, parsed⟩
    · rw [empty] at malformed
      cases malformed
    · rw [parsed] at malformed
      cases malformed

end Service
end TaggedItems.Web
