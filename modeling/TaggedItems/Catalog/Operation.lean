import TaggedItems.Catalog.Fetch
import TaggedItems.Catalog.Statement
import TaggedItems.Query
/-!
# Operations

Each operation is one transaction over the statements: it takes effect as a whole, or it fails and
leaves every table and counter as it was. A failure ends here, as an answer that says that nothing
was done. Main statements: `transact_of_ok` and `transact_of_error`.
-/
namespace TaggedItems.Catalog

/-- Runs work as a whole. If a step of it fails, the catalog is the one from before. -/
def transact {α : Type} (catalog : Catalog) (work : Catalog → Except Fault (α × Catalog)) :
    Option α × Catalog :=
  match work catalog with
  | .ok (answer, changed) => (some answer, changed)
  | .error _ => (none, catalog)

theorem transact_of_ok {α : Type} {catalog changed : Catalog} {answer : α}
    {work : Catalog → Except Fault (α × Catalog)} (h : work catalog = .ok (answer, changed)) :
    catalog.transact work = (some answer, changed) := by
  simp [transact, h]

theorem transact_of_error {α : Type} {catalog : Catalog} {fault : Fault}
    {work : Catalog → Except Fault (α × Catalog)} (h : work catalog = .error fault) :
    catalog.transact work = (none, catalog) := by
  simp [transact, h]

/-- Keeps a tag and links an item to it. -/
def attach (item : Identity) (catalog : Catalog) (name : String) : Except Fault Catalog := do
  let (tag, kept) ← catalog.keepTag name
  kept.associate item tag.id

/-- Takes a tag from an item. A name that was never kept needs no link removed. -/
def detach (item : Identity) (catalog : Catalog) (name : String) : Except Fault Catalog := do
  match ← catalog.findTag name with
  | some tag => catalog.dissociate item tag.id
  | none => pure catalog

/-- Does to an item what one predicate asks. -/
def impose (item : Identity) (catalog : Catalog) (p : Predicate) : Except Fault Catalog :=
  match p.sign with
  | .includes => attach item catalog p.name
  | .excludes => detach item catalog p.name

/-- A new item with the included tags. -/
def insertTagged (content : String) (predicates : PredicateSet) (catalog : Catalog) :
    Except Fault (Identity × Catalog) := do
  let (item, inserted) ← catalog.insertItem content
  let tagged ← predicates.includedNames.foldlM (attach item) inserted
  pure (item, tagged)

/-- Attaches the included tags to an item and detaches the excluded ones, in the order of the set.
For an item that does not exist nothing more is done. -/
def retag (item : Identity) (predicates : PredicateSet) (catalog : Catalog) :
    Except Fault (Bool × Catalog) := do
  if ← catalog.itemExists item then
    let changed ← predicates.toList.foldlM (impose item) catalog
    pure (true, changed)
  else pure (false, catalog)

/-- Removes items one by one. The answer lists those that were there. -/
def removeAll : List Identity → Catalog → Except Fault (List Identity × Catalog)
  | [], catalog => .ok ([], catalog)
  | item :: rest, catalog => do
    let (removed, changed) ← catalog.removeItem item
    let (others, final) ← removeAll rest changed
    pure (if removed then item :: others else others, final)

/-- What became of a request to create or to update an item. -/
inductive Outcome where
  | created (item : Identity)
  | updated (item : Identity)
  | missing (item : Identity)
  | failed
  deriving DecidableEq

/-- The item that was created or updated. -/
def Outcome.item? : Outcome → Option Identity
  | .created item | .updated item => some item
  | .missing _ | .failed => none

/-- The work of `put`. Empty content leaves the content of an existing item as it is. -/
def putWork (query : Query) (content : String) (catalog : Catalog) :
    Except Fault (Outcome × Catalog) := do
  match query.target with
  | some item =>
    let (found, tagged) ← retag item query.predicates catalog
    if !found then pure (.missing item, tagged)
    else if content.isEmpty then pure (.updated item, tagged)
    else
      let (_, replaced) ← tagged.replaceContent item content
      pure (.updated item, replaced)
  | none =>
    let (item, tagged) ← insertTagged content query.predicates catalog
    pure (.created item, tagged)

/-- The number of a name, which is kept from now on. -/
def addTag (catalog : Catalog) (name : String) : Option Identity × Catalog :=
  catalog.transact fun c => (c.keepTag name).map fun (tag, kept) => (tag.id, kept)

/-- Creates an item with the included tags. -/
def addItem (catalog : Catalog) (content : String) (predicates : PredicateSet) :
    Option Identity × Catalog :=
  catalog.transact (insertTagged content predicates)

/-- Retags an item. The answer is `false` if there is no such item. -/
def tagItem (catalog : Catalog) (item : Identity) (predicates : PredicateSet) : Bool × Catalog :=
  let (answer, changed) := catalog.transact (retag item predicates)
  (answer.getD false, changed)

/-- Replaces an item's content. The answer is `false` if there is no such item. -/
def updateContent (catalog : Catalog) (item : Identity) (content : String) : Bool × Catalog :=
  let (answer, changed) := catalog.transact fun c => c.replaceContent item content
  (answer.getD false, changed)

/-- One item by its identity. -/
def getItem (catalog : Catalog) (item : Identity) : Option Item :=
  (catalog.fetchItem item).toOption.join

/-- The items that match, in ascending order of identity. -/
def getItems (catalog : Catalog) (predicates : PredicateSet) (target : Option Identity) :
    List Item :=
  (catalog.fetchMatching predicates target).toOption.getD []

/-- Removes the items that match, and lists them. -/
def deleteItems (catalog : Catalog) (query : Query) : List Identity × Catalog :=
  let (answer, changed) := catalog.transact fun c => do
    let found ← c.fetchMatching query.predicates query.target
    removeAll (found.map (·.id)) c
  (answer.getD [], changed)

/-- Retags the item that the query targets and replaces its content, or creates an item if the
query targets none. -/
def put (catalog : Catalog) (query : Query) (content : String) : Outcome × Catalog :=
  let (answer, changed) := catalog.transact (putWork query content)
  (answer.getD .failed, changed)

/-- The number of items, with or without tags. -/
def itemCount (catalog : Catalog) : Nat := catalog.countItems.toOption.getD 0

end TaggedItems.Catalog
