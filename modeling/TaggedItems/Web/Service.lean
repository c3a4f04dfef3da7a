import TaggedItems.Catalog.Operation
import TaggedItems.Query.Parse
import TaggedItems.Text.Utf8
import TaggedItems.Web.Message
import TaggedItems.Web.Percent
/-!
# The service

The whole path of a request is a query over the catalog. Reading and deleting never fail for the
catalog's sake: a failed operation answers as if nothing had matched.
-/
namespace TaggedItems.Web

/-- The largest body in bytes. -/
def Request.largestBody : Nat := 2097152

/-- The query of a path. The tail is percent-decoded once, and the slash in front of it, which is
an operator, is put back. -/
def Request.query (request : Request) : Except Failure Query :=
  match String.fromUTF8? (Percent.decode request.tail.toUTF8.toList).toByteArray with
  | some tail => Query.parse ("/" ++ tail)
  | none => .error (.malformedQuery "Invalid URL: Invalid UTF-8 in `query`" 0)

/-- The status of a failure: the fault of the request or of the service. -/
def Response.ofFailure (failure : Failure) : Response :=
  .error (if failure.isQueryFailure then 400 else 500) failure.message

/-- The items that were found, as an array. -/
def Response.ofItems (items : List Item) : Response :=
  .json 200 (Json.array (items.map Item.json))

/-- What became of a content that was sent. -/
def Response.ofOutcome : Catalog.Outcome → Response
  | .created item | .updated item => .json 200 (Json.object [("Id", Decimal.text item)])
  | .missing item => .error 404 ("No item with id " ++ Decimal.text item)
  | .failed => .error 500 "Item could not be stored"

namespace Service

/-- Finds items. -/
def retrieve (catalog : Catalog) (request : Request) : Response :=
  match request.query with
  | .ok query => .ofItems (catalog.getItems query.predicates query.target)
  | .error failure => .ofFailure failure

/-- Creates or updates an item. The body is judged before the path. -/
def createOrUpdate (catalog : Catalog) (request : Request) : Response × Catalog :=
  if request.body.size > Request.largestBody then
    (.plain 413 "Failed to buffer the request body: length limit exceeded", catalog)
  else match Text.Utf8.decode request.body with
    | .error fault =>
      (.plain 400 ("Request body didn't contain valid UTF-8: " ++ fault.message), catalog)
    | .ok content =>
      match request.query with
      | .error failure => (.ofFailure failure, catalog)
      | .ok query => (catalog.put query content).map .ofOutcome id

/-- Removes items. -/
def remove (catalog : Catalog) (request : Request) : Response × Catalog :=
  match request.query with
  | .ok query => (.noContent, (catalog.deleteItems query).2)
  | .error failure => (.ofFailure failure, catalog)

/-- Answers a request. -/
def respond (catalog : Catalog) (request : Request) : Response × Catalog :=
  match request.method with
  | .get => (retrieve catalog request, catalog)
  | .head => ((retrieve catalog request).bodiless, catalog)
  | .post => createOrUpdate catalog request
  | .delete => remove catalog request
  | .options => (.preflight, catalog)
  | .other => (.notAllowed, catalog)

end Service
end TaggedItems.Web
