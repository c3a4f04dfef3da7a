import TaggedItems.Decimal
import TaggedItems.Json.Text
import TaggedItems.Web.Target
/-!
# Requests and responses

What the service is asked and what it answers.
-/
namespace TaggedItems.Web

/-- What a request wants done. Methods that nothing answers to are all alike. -/
inductive Method where
  | get
  | head
  | post
  | delete
  | options
  | other
  deriving DecidableEq

/-- Names of methods and of headers may hold letters, digits and these marks. -/
def isNameChar (c : Char) : Bool := c.isAlphanum || "!#$%&'*+-.^_\x60|~".contains c

/-- Whether a text can be the name of a method or of a header. -/
def isName (text : String) : Bool := !text.isEmpty && text.toList.all isNameChar

/-- Whether a text can be the value of a header, which holds no control characters but the tab. -/
def isHeaderValue (text : String) : Bool :=
  text.toList.all fun c => c = '\t' || ' ' ≤ c && c ≠ '\x7f'

/-- The method of a name. Names are told apart by case. -/
def Method.ofName? (name : String) : Option Method :=
  match name with
  | "GET" => some .get
  | "HEAD" => some .head
  | "POST" => some .post
  | "DELETE" => some .delete
  | "OPTIONS" => some .options
  | _ => if isName name then some .other else none

/-- A request. The tail is the path behind its leading slash, as it was written. Its headers change
no answer, so they are not kept. -/
structure Request where
  method : Method
  tail : String
  body : ByteArray

/-- The request of a method's name, a target and headers. Each of them may be refused. -/
def Request.of? (method target : String) (headers : List (String × String)) (body : ByteArray) :
    Option Request := do
  let method ← Method.ofName? method
  let tail ← Target.tail? target
  if headers.all fun (name, value) => isName name && isHeaderValue value then
    pure ⟨method, tail, body⟩
  else none

/-- A response. Its headers stand in ascending order of their names. -/
structure Response where
  status : Nat
  headers : List (String × String)
  body : String
  deriving DecidableEq

namespace Response

/-- Every origin may read an answer. -/
def anyOrigin : String × String := ("access-control-allow-origin", "*")

/-- The methods that are answered. -/
def allowed : String × String := ("allow", "GET,HEAD,POST,DELETE")

/-- The length of a body in bytes. -/
def length (body : String) : String × String :=
  ("content-length", Decimal.text body.utf8ByteSize)

/-- A response with a body of a media type. -/
def written (status : Nat) (media body : String) : Response :=
  ⟨status, [anyOrigin, length body, ("content-type", media)], body⟩

def json (status : Nat) (body : String) : Response := written status "application/json" body

def plain (status : Nat) (body : String) : Response :=
  written status "text/plain; charset=utf-8" body

/-- A refusal with a message. -/
def error (status : Nat) (message : String) : Response :=
  json status (Json.object [("error", Json.string message)])

/-- Success without anything to say. -/
def noContent : Response := ⟨204, [anyOrigin, length ""], ""⟩

/-- The answer to a method that is not allowed. -/
def notAllowed : Response := ⟨405, [anyOrigin, allowed, length ""], ""⟩

/-- Tells a browser what it may send. -/
def preflight : Response :=
  ⟨200,
    [("access-control-allow-headers", "*"), ("access-control-allow-methods", "GET,POST,DELETE"),
      anyOrigin, allowed, length ""],
    ""⟩

/-- The same headers without the body. -/
def bodiless (response : Response) : Response := { response with body := "" }

end Response
end TaggedItems.Web
