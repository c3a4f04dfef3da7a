/-!
# Request targets

A request names what it asks for by an absolute path or by an address with a scheme and a host. Of
either only the path counts; a query part and a fragment are ignored.
-/
namespace TaggedItems.Web.Target

/-- The longest target in bytes. -/
def longest : Nat := 65534

/-- What can be seen: neither a blank nor a control character of ASCII. -/
def isVisible (c : Char) : Bool := ' ' < c && c ≠ '\x7f'

/-- A path may hold any visible character but angle brackets and the grave accent. -/
def isPathChar (c : Char) : Bool := isVisible c && c ≠ '<' && c ≠ '>' && c ≠ '\x60'

/-- A query part may hold any visible character but angle brackets and the double quote. -/
def isQueryChar (c : Char) : Bool := isVisible c && c ≠ '<' && c ≠ '>' && c ≠ '"'

/-- The path that text starts with, if the characters of the path and of a query part are allowed.
A fragment may hold anything. -/
def path? (text : List Char) : Option (List Char) :=
  let path := text.takeWhile fun c => c ≠ '?' ∧ c ≠ '#'
  let query := (text.drop path.length).takeWhile (· ≠ '#')
  if path.all isPathChar ∧ (query.drop 1).all isQueryChar then some path else none

/-- The brackets around the address of a host. -/
inductive Brackets where
  | unopened
  | opened
  | closed
  deriving DecidableEq

/-- What has been read of a host: its brackets, and the colons and the percent signs that still
count. -/
structure HostState where
  brackets : Brackets
  colons : Nat
  percent : Bool
  deriving DecidableEq

namespace HostState

def initial : HostState := ⟨.unopened, 0, false⟩

/-- What a host is made of besides colons, brackets, at signs and percent signs. -/
def isPlain (c : Char) : Bool := c.isAlphanum || "!$&'()*+,-.;=_~".contains c

/-- Reads one character. What stands in front of an at sign or within brackets may hold up to eight
colons, and percent signs; neither counts any more behind it. -/
def next? (state : HostState) (c : Char) : Option HostState :=
  match c with
  | ':' => if state.colons < 8 then some { state with colons := state.colons + 1 } else none
  | '[' =>
    if state.brackets = .unopened ∧ ¬ state.percent then some { state with brackets := .opened }
    else none
  | ']' => if state.brackets = .opened then some ⟨.closed, 0, false⟩ else none
  | '@' => some ⟨state.brackets, 0, false⟩
  | '%' => some { state with percent := true }
  | _ => if isPlain c then some state else none

/-- Whether a host may end here, with at most one colon for the number of a port. -/
def complete (state : HostState) : Bool :=
  state.brackets ≠ .opened && state.colons ≤ 1 && !state.percent

end HostState

/-- Whether text names a host. The name of a user may stand in front of it, but not alone. -/
def isHost (text : List Char) : Bool :=
  text ≠ [] && text.getLast? ≠ some '@' &&
    ((text.foldlM HostState.next? .initial).any HostState.complete)

/-- What a scheme is made of. -/
def isSchemeChar (c : Char) : Bool := c.isAlphanum || c = '+' || c = '-' || c = '.'

/-- The longest scheme. -/
def longestScheme : Nat := 64

/-- What stands behind the scheme of an address. -/
def afterScheme? (text : List Char) : Option (List Char) :=
  let scheme := text.takeWhile isSchemeChar
  match text.drop scheme.length with
  | ':' :: '/' :: '/' :: rest => if scheme.length ≤ longestScheme then some rest else none
  | _ => none

/-- The path of an address, without its leading slash. An address that goes no further than its host
asks for the root. -/
def addressTail? (text : List Char) : Option (List Char) := do
  let address ← afterScheme? text
  let host := address.takeWhile fun c => c ≠ '/' ∧ c ≠ '?' ∧ c ≠ '#'
  if isHost host then
    (path? (address.drop host.length)).map (List.drop 1)
  else none

/-- The path of a target without its leading slash, still as it was written. -/
def tail? (target : String) : Option String :=
  if target.utf8ByteSize > longest then none
  else match target.toList with
    | '/' :: rest => (path? rest).map String.ofList
    | text => (addressTail? text).map String.ofList

end TaggedItems.Web.Target
