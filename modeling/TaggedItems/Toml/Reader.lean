import TaggedItems.Text.Mark
import TaggedItems.Toml.Scalar
import TaggedItems.Toml.Tables
/-!
# Reading TOML

A settings file may be written as keys with values, each on a line of its own, under headers of
tables. The top-level keys are returned with their values; what stands in tables and arrays is
checked and then left out.
-/
namespace TaggedItems.Toml

open Settings (Value)

/-- Skips blanks, line ends and comments. `inComment` says whether a comment is under way. -/
def skipLines? (inComment : Bool) : List Char → Option (List Char)
  | [] => some []
  | '\n' :: rest => skipLines? false rest
  | '\r' :: '\n' :: rest => skipLines? false rest
  | c :: rest =>
    if inComment then if isPlain c then skipLines? true rest else none
    else if isBlank c then skipLines? false rest
    else if c = '#' then skipLines? true rest
    else some (c :: rest)

/-- Whether nothing more follows on a line but a comment. -/
def endsLine (cs : List Char) : Bool :=
  match skipBlanks cs with
  | [] | '\n' :: _ | '\r' :: '\n' :: _ | '#' :: _ => true
  | _ => false

/-- What a key without quotes is made of. -/
def isBareKeyChar (c : Char) : Bool := c.isAlphanum || c = '_' || c = '-'

/-- One part of a key, and the rest. -/
def takeKeyPart? (cs : List Char) : Option (String × List Char) :=
  match cs with
  | '"' :: _ | '\'' :: _ => (takeLine? cs).map fun (text, final) => (String.ofList text, final)
  | _ =>
    let bare := cs.takeWhile isBareKeyChar
    if bare = [] then none else some (String.ofList bare, cs.dropWhile isBareKeyChar)

/-- The parts of a key with dots between them, and the rest. -/
def takeKeyParts? (fuel : Nat) (cs : List Char) : Option (List String × List Char) :=
  match fuel with
  | 0 => none
  | fuel + 1 => do
    let (first, rest) ← takeKeyPart? (skipBlanks cs)
    match skipBlanks rest with
    | '.' :: behind =>
      let (others, final) ← takeKeyParts? fuel behind
      pure (first :: others, final)
    | final => pure ([first], final)

/-- How deeply arrays and inline tables may be nested, and how many parts a key may have. -/
def deepest : Nat := 80

/-- A key and the rest. -/
def takeKey? (cs : List Char) : Option (List String × List Char) :=
  (takeKeyParts? (cs.length + 1) cs).filter fun (key, _) => key.length ≤ deepest

mutual

/-- A value and the rest. `depth` says how many arrays and inline tables may still be opened; `fuel`
exceeds the steps that the text allows. -/
def takeValue? (fuel depth : Nat) (cs : List Char) : Option (Value × List Char) :=
  match fuel with
  | 0 => none
  | fuel + 1 =>
    match cs, depth with
    | '[' :: _, 0 | '\x7b' :: _, 0 => none
    | '[' :: rest, depth + 1 =>
      (takeElements? fuel depth rest).map fun final => (.composite, final)
    | '\x7b' :: rest, depth + 1 =>
      (takePairs? fuel depth [] rest).map fun final => (.composite, final)
    | cs, _ => takeScalar? cs

/-- The elements of an array up to its end. They may stand on several lines, and a comma may
follow the last one. -/
def takeElements? (fuel depth : Nat) (cs : List Char) : Option (List Char) :=
  match fuel with
  | 0 => none
  | fuel + 1 => do
    match ← skipLines? false cs with
    | ']' :: final => pure final
    | first =>
      let (_, rest) ← takeValue? fuel depth first
      match ← skipLines? false rest with
      | ',' :: more => takeElements? fuel depth more
      | ']' :: final => pure final
      | _ => none

/-- The pairs of an inline table up to its end. Like the elements of an array they may stand on
several lines, and a comma may follow the last one. -/
def takePairs? (fuel depth : Nat) (tables : Tables) (cs : List Char) : Option (List Char) :=
  match fuel with
  | 0 => none
  | fuel + 1 => do
    match ← skipLines? false cs with
    | '\x7d' :: final => pure final
    | first =>
      let (key, afterKey) ← takeKey? first
      match ← skipLines? false afterKey with
      | '=' :: behind =>
        let (value, afterValue) ← takeValue? fuel depth (← skipLines? false behind)
        let extended ← tables.setValue [] key value
        match ← skipLines? false afterValue with
        | ',' :: more => takePairs? fuel depth extended more
        | '\x7d' :: final => pure final
        | _ => none
      | _ => none

end

/-- The expressions of a document from some place on, within the table begun last. -/
def readFrom? (fuel : Nat) (base : List String) (tables : Tables) (cs : List Char) :
    Option Tables :=
  match fuel with
  | 0 => none
  | fuel + 1 => do
    match ← skipLines? false cs with
    | [] => pure tables
    | '[' :: '[' :: rest =>
      let (path, afterPath) ← takeKey? rest
      match afterPath with
      | ']' :: ']' :: final =>
        if endsLine final then readFrom? fuel path (← tables.beginListed path) final else none
      | _ => none
    | '[' :: rest =>
      let (path, afterPath) ← takeKey? rest
      match afterPath with
      | ']' :: final =>
        if endsLine final then readFrom? fuel path (← tables.beginTable path) final else none
      | _ => none
    | first =>
      let (key, afterKey) ← takeKey? first
      match afterKey with
      | '=' :: behind =>
        let (value, final) ← takeValue? (4 * behind.length + 4) deepest (skipBlanks behind)
        if endsLine final then readFrom? fuel base (← tables.setValue base key value) final
        else none
      | _ => none

/-- The top-level keys of a document with their values. A mark of the byte order in front is
skipped. -/
def members? (text : String) : Option (List (String × Value)) :=
  let cs := (Text.unmarked text).toList
  (readFrom? (cs.length + 1) [] [] cs).map Tables.topLevel

end TaggedItems.Toml
