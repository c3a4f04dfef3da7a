/-!
# The mark of the byte order

Some programs begin a text with a character that only says how the text is encoded.
-/
namespace TaggedItems.Text

/-- A text without a mark in front of it. Only one mark is left out. -/
def unmarked (text : String) : String :=
  match text.toList with
  | '\ufeff' :: rest => String.ofList rest
  | _ => text

end TaggedItems.Text
