import TaggedItems.Json.Reader
import TaggedItems.Settings.Layer
import TaggedItems.Settings.Location
import TaggedItems.Text.Mark
import TaggedItems.Toml.Reader
/-!
# Settings from a file

A file is looked for where a path leads, and else there with the extension of each format behind
its name. The extension tells the format.
-/
namespace TaggedItems.Settings

/-- The files of a directory: names and texts. -/
abbrev Directory := List (String × String)

/-- How a file is written. -/
inductive Format where
  | toml
  | json
  deriving DecidableEq

namespace Format

def extension : Format → String
  | .toml => "toml"
  | .json => "json"

/-- The format of an extension. -/
def ofExtension? (extension : String) : Option Format :=
  if extension = "toml" then some .toml else if extension = "json" then some .json else none

/-- The keys and values of a text. A mark of the byte order in front is skipped. -/
def read? (format : Format) (text : String) : Option Layer :=
  match format with
  | .toml => Toml.members? (Text.unmarked text)
  | .json => Json.members? (Text.unmarked text)

end Format

/-- What stands behind the last dot of a file's name. A dot in front makes no extension. -/
def extension? (name : String) : Option String :=
  let cs := name.toList
  let behind := (cs.reverse.takeWhile (· ≠ '.')).reverse
  if behind.length + 1 < cs.length then some (String.ofList behind) else none

namespace Directory

/-- The text of a file. -/
def text? (directory : Directory) (name : String) : Option String :=
  (directory.find? (·.1 = name)).map (·.2)

/-- The text of the file that a path selects, and its format. A file that is named exactly hides all
others, even if it has the extension of no format. -/
def select? (directory : Directory) (path : String) : Option (Format × String) := do
  let place ← Location.of? path
  match (directory.text? place.file).filter fun _ => place.exact with
  | some text => ((extension? place.file).bind Format.ofExtension?).map fun format => (format, text)
  | none =>
    [Format.toml, Format.json].findSome? fun format =>
      (directory.text? (place.file ++ "." ++ format.extension)).map fun text => (format, text)

end Directory
end TaggedItems.Settings
