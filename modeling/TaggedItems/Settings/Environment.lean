import TaggedItems.Settings.Layer
/-!
# Settings from the environment

A variable whose name begins with `TAGDB_`, in any case, sets the key that the rest of its name
gives in lower case.
-/
namespace TaggedItems.Settings

/-- Names of variables with their values. -/
abbrev Environment := List (String × String)

/-- The key that a variable sets, if it sets one. -/
def variableKey? (name : String) : Option String :=
  let lower := name.toList.map Char.toLower
  let start := "tagdb_".toList
  if start <+: lower then some (String.ofList (lower.drop start.length)) else none

/-- The layer of an environment. The kinds of the values are told from their texts. -/
def Environment.layer (environment : Environment) : Layer :=
  environment.filterMap fun (name, text) =>
    (variableKey? name).map fun key => (key, Value.ofText text)

end TaggedItems.Settings
