import TaggedItems.Settings.Environment
import TaggedItems.Settings.File
/-!
# Loading settings

Each field takes its value from the environment, or else from the file, or else from the defaults,
and only the value that it takes is converted.
-/
namespace TaggedItems

/-- How the service runs. -/
structure Settings where
  databaseFile : String
  inMemory : Bool
  host : String
  port : Nat
  logLevel : String
  deriving DecidableEq

namespace Settings

/-- The fields. -/
inductive Field where
  | databaseFile
  | inMemory
  | host
  | port
  | logLevel
  deriving DecidableEq

namespace Field

/-- The key under which a field is set. -/
def key : Field → String
  | .databaseFile => "database_file"
  | .inMemory => "in_memory"
  | .host => "host"
  | .port => "port"
  | .logLevel => "log_level"

/-- The value of a field that is not set anywhere. -/
def initial : Field → Value
  | .databaseFile => .text "/tmp/db.sql"
  | .inMemory => .bool false
  | .host => .text "0.0.0.0"
  | .port => .int 8080
  | .logLevel => .text "info"

end Field

/-- Why settings cannot be loaded. -/
inductive Fault where
  | unreadable (file : String)
  | unfit (field : Field)
  deriving DecidableEq

/-- The value that a field takes. -/
def winning (fromEnvironment fromFile : Layer) (field : Field) : Value :=
  ((fromEnvironment.value? field.key).or (fromFile.value? field.key)).getD field.initial

/-- Converts a field's value, or blames the field. -/
def fit {α : Type} (field : Field) (converted : Option α) : Except Fault α :=
  match converted with
  | some a => .ok a
  | none => .error (.unfit field)

/-- The settings that a choice of values makes. -/
def ofValues (value : Field → Value) : Except Fault Settings := do
  let databaseFile ← fit .databaseFile (value .databaseFile).text?
  let inMemory ← fit .inMemory (value .inMemory).flag?
  let host ← fit .host (value .host).text?
  let port ← fit .port (value .port).port?
  let logLevel ← fit .logLevel (value .logLevel).text?
  pure ⟨databaseFile, inMemory, host, port, logLevel⟩

/-- What loading leaves open: how the text of a file is read, and in which order the keys of the
file and of the environment are applied. -/
structure Collector where
  read? : Format → String → Option Layer
  fileOrder : Arrangement
  environmentOrder : Arrangement

namespace Collector

/-- Files are read as their formats say, and keys are applied as they are written. -/
def standard : Collector := ⟨Format.read?, .written, .written⟩

/-- The layer of the file that a name selects. Without a file it is empty. -/
def fileLayer (collector : Collector) (directory : Directory) (name : String) :
    Except Fault Layer :=
  match directory.select? name with
  | none => .ok []
  | some (format, text) =>
    match collector.read? format text with
    | some layer => .ok layer
    | none => .error (.unreadable name)

/-- What the environment sets, in the order in which it is applied. -/
def fromEnvironment (collector : Collector) (environment : Environment) : Layer :=
  collector.environmentOrder.arrange environment.layer

/-- What a file sets, in the order in which it is applied. -/
def fromFile (collector : Collector) (file : Layer) : Layer := collector.fileOrder.arrange file

/-- Loads the settings with the file of a given name. -/
def loadFrom (collector : Collector) (directory : Directory) (environment : Environment)
    (name : String) : Except Fault Settings := do
  let file ← collector.fileLayer directory name
  ofValues (winning (collector.fromEnvironment environment) (collector.fromFile file))

/-- Loads the settings with the file that the environment names. -/
def load (collector : Collector) (directory : Directory) (environment : Environment) :
    Except Fault Settings :=
  let named := (environment.find? (·.1 = "TAGDB_CONFIG")).map (·.2)
  collector.loadFrom directory environment (named.getD "tagdb")

end Collector

/-- Loads the settings with the file of a given name, in the standard way. -/
def loadFrom (directory : Directory) (environment : Environment) (name : String) :
    Except Fault Settings :=
  Collector.standard.loadFrom directory environment name

/-- Loads the settings with the file that the environment names, in the standard way. -/
def load (directory : Directory) (environment : Environment) : Except Fault Settings :=
  Collector.standard.load directory environment

/-- The file in which the catalog is kept, unless it is kept in memory. -/
def catalogFile? (settings : Settings) : Option String :=
  if settings.inMemory then none else some settings.databaseFile

/-- Where the service listens. -/
def address (settings : Settings) : String := settings.host ++ ":" ++ Decimal.text settings.port

end Settings
end TaggedItems
