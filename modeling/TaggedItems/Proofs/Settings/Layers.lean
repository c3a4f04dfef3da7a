import Mathlib.Data.List.Basic
import Mathlib.Data.List.Nodup
import TaggedItems.Proofs.Settings.Keys
import TaggedItems.Proofs.Work
import TaggedItems.Settings.Load
/-!
# Settings in layers

Variables of the environment go before the entries of the file, and these before the defaults. Each
of the two sources lists what it sets, one value for each key (`Lists`), in an order that nobody
promises; of several keys for one field the last one counts. An entry counts for a field if its key
is the field's own, or steps into the field's value. `Wins` says so, and `winning_eq_iff` that it is
what is computed.
-/
namespace TaggedItems.Settings
variable {field : Field} {key name : String} {v w : Value} {environment : Environment}
  {layer laid fromEnvironment fromFile : Layer}

/-! ## The value that a field takes -/

/-- A key steps into the value of a field. -/
def StepsInto (key : String) (field : Field) : Prop :=
  ∃ steps, steps ≠ [] ∧ Steps steps ∧ key.toList = field.key.toList ++ steps

/-- A key is for a field if it is the field's own key, or steps into the field's value. -/
def Bears (key : String) (field : Field) : Prop := key = field.key ∨ StepsInto key field

/-- What an entry gives to a field. Steps into a value make it composite, whatever it was. -/
inductive Gives (field : Field) : String × Value → Value → Prop
  | whole {v : Value} : Gives field (field.key, v) v
  | part {key : String} {v : Value} (into : StepsInto key field) : Gives field (key, v) .composite

/-- The last of the entries that give anything gives this. -/
def LastGives {α : Type} (gives : α → Value → Prop) (entries : List α) (v : Value) : Prop :=
  ∃ before entry after, entries = before ++ entry :: after ∧ gives entry v ∧
    ∀ later ∈ after, ∀ w, ¬ gives later w

def NoneGives {α : Type} (gives : α → Value → Prop) (entries : List α) : Prop :=
  ∀ entry ∈ entries, ∀ v, ¬ gives entry v

/-- The value that a field takes: that of the environment, or else of the file, or else the
default. -/
inductive Wins (fromEnvironment fromFile : Layer) (field : Field) : Value → Prop
  | environment {v : Value} (last : LastGives (Gives field) fromEnvironment v) :
      Wins fromEnvironment fromFile field v
  | file {v : Value} (unset : NoneGives (Gives field) fromEnvironment)
      (last : LastGives (Gives field) fromFile v) : Wins fromEnvironment fromFile field v
  | initial (unset : NoneGives (Gives field) fromEnvironment)
      (unsetInFile : NoneGives (Gives field) fromFile) :
      Wins fromEnvironment fromFile field field.initial

/-! ## What a source sets -/

/-- The last value under a key. -/
def Layer.Sets (layer : Layer) (key : String) (v : Value) : Prop :=
  LastGives (fun entry w => entry = (key, w)) layer v

/-- What the last variable sets whose name, in lower case, is the key behind the prefix. -/
def Environment.Sets (environment : Environment) (key : String) (v : Value) : Prop :=
  LastGives (fun entry w => lowerCase entry.1 = "tagdb_" ++ key ∧ w = .ofText entry.2) environment v

/-- A layer lists each key that is set once, with its value. -/
structure Lists (laid : Layer) (sets : String → Value → Prop) : Prop where
  distinct : (laid.map Prod.fst).Nodup
  mem_iff : ∀ key v, (key, v) ∈ laid ↔ sets key v

section
variable {α β : Type} {gives : α → Value → Prop} {f : α → Option Value} {a : α} {rest : List α}

theorem not_lastGives_nil : ¬ LastGives gives [] v := by
  rintro ⟨before, entry, after, same, -⟩
  simp at same

theorem lastGives_cons :
    LastGives gives (a :: rest) v ↔
      LastGives gives rest v ∨ gives a v ∧ NoneGives gives rest := by
  constructor
  · rintro ⟨_ | ⟨first, before⟩, entry, after, same, given, unset⟩
    · cases same
      exact .inr ⟨given, unset⟩
    · cases same
      exact .inl ⟨before, entry, after, rfl, given, unset⟩
  · rintro (⟨before, entry, after, rfl, given, unset⟩ | ⟨given, unset⟩)
    · exact ⟨a :: before, entry, after, rfl, given, unset⟩
    · exact ⟨[], a, rest, rfl, given, unset⟩

end

/-! ## Each key once -/

theorem settled_sublist (layer : Layer) : layer.settled.Sublist layer := by
  induction layer with
  | nil => exact .refl _
  | cons entry rest ih =>
    rw [Layer.settled]
    split
    · exact ih.cons entry
    · exact ih.cons_cons entry

theorem mem_settled : (key, v) ∈ layer.settled ↔ layer.Sets key v := by
  induction layer with
  | nil => exact iff_of_false List.not_mem_nil not_lastGives_nil
  | cons entry rest ih =>
    rw [Layer.Sets, lastGives_cons, ← Layer.Sets, ← ih, Layer.settled]
    split
    · rename_i again
      obtain ⟨later, there, same⟩ := List.any_eq_true.mp again
      have same : later.1 = entry.1 := of_decide_eq_true same
      refine (or_iff_left ?_).symm
      rintro ⟨rfl, unset⟩
      exact unset later there later.2 (Prod.ext same rfl)
    · rename_i last
      have unset : entry = (key, v) → NoneGives (fun entry w => entry = (key, w)) rest := by
        rintro rfl later there w rfl
        exact last (List.any_eq_true.mpr ⟨_, there, decide_eq_true rfl⟩)
      rw [List.mem_cons, or_comm, eq_comm, and_iff_left_of_imp unset]

theorem settled_lists (layer : Layer) : Lists layer.settled layer.Sets where
  distinct := by
    induction layer with
    | nil => exact List.nodup_nil
    | cons entry rest ih =>
      rw [Layer.settled]
      split
      · exact ih
      · rename_i last
        refine List.nodup_cons.mpr ⟨fun there => ?_, ih⟩
        obtain ⟨later, kept, same⟩ := List.mem_map.mp there
        exact last (List.any_eq_true.mpr
          ⟨later, (settled_sublist rest).subset kept, decide_eq_true same⟩)
  mem_iff _ _ := mem_settled

theorem Arrangement.lists (arrangement : Arrangement) (layer : Layer) :
    Lists (arrangement.arrange layer) layer.Sets where
  distinct := ((arrangement.perm layer).map Prod.fst).nodup_iff.mpr (settled_lists layer).distinct
  mem_iff _ _ := (arrangement.perm layer).mem_iff.trans mem_settled

theorem Gives.bears {entry : String × Value} (h : Gives field entry v) : Bears entry.1 field := by
  cases h with
  | whole => exact .inl rfl
  | part into => exact .inr into

namespace Lists
variable {sets : String → Value → Prop}

theorem nodup (h : Lists laid sets) : laid.Nodup := h.distinct.of_map

/-- A key has one value. -/
theorem unique (h : Lists laid sets) (one : (key, v) ∈ laid) (other : (key, w) ∈ laid) : w = v := by
  have same := List.inj_on_of_nodup_map h.distinct other one rfl
  exact congrArg Prod.snd same

end Lists

end TaggedItems.Settings
