import Mathlib.Data.List.Basic
import TaggedItems.Json.Reader
import TaggedItems.Json.Text
import TaggedItems.Proofs.Spelling
/-!
# Where written values end

Compact JSON can be cut apart again. A string is read back as it was written
(`takeString?_written`), so it ends at a place of its own even if it looks like JSON itself, and an
array of values that end so ends so, too (`selfDelimiting_array`). A number ends at the comma behind
it (`number_inj`).
-/
namespace TaggedItems.Json
variable {α : Type} {write : α → String} {u v : List Char}

/-- A text that begins with a written value begins so with no other value, and has one rest. -/
def SelfDelimiting (write : α → String) : Prop :=
  ∀ {a b : α} {u v : List Char}, (write a).toList ++ u = (write b).toList ++ v → a = b ∧ u = v

theorem takeWhile_number (n : Int) (u : List Char) :
    (Decimal.chars n ++ ',' :: u).takeWhile (· ≠ ',') = Decimal.chars n := by
  have inside : ∀ c ∈ Decimal.chars n, decide (c ≠ ',') = true := by
    intro c there
    rcases Decimal.of_mem_chars there with rfl | digit
    · rfl
    · exact decide_eq_true fun comma => absurd (comma ▸ digit) (by decide)
  rw [List.takeWhile_append_of_pos inside, List.takeWhile_cons_of_neg (by simp), List.append_nil]

/-- A number ends where the comma is. -/
theorem number_inj {m n : Int}
    (same : Decimal.chars m ++ ',' :: u = Decimal.chars n ++ ',' :: v) : m = n ∧ u = v := by
  have read := congrArg (List.takeWhile (· ≠ ',')) same
  rw [takeWhile_number, takeWhile_number] at read
  obtain rfl := Decimal.chars_inj read
  exact ⟨rfl, List.tail_eq_of_cons_eq (List.append_cancel_left same)⟩

/-! ## Strings -/

theorem takeString?_letter {letter meant : Char} (known : letter? letter = some meant)
    (rest : List Char) :
    takeString? ('\\' :: letter :: rest) =
      (takeString? rest).map fun (text, final) => (meant :: text, final) := by
  have other : ∀ a b c d more, letter = 'u' → rest = a :: b :: c :: d :: more → False := by
    rintro _ _ _ _ _ rfl
    cases known
  rw [takeString?, known]
  · cases takeString? rest <;> rfl
  · exact other

theorem unit?_pair {n : Nat} (small : n < 0x20) :
    unit? '0' '0' (Hex.char (n / 16)) (Hex.char (n % 16)) = some n := by
  have zero : Hex.digit? '0' = some 0 := rfl
  simp only [unit?, zero, Hex.digit?_char (by omega : n / 16 < 16),
    Hex.digit?_char (Nat.mod_lt n (by omega : 0 < 16)), Option.bind_eq_bind, Option.bind_some,
    Option.pure_def, Option.some_inj]
  omega

/-- Control characters are no surrogates, so their units stand alone. -/
theorem takeString?_unit {n : Nat} (small : n < 0x20) (rest : List Char) :
    takeString? ('\\' :: 'u' :: '0' :: '0' :: Hex.char (n / 16) :: Hex.char (n % 16) :: rest) =
      (takeString? rest).map fun (text, final) => (Char.ofNat n :: text, final) := by
  have high : isHighSurrogate n = false := by simp [isHighSurrogate]; omega
  have low : isLowSurrogate n = false := by simp [isLowSurrogate]; omega
  rw [takeString?, unit?_pair small]
  simp only [Option.bind_eq_bind, Option.bind_some, high, low]
  cases takeString? rest <;> rfl

theorem takeString?_plain {c : Char} (quoted : ¬ (c = '"' ∨ c = '\\')) (control : ¬ c.toNat < 0x20)
    (rest : List Char) :
    takeString? (c :: rest) = (takeString? rest).map fun (text, final) => (c :: text, final) := by
  obtain ⟨quote, backslash⟩ := not_or.mp quoted
  rw [takeString?, if_neg control]
  · exact quote
  · exact fun _ _ _ _ _ is _ => backslash is
  · exact fun _ _ is _ => backslash is

/-- However a character is written, it is read back as itself. -/
theorem takeString?_escape (c : Char) (rest : List Char) :
    takeString? (escape c ++ rest) =
      (takeString? rest).map fun (text, final) => (c :: text, final) := by
  unfold escape
  split_ifs with quoted backspace tab line page back control
  · refine takeString?_letter ?_ rest
    rcases quoted with rfl | rfl <;> rfl
  · exact takeString?_letter (backspace ▸ rfl) rest
  · exact takeString?_letter (tab ▸ rfl) rest
  · exact takeString?_letter (line ▸ rfl) rest
  · exact takeString?_letter (page ▸ rfl) rest
  · exact takeString?_letter (back ▸ rfl) rest
  · have read := takeString?_unit control rest
    rwa [Char.ofNat_toNat] at read
  · exact takeString?_plain quoted control rest

/-- A string is read back as it was written, up to its closing quote. -/
theorem takeString?_written (cs rest : List Char) :
    takeString? (cs.flatMap escape ++ '"' :: rest) = some (cs, rest) := by
  induction cs with
  | nil => rfl
  | cons c cs ih =>
    rw [List.flatMap_cons, List.append_assoc, takeString?_escape, ih]
    rfl

theorem toList_string (s : String) :
    (string s).toList = '"' :: (s.toList.flatMap escape ++ ['"']) := by
  rw [string, String.toList_ofList, List.cons_append]

theorem selfDelimiting_string : SelfDelimiting string := by
  intro a b u v same
  simp only [toList_string, List.cons_append, List.append_assoc, List.nil_append, List.cons.injEq,
    true_and] at same
  have read := congrArg takeString? same
  simpa only [takeString?_written, Option.some_inj, Prod.mk.injEq, String.toList_inj] using read

/-! ## Arrays -/

theorem toList_commas_cons (text : String) (texts : List String) :
    (commas (text :: texts)).toList = text.toList ++ texts.flatMap fun t => ',' :: t.toList := by
  rw [commas, String.toList_intercalate]
  induction texts generalizing text with
  | nil => simp
  | cons next rest ih =>
    rw [List.map_cons, List.map_cons, List.intercalate_cons_cons, ← List.map_cons, ih next]
    simp

theorem toList_array_nil : (array []).toList = ['[', ']'] := rfl

theorem toList_array_cons (text : String) (texts : List String) :
    (array (text :: texts)).toList =
      '[' :: (text.toList ++ ((texts.flatMap fun t => ',' :: t.toList) ++ [']'])) := by
  simp [array, toList_commas_cons]

/-- Behind the first value there is a comma and another value, or else the array ends. -/
theorem elements_inj (delimiting : SelfDelimiting write) {as bs : List α}
    (same : (as.flatMap fun a => ',' :: (write a).toList) ++ ']' :: u =
      (bs.flatMap fun b => ',' :: (write b).toList) ++ ']' :: v) : as = bs ∧ u = v := by
  induction as generalizing bs with
  | nil =>
    cases bs with
    | nil => simpa using same
    | cons b bs => simp at same
  | cons a as ih =>
    cases bs with
    | nil => simp at same
    | cons b bs =>
      simp only [List.flatMap_cons, List.cons_append, List.append_assoc, List.cons.injEq,
        true_and] at same
      obtain ⟨rfl, rest⟩ := delimiting same
      obtain ⟨rfl, ends⟩ := ih rest
      exact ⟨rfl, ends⟩

/-- The first value does not begin as an array ends. -/
theorem array_cons_ne_nil {a : α} {as : List α} {c : Char} {rest : List Char}
    (opens : (write a).toList = c :: rest) (other : c ≠ ']') :
    (array ((a :: as).map write)).toList ++ u ≠ (array []).toList ++ v := by
  simp [toList_array_nil, toList_array_cons, opens, other]

/-- Arrays of values that end at a place of their own do so, too. -/
theorem selfDelimiting_array (delimiting : SelfDelimiting write)
    (opens : ∀ a, ∃ c rest, (write a).toList = c :: rest ∧ c ≠ ']') :
    SelfDelimiting fun as : List α => array (as.map write) := by
  intro as bs u v same
  cases as with
  | nil =>
    cases bs with
    | nil => exact ⟨rfl, List.append_cancel_left same⟩
    | cons b bs =>
      obtain ⟨c, rest, begins, other⟩ := opens b
      exact absurd same.symm (array_cons_ne_nil begins other)
  | cons a as =>
    cases bs with
    | nil =>
      obtain ⟨c, rest, begins, other⟩ := opens a
      exact absurd same (array_cons_ne_nil begins other)
    | cons b bs =>
      simp only [List.map_cons, toList_array_cons, List.flatMap_map, List.cons_append,
        List.append_assoc, List.nil_append, List.cons.injEq, true_and] at same
      obtain ⟨rfl, rest⟩ := delimiting same
      obtain ⟨rfl, ends⟩ := elements_inj delimiting rest
      exact ⟨rfl, ends⟩

end TaggedItems.Json
