/-!
# Decimal numbers

The decimal digits of a natural number, and the value of a digit string. Main statements:
`natural?_digits` reads back what is written, and `natural?_replicate_zero` says that zeros in
front change no value.
-/
namespace TaggedItems.Decimal

/-- The value of one of the ten ASCII digits. -/
def digit? (c : Char) : Option Nat :=
  if c.isDigit then some (c.toNat - '0'.toNat) else none

/-- The value of a number that starts with the digits of `n` and goes on with `cs`. -/
def extend? (n : Nat) : List Char → Option Nat
  | [] => some n
  | c :: rest => (digit? c).bind fun d => extend? (10 * n + d) rest

/-- The value of one or more digits and nothing else; zeros may stand in front. -/
def natural? : List Char → Option Nat
  | [] => none
  | c :: rest => extend? 0 (c :: rest)

/-- The character of a digit below ten. -/
def digitChar (d : Nat) : Char := Char.ofNat ('0'.toNat + d)

/-- The digits of a number without zeros in front; zero is one digit. -/
def digits (n : Nat) : List Char :=
  if n < 10 then [digitChar n] else digits (n / 10) ++ [digitChar (n % 10)]
termination_by n

/-- A negative number has its sign in front of its digits. -/
def chars : Int → List Char
  | .ofNat n => digits n
  | .negSucc n => '-' :: digits (n + 1)

/-- The decimal text of a number. -/
def text (n : Int) : String := String.ofList (chars n)

theorem digit?_digitChar {d : Nat} (h : d < 10) : digit? (digitChar d) = some d := by
  have all : ∀ e : Fin 10, digit? (digitChar e.val) = some e.val := by decide
  exact all ⟨d, h⟩

theorem extend?_append {n m : Nat} {cs ds : List Char} (h : extend? n cs = some m) :
    extend? n (cs ++ ds) = extend? m ds := by
  induction cs generalizing n with
  | nil => simp_all [extend?]
  | cons c rest ih =>
    simp only [extend?, Option.bind_eq_some_iff] at h
    obtain ⟨d, hd, hr⟩ := h
    simp [extend?, hd, ih hr]

theorem extend?_digits (n : Nat) : extend? 0 (digits n) = some n := by
  induction n using Nat.strongRecOn with
  | ind n ih =>
    unfold digits
    split
    · rename_i small
      simp [extend?, digit?_digitChar small]
    · rename_i large
      rw [extend?_append (ih (n / 10) (by omega))]
      simp only [extend?, digit?_digitChar (Nat.mod_lt n (by omega : 0 < 10)), Option.bind_some]
      congr 1
      omega

theorem digits_ne_nil (n : Nat) : digits n ≠ [] := by
  unfold digits
  split <;> simp

/-- Reading gives back the number that was written. -/
theorem natural?_digits (n : Nat) : natural? (digits n) = some n := by
  have value := extend?_digits n
  cases h : digits n with
  | nil => exact absurd h (digits_ne_nil n)
  | cons c rest => rw [h] at value; exact value

/-- Zeros in front of a number change nothing. -/
theorem natural?_replicate_zero (k : Nat) {cs : List Char} (h : cs ≠ []) :
    natural? (List.replicate k '0' ++ cs) = natural? cs := by
  have zeros (ds : List Char) : extend? 0 (List.replicate k '0' ++ ds) = extend? 0 ds := by
    induction k with
    | zero => rfl
    | succ k ih => exact ih
  cases cs with
  | nil => exact absurd rfl h
  | cons c rest =>
    cases k with
    | zero => rfl
    | succ k => exact zeros (c :: rest)

end TaggedItems.Decimal
