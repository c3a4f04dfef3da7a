import Mathlib.Data.List.TakeWhile
import TaggedItems.Predicate
import TaggedItems.Proofs.Text.ByteOrder
import TaggedItems.Web.Percent
import TaggedItems.Web.Target
/-!
# Writing names into a path

A name can stand in the path of a request if each of its bytes is escaped there, and those of
letters, digits and some marks can also be left as they are. However a path is written, it is
accepted as a target (`tail?_of_written`), and one pass of decoding gives back what was written into
it (`decode_of_writesBytes`, `decode_of_writesPairs`).
-/
namespace TaggedItems

/-- The UTF-8 bytes of characters. -/
def Text.encode (cs : List Char) : List UInt8 := cs.flatMap String.utf8EncodeChar

namespace Text

theorem encode_append (cs ds : List Char) : encode (cs ++ ds) = encode cs ++ encode ds :=
  List.flatMap_append

theorem encode_toList (s : String) : encode s.toList = bytes s := (bytes_eq s).symm

theorem toByteArray_encode (cs : List Char) :
    (encode cs).toByteArray = (String.ofList cs).toUTF8 := by
  have encoded : (String.ofList cs).toList.utf8Encode = (String.ofList cs).toUTF8 :=
    String.utf8Encode_toList
  rw [← encoded, String.toList_ofList]
  rfl

/-- Listing bytes from a place on puts them behind those that were listed before. -/
theorem toList_loop (bytes : ByteArray) (place : Nat) (listed : List UInt8) :
    ByteArray.toList.loop bytes place listed = listed.reverse ++ bytes.data.toList.drop place := by
  fun_induction ByteArray.toList.loop bytes place listed with
  | case1 place listed inside ih =>
    have within : place < bytes.data.size := inside
    have next : bytes.data.toList.drop place =
        bytes.data[place] :: bytes.data.toList.drop (place + 1) :=
      List.drop_eq_getElem_cons (by simpa using within)
    rw [ih, next]
    simp [ByteArray.get!, getElem!_pos bytes.data place within]
  | case2 place listed outside =>
    have beyond : bytes.data.size ≤ place := Nat.not_lt.mp outside
    rw [List.drop_eq_nil_of_le (by simpa using beyond), List.append_nil]

theorem toList_toUTF8 (s : String) : s.toUTF8.toList = bytes s := toList_loop s.toUTF8 0 []

/-- A character of ASCII is a single byte. -/
theorem encode_cons {c : Char} (ascii : c.toNat < 128) (rest : List Char) :
    encode (c :: rest) = c.toUInt8 :: encode rest := by
  have size : c.utf8Size = 1 := by
    rw [Char.utf8Size_eq_one_iff, UInt32.le_iff_toNat_le]
    exact Nat.le_of_lt_succ ascii
  rw [encode, List.flatMap_cons, String.utf8EncodeChar_eq_singleton size]
  rfl

theorem length_encode {cs : List Char} (ascii : ∀ c ∈ cs, c.toNat < 128) :
    (encode cs).length = cs.length := by
  induction cs with
  | nil => rfl
  | cons c rest ih =>
    obtain ⟨first, ascii⟩ := List.forall_mem_cons.mp ascii
    rw [encode_cons first, List.length_cons, ih ascii, List.length_cons]

end Text

namespace Web

/-! ## What may be written -/

/-- The letters and digits of ASCII, and the marks that mean nothing in a path. -/
def Plain (c : Char) : Prop := c.isAlphanum = true ∨ c ∈ ['-', '.', '_', '~']

/-- The digit of a value below sixteen, in either case. -/
def HexDigit (value : Nat) (c : Char) : Prop :=
  "0123456789abcdef".toList[value]? = some c ∨ "0123456789ABCDEF".toList[value]? = some c

/-- A byte is written as an escape, or as the plain character that it stands for. -/
inductive WritesByte : UInt8 → List Char → Prop
  | escaped {byte : UInt8} {high low : Char} (first : HexDigit (byte.toNat / 16) high)
      (second : HexDigit (byte.toNat % 16) low) : WritesByte byte ['%', high, low]
  | plain {c : Char} (plain : Plain c) : WritesByte c.toUInt8 [c]

/-- Bytes are written one after the other, each in its own way. -/
inductive WritesBytes : List UInt8 → List Char → Prop
  | nil : WritesBytes [] []
  | cons {byte : UInt8} {rest : List UInt8} {first more : List Char}
      (head : WritesByte byte first) (tail : WritesBytes rest more) :
      WritesBytes (byte :: rest) (first ++ more)

/-- Each predicate is written as its operator and the bytes of its name. -/
inductive WritesPairs : List Predicate → List Char → Prop
  | nil : WritesPairs [] []
  | cons {p : Predicate} {rest : List Predicate} {name more : List Char}
      (head : WritesBytes (Text.bytes p.name) name) (tail : WritesPairs rest more) :
      WritesPairs (p :: rest) (p.sign.symbol :: (name ++ more))

/-- A target starts with a slash, so one is put in front of an exclusion. -/
def WritesTarget (pairs : List Predicate) (target : String) : Prop :=
  ∃ path, WritesPairs pairs path ∧
    target.toList = if path.head? = some '!' then '/' :: path else path

/-! ## The characters that are written -/

instance (c : Char) : Decidable (Plain c) :=
  inferInstanceAs (Decidable (c.isAlphanum = true ∨ c ∈ ['-', '.', '_', '~']))

instance (value : Nat) (c : Char) : Decidable (HexDigit value c) :=
  inferInstanceAs (Decidable ("0123456789abcdef".toList[value]? = some c ∨
    "0123456789ABCDEF".toList[value]? = some c))

/-- What holds of the characters of ASCII one by one. -/
theorem forall_ascii {P : Char → Prop} (all : ∀ n : Fin 128, P (Char.ofNat n)) {c : Char}
    (ascii : c.toNat < 128) : P c :=
  Char.ofNat_toNat c ▸ all ⟨c.toNat, ascii⟩

theorem Plain.ascii {c : Char} (h : Plain c) : c.toNat < 128 := by
  rcases h with alphanum | mark
  · delta Char.isAlphanum Char.isAlpha Char.isUpper Char.isLower Char.isDigit at alphanum
    simp only [Bool.or_eq_true, Bool.and_eq_true, decide_eq_true_eq, UInt32.le_iff_toNat_le,
      ge_iff_le] at alphanum
    change ((65 ≤ c.toNat ∧ c.toNat ≤ 90) ∨ 97 ≤ c.toNat ∧ c.toNat ≤ 122) ∨
      48 ≤ c.toNat ∧ c.toNat ≤ 57 at alphanum
    omega
  · simp only [List.mem_cons, List.not_mem_nil, or_false] at mark
    rcases mark with rfl | rfl | rfl | rfl <;> decide

theorem HexDigit.spec {value : Nat} {c : Char} (h : HexDigit value c) :
    Hex.digit? c = some value ∧ Plain c := by
  have lower : ∀ place : Fin "0123456789abcdef".toList.length,
      Hex.digit? "0123456789abcdef".toList[place] = some place.val ∧
        Plain "0123456789abcdef".toList[place] := by
    decide +kernel
  have upper : ∀ place : Fin "0123456789ABCDEF".toList.length,
      Hex.digit? "0123456789ABCDEF".toList[place] = some place.val ∧
        Plain "0123456789ABCDEF".toList[place] := by
    decide +kernel
  rcases h with h | h
  · obtain ⟨inside, rfl⟩ := List.getElem?_eq_some_iff.mp h
    exact lower ⟨value, inside⟩
  · obtain ⟨inside, rfl⟩ := List.getElem?_eq_some_iff.mp h
    exact upper ⟨value, inside⟩

/-- What a path is written with: plain characters, escapes and operators. -/
def Written (c : Char) : Prop := Plain c ∨ c ∈ ['%', '/', '!']

instance (c : Char) : Decidable (Written c) :=
  inferInstanceAs (Decidable (Plain c ∨ c ∈ ['%', '/', '!']))

theorem written_symbol (s : Sign) : Written s.symbol := by
  cases s <;> decide

theorem WritesByte.written {byte : UInt8} {cs : List Char} (h : WritesByte byte cs) :
    ∀ c ∈ cs, Written c := by
  cases h with
  | escaped first second =>
    simp only [List.forall_mem_cons, List.not_mem_nil, false_implies, implies_true, and_true]
    exact ⟨.inr (by decide), .inl first.spec.2, .inl second.spec.2⟩
  | plain plain => exact List.forall_mem_singleton.mpr (.inl plain)

theorem WritesBytes.written {bytes : List UInt8} {cs : List Char} (h : WritesBytes bytes cs) :
    ∀ c ∈ cs, Written c := by
  induction h with
  | nil => simp
  | cons head _ ih => exact List.forall_mem_append.mpr ⟨head.written, ih⟩

theorem WritesPairs.written {pairs : List Predicate} {cs : List Char} (h : WritesPairs pairs cs) :
    ∀ c ∈ cs, Written c := by
  induction h with
  | nil => simp
  | cons head _ ih =>
    exact List.forall_mem_cons.mpr
      ⟨written_symbol _, List.forall_mem_append.mpr ⟨head.written, ih⟩⟩

theorem Written.ascii {c : Char} (h : Written c) : c.toNat < 128 := by
  rcases h with plain | sign
  · exact plain.ascii
  · simp only [List.mem_cons, List.not_mem_nil, or_false] at sign
    rcases sign with rfl | rfl | rfl <;> decide

/-- None of what is written ends the path. -/
theorem Written.inPath {c : Char} (h : Written c) :
    Target.isPathChar c = true ∧ c ≠ '?' ∧ c ≠ '#' :=
  forall_ascii (P := fun c => Written c → Target.isPathChar c = true ∧ c ≠ '?' ∧ c ≠ '#')
    (by decide +kernel) h.ascii h

/-- Plain characters can be left as they are. -/
theorem writesBytes_of_plain {cs : List Char} (plain : ∀ c ∈ cs, Plain c) :
    WritesBytes (Text.encode cs) cs := by
  induction cs with
  | nil => exact .nil
  | cons c rest ih =>
    obtain ⟨first, plain⟩ := List.forall_mem_cons.mp plain
    rw [Text.encode_cons first.ascii]
    exact .cons (.plain first) (ih plain)

/-! ## Decoding -/

namespace Percent

theorem decode_cons {first : UInt8} (h : first ≠ '%'.toUInt8) (rest : List UInt8) :
    decode (first :: rest) = first :: decode rest := by
  match rest with
  | [] => rfl
  | [_] => rfl
  | _ :: _ :: _ => rw [decode, if_neg h]

theorem byte?_eq_some {byte : UInt8} {high low : Char} (first : HexDigit (byte.toNat / 16) high)
    (second : HexDigit (byte.toNat % 16) low) : byte? high.toUInt8 low.toUInt8 = some byte := by
  have back {c : Char} (ascii : c.toNat < 128) : Char.ofNat c.toUInt8.toNat = c :=
    forall_ascii (P := fun c => Char.ofNat c.toUInt8.toNat = c) (by decide +kernel) ascii
  rw [byte?, back first.spec.2.ascii, back second.spec.2.ascii, first.spec.1, second.spec.1]
  simp only [Nat.div_add_mod, UInt8.ofNat_toNat]

theorem decode_of_writesByte {byte : UInt8} {cs : List Char} (h : WritesByte byte cs)
    (rest : List UInt8) : decode (Text.encode cs ++ rest) = byte :: decode rest := by
  cases h with
  | escaped first second =>
    rw [Text.encode_cons (by decide), Text.encode_cons first.spec.2.ascii,
      Text.encode_cons second.spec.2.ascii]
    exact decode_escaped (byte?_eq_some first second) rest
  | @plain c plain =>
    have other : c.toUInt8 ≠ '%'.toUInt8 :=
      forall_ascii (P := fun c => Plain c → c.toUInt8 ≠ '%'.toUInt8) (by decide +kernel)
        plain.ascii plain
    rw [Text.encode_cons plain.ascii]
    exact decode_cons other rest

theorem decode_of_writesBytes {bytes : List UInt8} {cs : List Char} (h : WritesBytes bytes cs)
    (rest : List UInt8) : decode (Text.encode cs ++ rest) = bytes ++ decode rest := by
  induction h with
  | nil => rfl
  | cons head _ ih =>
    rw [Text.encode_append, List.append_assoc, decode_of_writesByte head, ih]
    rfl

/-- Decoding gives back the texts of the predicates. -/
theorem decode_of_writesPairs {pairs : List Predicate} {cs : List Char} (h : WritesPairs pairs cs) :
    decode (Text.encode cs) = Text.encode (pairs.flatMap fun p => p.text.toList) := by
  induction h with
  | nil => rfl
  | @cons p _ _ _ head _ ih =>
    have symbol : p.sign.symbol.toUInt8 ≠ '%'.toUInt8 := by
      cases p.sign <;> decide
    have text : p.text.toList = p.sign.symbol :: p.name.toList := by
      simp [Predicate.text]
    rw [List.flatMap_cons, text, List.cons_append, Text.encode_cons (written_symbol _).ascii,
      Text.encode_cons (written_symbol _).ascii, decode_cons symbol, Text.encode_append,
      decode_of_writesBytes head, ih, Text.encode_append, Text.encode_toList]

end Percent

/-! ## Targets -/

/-- A target that is written within the limit is accepted, and its tail is all behind the slash. -/
theorem tail?_of_written {target : String} {rest : List Char} (text : target.toList = '/' :: rest)
    (written : ∀ c ∈ rest, Written c) (fits : target.utf8ByteSize ≤ Target.longest) :
    Target.tail? target = some (String.ofList rest) := by
  have path : Target.path? rest = some rest := by
    have whole : rest.takeWhile (fun c => c ≠ '?' ∧ c ≠ '#') = rest := by
      rw [List.takeWhile_eq_self_iff]
      intro c there
      simpa using (written c there).inPath.2
    have allowed : rest.all Target.isPathChar = true := by
      rw [List.all_eq_true]
      exact fun c there => (written c there).inPath.1
    simp only [Target.path?, whole, List.drop_length]
    simp [allowed]
  rw [Target.tail?, if_neg (Nat.not_lt.mpr fits), text]
  simp [path]

/-- What is behind the slash of a target decodes to the texts of the predicates without the slash
in front, which is idle if the first of them excludes. -/
theorem WritesTarget.decoded {pairs : List Predicate} {target : String}
    (h : WritesTarget pairs target) (some : pairs ≠ []) :
    ∃ (rest tail : List Char) (idle : List Sign), target.toList = '/' :: rest ∧
      (∀ c ∈ rest, Written c) ∧ Percent.decode (Text.encode rest) = Text.encode tail ∧
      '/' :: tail = idle.map Sign.symbol ++ pairs.flatMap fun p => p.text.toList := by
  obtain ⟨path, writes, text⟩ := h
  have written := writes.written
  have decoded := Percent.decode_of_writesPairs writes
  cases writes with
  | nil => exact absurd rfl some
  | @cons p others name more head tail =>
    cases sign : p.sign with
    | excludes =>
      rw [sign] at text written decoded
      exact ⟨_, _, [.includes], text, written, decoded, rfl⟩
    | includes =>
      rw [sign] at text written decoded
      refine ⟨name ++ more, p.name.toList ++ others.flatMap fun p => p.text.toList, [], text,
        (List.forall_mem_cons.mp written).2, ?_, ?_⟩
      · rw [Text.encode_append, Text.encode_append, Percent.decode_of_writesBytes head,
          Percent.decode_of_writesPairs tail, Text.encode_toList]
      · simp [Predicate.text, sign, Sign.symbol]

end Web
end TaggedItems
