import Mathlib.Logic.Function.Basic
import PreparedSql.Dialect.Literal
import PreparedSql.Draft
import PreparedSql.Proofs.Numerals

/-!
# What a literal depends on, and what it is made of

* `Value.literalChars_eq`: a literal is a function of the kind and the canonical text of its value,
  so values with the same of both are written alike (`Draft.ofValue_congr`).
* `Value.isLiteralText_literalChars`: a literal is bare text, which has only letters, digits, minus
  signs and points, perhaps with text in single quotes after it.

What tells a number from a word is that it has no letters: the text of a finite number is a numeral
(`BinaryFormat.isNumeralText_plain`), so it is none of `NaN`, `inf` and `-inf`.
-/

namespace PreparedSql

/-! ### Numerals -/

/-- Digits, minus signs and points only. -/
def IsNumeralText (cs : List Char) : Prop := ∀ c ∈ cs, c.isDigit = true ∨ c = '-' ∨ c = '.'

/-- A numeral need not have a sign or a point. -/
theorem AllDigits.isNumeralText {cs : List Char} (h : AllDigits cs) : IsNumeralText cs :=
  fun c hc => .inl (h c hc)

theorem isNumeralText_decimalDigits (n : Nat) : IsNumeralText (decimalDigits n) :=
  (allDigits_decimalDigits n).isNumeralText

/-- A sign may stand in front of a numeral. -/
theorem isNumeralText_signedText {negative : Bool} {cs : List Char} (h : IsNumeralText cs) :
    IsNumeralText (signedText negative cs) := by
  cases negative
  · exact h
  · exact List.forall_mem_cons.2 ⟨by decide, h⟩

theorem isNumeralText_intText (n : Int) : IsNumeralText (intText n) :=
  isNumeralText_signedText (isNumeralText_decimalDigits _)

/-- A point stands behind the digits, between them, or in front of them and of some zeros. -/
theorem Decimal.isNumeralText_plainWith (x : Decimal) : IsNumeralText (x.plainWith []) := by
  have digits := isNumeralText_decimalDigits x.digits
  have zeros : ∀ n, IsNumeralText (List.replicate n '0') := fun n =>
    (allDigits_zeros n).isNumeralText
  unfold plainWith
  dsimp only
  split
  · rw [List.append_nil]
    split
    · exact digits
    · exact List.forall_mem_append.2 ⟨digits, zeros _⟩
  · split
    · refine List.forall_mem_append.2 ⟨?front, List.forall_mem_cons.2 ⟨by decide, ?behind⟩⟩
      case front => exact fun c hc => digits c (List.mem_of_mem_take hc)
      case behind => exact fun c hc => digits c (List.mem_of_mem_drop hc)
    · have fraction (n : Nat) : IsNumeralText (List.replicate n '0' ++ decimalDigits x.digits) :=
        List.forall_mem_append.2 ⟨zeros n, digits⟩
      exact List.forall_mem_cons.2 ⟨by decide, List.forall_mem_cons.2 ⟨by decide, fraction _⟩⟩

/-- The text of a finite number is a numeral. -/
theorem BinaryFormat.isNumeralText_plain (f : BinaryFormat) (s : Bool) (m : Nat) (q : Int) :
    IsNumeralText (f.plain (.finite s m q)) :=
  isNumeralText_signedText (Decimal.isNumeralText_plainWith _)

/-! ### The kind and the canonical text -/

/-- The kind of a name. -/
def ValueKind.ofName? : String → Option ValueKind
  | "null" => some .null
  | "bool" => some .bool
  | "i8" => some (.int .i8)
  | "i16" => some (.int .i16)
  | "i32" => some (.int .i32)
  | "i64" => some (.int .i64)
  | "u8" => some (.int .u8)
  | "u16" => some (.int .u16)
  | "u32" => some (.int .u32)
  | "u64" => some (.int .u64)
  | "f32" => some .f32
  | "f64" => some .f64
  | "string" => some .string
  | "timestamp" => some .timestamp
  | "bytes" => some .bytes
  | "uuid" => some .uuid
  | "json" => some .json
  | "vector" => some .vector
  | _ => none

theorem ValueKind.ofName?_name (k : ValueKind) : ofName? k.name = some k := by
  cases k with
  | int w => cases w <;> rfl
  | _ => rfl

/-- So a kind can be told from its name, which is what a fingerprint has of it. -/
theorem ValueKind.name_injective : Function.Injective ValueKind.name := by
  intro a b h
  have e := ofName?_name a
  rw [h, ofName?_name] at e
  exact (Option.some.inj e).symm

/-- A number as a literal: in quotes where its text is a word. -/
def numberLiteral (text : List Char) : List Char :=
  if text = ['N', 'a', 'N'] then singleQuoted "NaN".toList
  else if text = ['i', 'n', 'f'] then singleQuoted "Infinity".toList
  else if text = ['-', 'i', 'n', 'f'] then singleQuoted "-Infinity".toList
  else text

/-- The literal of a kind with a canonical text. -/
def literalOfText (e : Escaping) : ValueKind → List Char → List Char
  | .null, _ => "NULL".toList
  | .bool, text => if text = "true".toList then "TRUE".toList else "FALSE".toList
  | .int _, text => text
  | .f32, text | .f64, text => numberLiteral text
  | .timestamp, text => singleQuoted text
  | .bytes, text => ['E', '\'', '\\', 'x'] ++ text ++ ['\'']
  | .string, text | .uuid, text | .json, text | .vector, text => e.stringLiteral text

/-- A numeral is not a word. -/
theorem numberLiteral_of_isNumeralText {text : List Char} (h : IsNumeralText text) :
    numberLiteral text = text := by
  have word : ∀ c ∈ text, c ≠ 'N' ∧ c ≠ 'n' := by
    intro c hc
    constructor <;> rintro rfl <;> exact absurd (h _ hc) (by decide)
  unfold numberLiteral
  split
  · next e => exact absurd rfl (word 'N' (by simp [e])).1
  · split
    · next e => exact absurd rfl (word 'n' (by simp [e])).2
    · split
      · next e => exact absurd rfl (word 'n' (by simp [e])).2
      · rfl

/-- Which numbers are put in quotes can be told from their texts. -/
theorem floatLiteral_eq (f : BinaryFormat) (x : BinaryNumber) :
    floatLiteral x (f.plain x) = numberLiteral (f.plain x) := by
  cases x with
  | nan => rfl
  | infinite s => cases s <;> rfl
  | finite s m q => rw [numberLiteral_of_isNumeralText (f.isNumeralText_plain s m q)]; rfl

/-- **A literal is a function of the kind and the canonical text** of its value. -/
theorem Value.literalChars_eq (e : Escaping) (v : Value) :
    v.literalChars e = literalOfText e v.kind v.text.toList := by
  have back : ∀ cs : List Char, cs = (String.ofList cs).toList := fun _ => String.toList_ofList.symm
  cases v with
  | null | string _ => rfl
  | bool b => cases b <;> rfl
  | int w n => exact back (intText n.val)
  | f32 x =>
      exact (floatLiteral_eq .binary32 x.number).trans (congrArg numberLiteral (back x.plain))
  | f64 x =>
      exact (floatLiteral_eq .binary64 x.number).trans (congrArg numberLiteral (back x.plain))
  | timestamp t => exact congrArg singleQuoted (back t.chars)
  | bytes bs => exact congrArg (fun digits => ['E', '\'', '\\', 'x'] ++ digits ++ ['\'']) (back _)
  | uuid u => exact congrArg e.stringLiteral (back u.chars)
  | json j => exact congrArg e.stringLiteral (back j.chars)
  | vector xs => exact congrArg e.stringLiteral (back (vectorChars xs))

/-- Values of one kind with one canonical text. -/
structure Value.Alike (v w : Value) : Prop where
  kind : v.kind = w.kind
  text : v.text = w.text

theorem Draft.isVector_eq (v : Value) : isVector v = decide (v.kind = .vector) := by
  cases v <;> rfl

/-- Alike values are written alike. -/
theorem Draft.ofValue_congr {v w : Value} (h : v.Alike w) (d : Dialect) :
    ofValue d v = ofValue d w := by
  have same : v.literal d.escaping = w.literal d.escaping := by
    rw [Value.literal, Value.literal, Value.literalChars_eq, Value.literalChars_eq, h.kind, h.text]
  simp only [ofValue, isVector_eq, h.kind, Dialect.literal, same]

/-! ### What a literal is made of -/

/-- Letters, digits, minus signs and points only. -/
def IsBareText (cs : List Char) : Prop := ∀ c ∈ cs, c.isAlphanum = true ∨ c = '-' ∨ c = '.'

instance : DecidablePred IsBareText := fun cs =>
  List.decidableBAll (fun c : Char => c.isAlphanum = true ∨ c = '-' ∨ c = '.') cs

/-- Bare text, perhaps with text in single quotes after it. -/
def IsLiteralText (cs : List Char) : Prop :=
  ∃ bare, IsBareText bare ∧ (cs = bare ∨ ∃ inside, cs = bare ++ singleQuoted inside)

/-- A numeral is bare text without letters. -/
theorem IsNumeralText.isBareText {cs : List Char} (h : IsNumeralText cs) : IsBareText cs :=
  fun c hc => (h c hc).imp_left fun digit => by simp [Char.isAlphanum, digit]

theorem IsBareText.isLiteralText {cs : List Char} (h : IsBareText cs) : IsLiteralText cs :=
  ⟨cs, h, .inl rfl⟩

theorem isLiteralText_singleQuoted (cs : List Char) : IsLiteralText (singleQuoted cs) :=
  ⟨[], by simp [IsBareText], .inr ⟨cs, rfl⟩⟩

/-- However a dialect escapes, the text stands in single quotes. -/
theorem isLiteralText_stringLiteral (e : Escaping) (cs : List Char) :
    IsLiteralText (e.stringLiteral cs) := by
  cases e
  · exact isLiteralText_singleQuoted cs
  · exact isLiteralText_singleQuoted (doubled '\\' cs)

/-- Escaping leaves a text alone that has nothing to escape. -/
theorem doubled_of_notMem {c : Char} {cs : List Char} (h : c ∉ cs) : doubled c cs = cs := by
  induction cs with
  | nil => rfl
  | cons x cs ih =>
      simp only [List.mem_cons, not_or] at h
      have rest : cs.flatMap (fun y => if y = c then [c, c] else [y]) = cs := ih h.2
      simp [doubled, replaceAll, rest, Ne.symm h.1]

/-- Hexadecimal digits cannot end the quotes they stand in. -/
theorem quote_notMem_hexBytes (bs : List UInt8) : '\'' ∉ hexBytes bs :=
  fun quote => absurd (isAlphanum_of_mem_hexBytes _ quote) (by decide)

/-- The letter in front of the quotes is the bare text, and the rest has nothing to escape. -/
theorem isLiteralText_bytesLiteral (bs : List UInt8) : IsLiteralText (bytesLiteral bs) := by
  refine ⟨['E'], by decide, .inr ⟨'\\' :: 'x' :: hexBytes bs, ?_⟩⟩
  have inside : '\'' ∉ '\\' :: 'x' :: hexBytes bs := by
    simp [quote_notMem_hexBytes]
  rw [singleQuoted, doubled_of_notMem inside]
  simp [bytesLiteral]

/-- Numbers that are words stand in quotes, all others are bare. -/
theorem isLiteralText_floatLiteral (f : BinaryFormat) (x : BinaryNumber) :
    IsLiteralText (floatLiteral x (f.plain x)) := by
  cases x with
  | nan => exact isLiteralText_singleQuoted _
  | infinite s => cases s <;> exact isLiteralText_singleQuoted _
  | finite s m q => exact (f.isNumeralText_plain s m q).isBareText.isLiteralText

/-- **What a literal is made of.** -/
theorem Value.isLiteralText_literalChars (e : Escaping) (v : Value) :
    IsLiteralText (v.literalChars e) := by
  cases v with
  | null => exact (by decide : IsBareText "NULL".toList).isLiteralText
  | bool b =>
      cases b
      · exact (by decide : IsBareText "FALSE".toList).isLiteralText
      · exact (by decide : IsBareText "TRUE".toList).isLiteralText
  | int w n => exact (isNumeralText_intText n.val).isBareText.isLiteralText
  | f32 x => exact isLiteralText_floatLiteral .binary32 x.number
  | f64 x => exact isLiteralText_floatLiteral .binary64 x.number
  | timestamp t => exact isLiteralText_singleQuoted _
  | bytes bs => exact isLiteralText_bytesLiteral bs
  | string _ | uuid _ | json _ | vector _ => exact isLiteralText_stringLiteral e _

end PreparedSql
