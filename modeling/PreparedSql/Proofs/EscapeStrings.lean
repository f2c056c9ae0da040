import PreparedSql.Proofs.Numerals
import PreparedSql.Proofs.Reading

/-!
# What a literal of bytes denotes

PostgreSQL reads `E'...'` as an escape string, which holds bytes.  A backslash in it does not stand
for itself: two of them are one, and with an `x` and one or two digits it is the byte of that code.
Bytes are entered as text: a backslash, an `x`, and two digits for each of them (`hexForm`).

A literal of bytes has one backslash.  So the escape string takes the first byte for itself, and
holds that byte and then the digits of the others as text.

* `escapeBody?_text`: text without quotes and backslashes stands for itself.
* `escapeBody?_hexByte`: a backslash, an `x` and the two digits of a byte are that byte.
* `bytesLiteral_read`: what the literal is read as, which is the form of no bytes at all; with a
  second backslash it would be read as the form of its bytes.
* `not_bytesDenoted`: so the literals do not denote the bytes that they are written for.
-/

namespace PreparedSql

/-- The bytes of a text. -/
def utf8Bytes (cs : List Char) : List UInt8 := cs.flatMap String.utf8EncodeChar

/-- The form in which bytes are entered. -/
def hexForm (bs : List UInt8) : List UInt8 := utf8Bytes ('\\' :: 'x' :: hexBytes bs)

/-! ### Reading -/

/-- The digits of the code behind a backslash and an `x`, two at most. -/
def codeDigits (cs : List Char) : List Char :=
  (cs.take 2).takeWhile fun c => (hexValue? c).isSome

/-- The byte of a code. Where there are no digits, the `x` stands for itself. -/
def codeBytes (digits : List Char) : List UInt8 :=
  if digits.isEmpty then utf8Bytes ['x'] else (readHex? digits).toList.map UInt8.ofNat

/-- What a backslash and the text behind it stand for, and how many characters of that text it
takes. The other uses of the backslash are left out. -/
def escape? : List Char → Option (List UInt8 × Nat)
  | '\\' :: _   => some (utf8Bytes ['\\'], 1)
  | 'x' :: rest => some (codeBytes (codeDigits rest), (codeDigits rest).length + 1)
  | _           => none

/-- What an escape string holds from here on, and what stands behind its closing quote. -/
def escapeBody? (cs : List Char) : Option (List UInt8 × List Char) :=
  match cs with
  | []        => none
  | c :: rest =>
    if c = '\'' then
      if rest.head? = some '\'' then
        (escapeBody? rest.tail).map (Prod.map (String.utf8EncodeChar c ++ ·) id)
      else some ([], rest)
    else if c = '\\' then
      (escape? rest).bind fun e =>
        (escapeBody? (rest.drop e.2)).map (Prod.map (e.1 ++ ·) id)
    else (escapeBody? rest).map (Prod.map (String.utf8EncodeChar c ++ ·) id)
termination_by cs.length
decreasing_by all_goals simp only [List.length_tail, List.length_drop, List.length_cons]; omega

/-- What the escape string at the front of a text holds, and what stands behind it. -/
def escapeString? : List Char → Option (List UInt8 × List Char)
  | 'E' :: '\'' :: rest => escapeBody? rest
  | _                   => none

theorem escapeBody?_end : escapeBody? ['\''] = some ([], []) := by
  rw [escapeBody?, if_pos rfl, if_neg (by decide)]

/-- A character without a meaning of its own is its bytes. -/
theorem escapeBody?_plain {c : Char} (quote : c ≠ '\'') (backslash : c ≠ '\\')
    (rest : List Char) :
    escapeBody? (c :: rest) =
      (escapeBody? rest).map (Prod.map (String.utf8EncodeChar c ++ ·) id) := by
  rw [escapeBody?, if_neg quote, if_neg backslash]

/-- An escape is the bytes it stands for, and takes its own characters only. -/
theorem escapeBody?_escape {bs : List UInt8} {cs rest : List Char}
    (h : escape? (cs ++ rest) = some (bs, cs.length)) :
    escapeBody? ('\\' :: (cs ++ rest)) =
      (escapeBody? rest).map (Prod.map (bs ++ ·) id) := by
  rw [escapeBody?, if_neg (by decide), if_pos rfl, h, Option.bind_some, List.drop_left]

/-- **Text without quotes and backslashes** stands for itself, up to the closing quote. -/
theorem escapeBody?_text {cs : List Char} (plain : ∀ c ∈ cs, c ≠ '\'' ∧ c ≠ '\\') :
    escapeBody? (cs ++ ['\'']) = some (utf8Bytes cs, []) := by
  induction cs with
  | nil => exact escapeBody?_end
  | cons c cs ih =>
      obtain ⟨⟨quote, backslash⟩, tail⟩ := List.forall_mem_cons.1 plain
      rw [List.cons_append, escapeBody?_plain quote backslash, ih tail]
      rfl

/-! ### Digits -/

theorem hexByte_eq (b : UInt8) : hexByte b = [hexDigit (b.toNat / 16), hexDigit b.toNat] := rfl

/-- Behind the `x` two digits are taken at most, so the code is one byte. -/
theorem codeDigits_hexByte (b : UInt8) (rest : List Char) :
    codeDigits (hexByte b ++ rest) = hexByte b := by
  have digit : ∀ n, (hexValue? (hexDigit n)).isSome = true := fun n => by
    rw [hexValue?_hexDigit]
    rfl
  simp [codeDigits, hexByte_eq, digit]

/-- The two digits of a byte are the code of that byte. -/
theorem codeBytes_hexByte (b : UInt8) : codeBytes (hexByte b) = [b] := by
  have read : readHex? (hexByte b) = some b.toNat := by
    rw [hexByte, readHex?_hexDigits, Nat.mod_eq_of_lt b.toNat_lt]
  rw [codeBytes, if_neg (by simp [hexByte_eq]), read]
  simp

/-- **A backslash, an `x` and the digits of a byte** are that byte. -/
theorem escapeBody?_hexByte (b : UInt8) (rest : List Char) :
    escapeBody? ('\\' :: 'x' :: (hexByte b ++ rest)) =
      (escapeBody? rest).map (Prod.map (b :: ·) id) := by
  -- at most two digits are taken, so the digits of the next byte are left
  have code : escape? ('x' :: hexByte b ++ rest) = some ([b], ('x' :: hexByte b).length) := by
    rw [List.cons_append, escape?, codeDigits_hexByte, codeBytes_hexByte, List.length_cons]
  exact escapeBody?_escape code

theorem length_utf8Bytes_hexBytes (bs : List UInt8) :
    (utf8Bytes (hexBytes bs)).length = 2 * bs.length := by
  have digit : ∀ n, (String.utf8EncodeChar (hexDigit n)).length = 1 := fun n =>
    (by decide : ∀ i : Fin 16, (String.utf8EncodeChar (Nat.digitChar i)).length = 1)
      ⟨n % 16, Nat.mod_lt _ (by decide)⟩
  induction bs with
  | nil => rfl
  | cons b bs ih =>
      have split : utf8Bytes (hexBytes (b :: bs)) =
          String.utf8EncodeChar (hexDigit (b.toNat / 16)) ++
            (String.utf8EncodeChar (hexDigit b.toNat) ++ utf8Bytes (hexBytes bs)) := rfl
      rw [split, List.length_append, List.length_append, digit, digit, ih, List.length_cons]
      omega

/-! ### Literals -/

/-- What a literal of bytes is read as: the first byte, and the digits of the others as text. Where
there are no bytes the `x` has no code behind it. -/
def bytesAsRead : List UInt8 → List UInt8
  | []      => utf8Bytes ['x']
  | b :: bs => b :: utf8Bytes (hexBytes bs)

/-- One byte for two digits is missing, so it has an odd length and a form has an even one. -/
theorem bytesAsRead_ne_hexForm (bs cs : List UInt8) : bytesAsRead bs ≠ hexForm cs := by
  have even : (hexForm cs).length = 2 * (cs.length + 1) := by
    have front : hexForm cs = utf8Bytes ['\\', 'x'] ++ utf8Bytes (hexBytes cs) := rfl
    rw [front, List.length_append, length_utf8Bytes_hexBytes, Nat.mul_succ, Nat.add_comm]
    rfl
  have odd : (bytesAsRead bs).length = 2 * (bs.length - 1) + 1 := by
    cases bs with
    | nil => rfl
    | cons b bs => simp [bytesAsRead, length_utf8Bytes_hexBytes]
  intro same
  have := congrArg List.length same
  omega

/-- The backslash in front of the `x` is written once. -/
theorem toList_literal_bytes (bs : List UInt8) :
    (Dialect.postgres.literal (.bytes bs)).toList =
      'E' :: '\'' :: '\\' :: 'x' :: (hexBytes bs ++ ['\'']) := by
  have text : Dialect.postgres.literal (.bytes bs) = String.ofList (bytesLiteral bs) := rfl
  rw [text, String.toList_ofList]
  rfl

/-- So the first byte is read as an escape, and all others as their digits. -/
theorem escapeString?_literal (bs : List UInt8) :
    escapeString? (Dialect.postgres.literal (.bytes bs)).toList = some (bytesAsRead bs, []) := by
  rw [toList_literal_bytes, escapeString?]
  cases bs with
  | nil =>
      have code : escape? (['x'] ++ ['\'']) = some (utf8Bytes ['x'], 1) := rfl
      exact (escapeBody?_escape code).trans (by rw [escapeBody?_end]; rfl)
  | cons b bs =>
      have digits : hexBytes (b :: bs) = hexByte b ++ hexBytes bs := rfl
      rw [digits, List.append_assoc, escapeBody?_hexByte,
        escapeBody?_text (isBareText_hexBytes bs).unquoted]
      rfl

/-- The form of bytes, written with its backslash twice, is read as that form. -/
theorem escapeString?_hexForm (bs : List UInt8) :
    escapeString?
        ('E' :: Escaping.quotesAndBackslashes.stringLiteral ('\\' :: 'x' :: hexBytes bs)) =
      some (hexForm bs, []) := by
  have digits := (isBareText_hexBytes bs).unquoted
  have backslashes : doubled '\\' (hexBytes bs) = hexBytes bs :=
    doubled_of_notMem fun hm => (digits _ hm).2 rfl
  have quotes : doubled '\'' (hexBytes bs) = hexBytes bs :=
    doubled_of_notMem fun hm => (digits _ hm).1 rfl
  have written : Escaping.quotesAndBackslashes.stringLiteral ('\\' :: 'x' :: hexBytes bs) =
      '\'' :: '\\' :: '\\' :: 'x' :: (hexBytes bs ++ ['\'']) := by
    simp [Escaping.stringLiteral, singleQuoted, doubled_cons, backslashes, quotes]
  have pair : escape? (['\\'] ++ ('x' :: (hexBytes bs ++ ['\'']))) =
      some (utf8Bytes ['\\'], 1) := rfl
  rw [written, escapeString?]
  refine (escapeBody?_escape pair).trans ?_
  rw [escapeBody?_plain (by decide) (by decide), escapeBody?_text digits]
  rfl

/-- **What a literal of bytes denotes**: the first byte, and the digits of the others as text. That
is the form of no bytes. With one backslash more it would be the form of its bytes. -/
theorem bytesLiteral_read (bs : List UInt8) :
    escapeString? (Dialect.postgres.literal (.bytes bs)).toList = some (bytesAsRead bs, []) ∧
      (∀ cs, bytesAsRead bs ≠ hexForm cs) ∧
      escapeString?
          ('E' :: Escaping.quotesAndBackslashes.stringLiteral ('\\' :: 'x' :: hexBytes bs)) =
        some (hexForm bs, []) :=
  ⟨escapeString?_literal bs, bytesAsRead_ne_hexForm bs, escapeString?_hexForm bs⟩

/-- **Bytes are denoted by their literals**: each is read as the form of its bytes. It does not
hold (`not_bytesDenoted`). -/
def BytesDenoted : Prop :=
  ∀ bs : List UInt8,
    escapeString? (Dialect.postgres.literal (.bytes bs)).toList = some (hexForm bs, [])

/-- Two bytes are read as three, and their form has six. -/
theorem not_bytesDenoted : ¬ BytesDenoted := by
  intro h
  have read := escapeString?_literal [0xDE, 0xAD]
  rw [h [0xDE, 0xAD]] at read
  exact absurd read (by decide +kernel)

end PreparedSql
