import Mathlib.Data.List.Basic
import PreparedSql.Number.Layout
import PreparedSql.Text.Hex
import PreparedSql.Timestamp

/-!
# Digits are read back

A natural is written as decimal digits without a zero in front, or with zeros up to some width,
and a longest run of digits is read up to the first character that is not one.

* `digitsValue_decimalDigits`, `digitsValue_padded`: the digits of a natural write that natural,
  zeros in front or not.
* `head?_decimalDigits`: there is no zero in front but in the text of zero.
* `AllDigits.takeWhile_append`: what follows the digits begins with something else, so the run is
  just the digits.
* `readHex?_hexDigits`: the same for hexadecimal digits, which have a fixed number.
-/

namespace PreparedSql

/-- ASCII digits only. -/
def AllDigits (cs : List Char) : Prop := ∀ c ∈ cs, c.isDigit = true

/-- No digit stands in front. -/
def NoDigitAhead (cs : List Char) : Prop := ∀ c ∈ cs.head?, c.isDigit = false

/-- At the end of the text no digit comes. -/
theorem noDigitAhead_nil : NoDigitAhead [] := by
  intro c hc
  cases hc

theorem noDigitAhead_cons {c : Char} (h : c.isDigit = false) (rest : List Char) :
    NoDigitAhead (c :: rest) := by
  intro x hx
  obtain rfl := Option.some.inj hx
  exact h

/-- A run of digits begins with one, so here it is empty. -/
theorem NoDigitAhead.takeWhile {rest : List Char} (h : NoDigitAhead rest) :
    rest.takeWhile Char.isDigit = [] := by
  cases rest with
  | nil => rfl
  | cons c rest => simp [h c rfl]

/-- A reader with a limit on the characters it looks at finds no digit either. -/
theorem NoDigitAhead.take {rest : List Char} (h : NoDigitAhead rest) (n : Nat) :
    NoDigitAhead (rest.take n) := by
  cases n with
  | zero => exact noDigitAhead_nil
  | succ n =>
      cases rest with
      | nil => exact noDigitAhead_nil
      | cons c rest => exact noDigitAhead_cons (h c rfl) _

namespace AllDigits

/-- The longest run of digits ends where the digits do. -/
theorem takeWhile_append {ds rest : List Char} (h : AllDigits ds) (stop : NoDigitAhead rest) :
    (ds ++ rest).takeWhile Char.isDigit = ds := by
  rw [List.takeWhile_append_of_pos h, stop.takeWhile, List.append_nil]

theorem all {ds : List Char} (h : AllDigits ds) : ds.all Char.isDigit = true :=
  List.all_eq_true.2 h

end AllDigits

/-! ### The digits of a natural -/

theorem allDigits_zeros (n : Nat) : AllDigits (List.replicate n '0') :=
  List.forall_mem_replicate.2 (.inr (by decide))

theorem allDigits_decimalDigits (n : Nat) : AllDigits (decimalDigits n) :=
  fun _ hc => Nat.isDigit_of_mem_toDigits (by decide) (by decide) hc

theorem decimalDigits_ne_nil (n : Nat) : decimalDigits n ≠ [] := Nat.toDigits_ne_nil

/-- **The digits of a natural write it.** -/
theorem digitsValue_decimalDigits (n : Nat) : digitsValue (decimalDigits n) = n :=
  Nat.ofDigitChars_ten_toDigits

/-- Digits behind move those in front up by so many places. -/
theorem digitsValue_append (cs ds : List Char) :
    digitsValue (cs ++ ds) = digitsValue cs * 10 ^ ds.length + digitsValue ds := by
  rw [Nat.mul_comm]
  exact (Nat.ofDigitChars_append 0).trans Nat.ofDigitChars_eq_ofDigitChars_zero

/-- More digits never write a smaller number. -/
theorem digitsValue_le_append (cs ds : List Char) : digitsValue cs ≤ digitsValue (cs ++ ds) := by
  rw [digitsValue_append]
  exact Nat.le_trans (Nat.le_mul_of_pos_right _ (Nat.pow_pos (by decide))) (Nat.le_add_right _ _)

theorem digitsValue_zeros (n : Nat) : digitsValue (List.replicate n '0') = 0 :=
  Nat.ofDigitChars_replicate_zero

/-- A reader that looks at one character finds a digit. -/
theorem isDigit_head_decimalDigits (n : Nat) :
    ∃ d ds, decimalDigits n = d :: ds ∧ d.isDigit = true := by
  obtain ⟨d, ds, e⟩ := List.exists_cons_of_ne_nil (decimalDigits_ne_nil n)
  exact ⟨d, ds, e, allDigits_decimalDigits n d (by rw [e]; exact List.mem_cons_self)⟩

/-- Only zero begins with a zero. -/
theorem head?_decimalDigits {n : Nat} (h : n ≠ 0) : (decimalDigits n).head? ≠ some '0' := by
  unfold decimalDigits
  induction n using Nat.strongRecOn with
  | ind n ih =>
      rcases Nat.lt_or_ge n 10 with small | large
      · rw [Nat.toDigits_of_lt_base small]
        simpa using h
      · have front := ih (n / 10) (by omega) (by omega)
        rw [Nat.toDigits_of_base_le (by decide) large]
        rwa [List.head?_append_of_ne_nil _ Nat.toDigits_ne_nil]

/-- The digits of a whole number: a zero in front stands alone. -/
structure WholeDigits (ds : List Char) : Prop where
  digits : AllDigits ds
  ne_nil : ds ≠ []
  head   : ds.length = 1 ∨ ds.head? ≠ some '0'

/-- Naturals are written as whole numbers are. -/
theorem wholeDigits_decimalDigits (n : Nat) : WholeDigits (decimalDigits n) where
  digits := allDigits_decimalDigits n
  ne_nil := decimalDigits_ne_nil n
  head   := by
    rcases Nat.eq_zero_or_pos n with rfl | pos
    · exact .inl rfl
    · exact .inr (head?_decimalDigits (Nat.ne_of_gt pos))

/-- One digit may be a zero. -/
theorem wholeDigits_singleton {d : Char} (h : d.isDigit = true) : WholeDigits [d] where
  digits := List.forall_mem_singleton.2 h
  ne_nil := List.cons_ne_nil d []
  head   := .inl rfl

/-- A natural below a power of ten has no more digits than the exponent says. -/
theorem length_decimalDigits_le {n width : Nat} (hw : 0 < width) (h : n < 10 ^ width) :
    (decimalDigits n).length ≤ width :=
  (Nat.length_toDigits_le_iff (by decide) hw).2 h

/-! ### Zeros in front -/

namespace Timestamp

theorem allDigits_padded (width n : Nat) : AllDigits (padded width n) :=
  List.forall_mem_append.2 ⟨allDigits_zeros _, allDigits_decimalDigits n⟩

/-- Zeros in front do not change what the digits write. -/
theorem digitsValue_padded (width n : Nat) : digitsValue (padded width n) = n := by
  rw [padded, digitsValue_append, digitsValue_zeros, Nat.zero_mul, Nat.zero_add]
  exact digitsValue_decimalDigits n

/-- A field of a time has its width, whatever natural below the next power of ten is in it. -/
theorem length_padded {width n : Nat} (hw : 0 < width) (h : n < 10 ^ width) :
    (padded width n).length = width := by
  have := length_decimalDigits_le hw h
  simp only [padded, List.length_append, List.length_replicate]
  exact Nat.sub_add_cancel this

theorem padded_ne_nil (width n : Nat) : padded width n ≠ [] :=
  List.append_ne_nil_of_right_ne_nil _ (decimalDigits_ne_nil n)

end Timestamp

/-! ### Hexadecimal digits -/

/-- The sixteen digits are read back. -/
theorem hexValue?_digitChar {n : Nat} (h : n < 16) : hexValue? (Nat.digitChar n) = some n :=
  (by decide : ∀ i : Fin 16, hexValue? (Nat.digitChar i) = some i.val) ⟨n, h⟩

theorem hexValue?_hexDigit (n : Nat) : hexValue? (hexDigit n) = some (n % 16) :=
  hexValue?_digitChar (Nat.mod_lt n (by decide))

/-- Hexadecimal digits are letters and digits, so none of them has a meaning where they stand. -/
theorem isAlphanum_of_mem_hexDigits {width n : Nat} :
    ∀ c ∈ hexDigits width n, c.isAlphanum = true := by
  induction width generalizing n with
  | zero => exact List.forall_mem_nil _
  | succ width ih =>
      have last : (hexDigit n).isAlphanum = true :=
        (by decide : ∀ i : Fin 16, (Nat.digitChar i).isAlphanum = true)
          ⟨n % 16, Nat.mod_lt _ (by decide)⟩
      exact List.forall_mem_append.2 ⟨ih, List.forall_mem_singleton.2 last⟩

theorem isAlphanum_of_mem_hexBytes {bs : List UInt8} : ∀ c ∈ hexBytes bs, c.isAlphanum = true := by
  intro c hc
  obtain ⟨b, -, digit⟩ := List.mem_flatMap.1 hc
  exact isAlphanum_of_mem_hexDigits c digit

theorem length_hexDigits (width n : Nat) : (hexDigits width n).length = width := by
  induction width generalizing n with
  | zero => rfl
  | succ width ih => rw [hexDigits, List.length_append, ih, List.length_singleton]

/-- So many hexadecimal digits of a natural write it, less what does not fit. -/
theorem readHex?_hexDigits (width n : Nat) :
    readHex? (hexDigits width n) = some (n % 16 ^ width) := by
  induction width generalizing n with
  | zero => exact congrArg some (Nat.mod_one n).symm
  | succ width ih =>
      have front : (hexDigits width (n / 16)).foldlM
          (fun n c => (hexValue? c).map (16 * n + ·)) 0 = some (n / 16 % 16 ^ width) := ih (n / 16)
      rw [readHex?, hexDigits, List.foldlM_append, front]
      simp only [Option.bind_eq_bind, Option.bind_some, List.foldlM_cons, List.foldlM_nil,
        hexValue?_hexDigit, Option.map_some]
      rw [Nat.pow_succ', Nat.mod_mul, Nat.add_comm]
      rfl

end PreparedSql
