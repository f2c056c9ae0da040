import PreparedSql.CommandLine.Arguments
import PreparedSql.Proofs.LiteralText
import PreparedSql.Proofs.RowSplitting
import PreparedSql.Proofs.TimestampText

/-!
# Simple cells are read back from a row

A simple cell is null, a truth value, an integer of 64 bits, a string, a position, or a name that
holds no comma and no quote and does not end with a blank.  Each has a text that stands whole in a
row, that begins and ends with no blank, and that begins like no other kind of cell.

* `SimpleCell.ofText_chars`: a simple cell is read back from its own text.
* `row_read_back`: a row of simple cells is read back from the text of the row, in any statement.
-/

namespace PreparedSql

/-! ### Blanks -/

/-- Nothing is left out of a text that begins and ends with no blank. -/
theorem trim_eq_self {cs : List Char} (front : ∀ c ∈ cs.head?, isBlank c = false)
    (back : ∀ c ∈ cs.getLast?, isBlank c = false) : trim cs = cs := by
  have start : trimStart cs = cs := by
    cases cs with
    | nil => rfl
    | cons c cs => exact trimStart_cons (front c rfl) cs
  rw [trim, start, trimEnd]
  rcases List.eq_nil_or_concat cs with rfl | ⟨init, last, rfl⟩
  · rfl
  · have kept : isBlank last = false := back last (by simp)
    rw [List.concat_eq_append, List.reverse_append, List.reverse_singleton, List.singleton_append,
      List.dropWhile_cons_of_neg (by simp [kept])]
    simp

theorem trim_of_forall {cs : List Char} (h : ∀ c ∈ cs, isBlank c = false) : trim cs = cs :=
  trim_eq_self (fun c hc => h c (List.mem_of_mem_head? hc))
    fun c hc => h c (List.mem_of_mem_getLast? hc)

/-- Blanks inside of quotes are kept. -/
theorem trim_singleQuoted (cs : List Char) : trim (singleQuoted cs) = singleQuoted cs := by
  refine trim_eq_self ?_ ?_
  · rintro c ⟨⟩
    decide
  · intro c hc
    rw [singleQuoted, ← List.cons_append, List.getLast?_concat] at hc
    obtain rfl := Option.some.inj hc
    decide

/-! ### Numerals -/

/-- A numeral has no character that a row or an array gives a meaning to. -/
theorem IsNumeralText.notMem {cs : List Char} (h : IsNumeralText cs) {special : Char}
    (other : ¬ (special.isDigit = true ∨ special = '-' ∨ special = '.')) : special ∉ cs :=
  fun hm => other (h special hm)

theorem IsNumeralText.isBlank {cs : List Char} (h : IsNumeralText cs) :
    ∀ c ∈ cs, isBlank c = false := by
  intro c hc
  rcases h c hc with digit | rfl | rfl
  · exact isBlank_eq_false_of_isDigit digit
  · decide
  · decide

/-! ### One cell -/

/-- A colon in front makes a name of whatever follows. -/
theorem Cell.ofText_colon (name : List Char) :
    Cell.ofText (String.ofList (':' :: name)) = .slot (.named (String.ofList name)) := by
  rw [Cell.ofText, String.toList_ofList]
  rfl

/-- A dollar sign in front of a number makes a position. -/
theorem Cell.ofText_position {ds : List Char} {n : UInt64} (h : readUInt64? ds = some n) :
    Cell.ofText (String.ofList ('$' :: ds)) = .slot (.positional n) := by
  have place : position? ('$' :: ds) = some n := h
  rw [Cell.ofText, String.toList_ofList]
  split
  · next e => exact absurd (List.cons.inj e).1 (by decide)
  · rw [place]

/-- A text that does not begin like a slot or an array is a literal. -/
theorem Cell.ofText_cons {c : Char} (plain : ¬ (c = ':' ∨ c = '$' ∨ c = '[')) (cs : List Char) :
    Cell.ofText (String.ofList (c :: cs)) = .literal (.ofText (String.ofList (c :: cs))) := by
  simp only [not_or] at plain
  have place : position? (c :: cs) = none := by
    unfold position?
    split
    · next e => exact absurd (List.cons.inj e).1 plain.2.1
    · rfl
  have array : betweenBrackets? (c :: cs) = none := by
    unfold betweenBrackets?
    split
    · next e => exact absurd (List.cons.inj e).1 plain.2.2
    · rfl
  rw [Cell.ofText, String.toList_ofList]
  split
  · next e => exact absurd (List.cons.inj e).1 plain.1
  · rw [place, array]

/-- The text of an integer begins with a minus sign or a digit. -/
theorem begins_intText (n : Int) : ∃ c cs, intText n = c :: cs ∧ (c.isDigit = true ∨ c = '-') := by
  rw [intText]
  cases decide (n < 0) with
  | true => exact ⟨'-', _, rfl, .inr rfl⟩
  | false =>
      obtain ⟨d, ds, e, digit⟩ := isDigit_head_decimalDigits n.natAbs
      exact ⟨d, ds, e, .inl digit⟩

theorem readNat?_of_isNumeral {ds : List Char} (h : isNumeral ds = true) :
    readNat? ds = some (digitsValue ds) := by
  obtain ⟨digits, -⟩ := isNumeral_iff.1 h
  unfold readNat?
  split
  · exact absurd (digits '+' List.mem_cons_self) (by decide)
  · exact if_pos h

/-- The digits of a position are read back. -/
theorem readUInt64?_decimalDigits (n : UInt64) : readUInt64? (decimalDigits n.toNat) = some n := by
  rw [readUInt64?, readNat?_of_isNumeral (isNumeral_decimalDigits _), digitsValue_decimalDigits]
  have fits : n.toNat < 2 ^ 64 := n.toNat_lt
  simp [fits]

/-! ### Simple cells -/

/-- A name that is written in a row as it is: it holds neither commas nor quotes, and no blank at
its end, which would be left out. -/
structure PlainName where
  text           : String
  comma_notMem   : ',' ∉ text.toList
  quote_notMem   : '\'' ∉ text.toList
  last_not_blank : ∀ c ∈ text.toList.getLast?, isBlank c = false

inductive SimpleCell where
  | null
  | bool (b : Bool)
  | int (n : FixedInt .i64)
  | string (s : String)
  | position (n : UInt64)
  | name (n : PlainName)

namespace SimpleCell

def cell : SimpleCell → Cell
  | .null => .literal .null
  | .bool b => .literal (.bool b)
  | .int n => .literal (.int .i64 n)
  | .string s => .literal (.string s)
  | .position n => .slot (.positional n)
  | .name n => .slot (.named n.text)

/-- The cell as it is written in a row. -/
def chars : SimpleCell → List Char
  | .null => ['n', 'u', 'l', 'l']
  | .bool true => ['t', 'r', 'u', 'e']
  | .bool false => ['f', 'a', 'l', 's', 'e']
  | .int n => intText n.val
  | .string s => singleQuoted s.toList
  | .position n => '$' :: decimalDigits n.toNat
  | .name n => ':' :: n.text.toList

/-- The row of the cells as they are written. -/
def rowText (cells : List SimpleCell) : String :=
  rowOf (cells.map fun c => String.ofList c.chars)

/-- No simple cell has a comma that would cut it in two. -/
theorem standsWhole (c : SimpleCell) : StandsWhole c.chars := by
  cases c with
  | null => exact .of_notMem (by decide) (by decide)
  | bool b => cases b <;> exact .of_notMem (by decide) (by decide)
  | int n =>
      have numeral := isNumeralText_intText n.val
      exact .of_notMem (numeral.notMem (by decide)) (numeral.notMem (by decide))
  | string s => exact .singleQuoted s.toList
  | position n =>
      have numeral := isNumeralText_decimalDigits n.toNat
      have comma : ',' ∉ decimalDigits n.toNat := numeral.notMem (by decide)
      have quote : '\'' ∉ decimalDigits n.toNat := numeral.notMem (by decide)
      exact .of_notMem (by simpa [chars] using comma) (by simpa [chars] using quote)
  | name n =>
      have comma := n.comma_notMem
      have quote := n.quote_notMem
      exact .of_notMem (by simpa [chars] using comma) (by simpa [chars] using quote)

/-- A simple cell has no blanks at its ends to lose. -/
theorem trim_chars (c : SimpleCell) : trim c.chars = c.chars := by
  cases c with
  | null => rfl
  | bool b => cases b <;> rfl
  | int n => exact trim_of_forall (isNumeralText_intText n.val).isBlank
  | string s => exact trim_singleQuoted s.toList
  | position n =>
      exact trim_of_forall
        (List.forall_mem_cons.2 ⟨by decide, (isNumeralText_decimalDigits n.toNat).isBlank⟩)
  | name n =>
      refine trim_eq_self ?_ ?_
      · rintro c ⟨⟩
        decide
      · intro c hc
        rw [chars, List.getLast?_cons] at hc
        cases last : n.text.toList.getLast? with
        | none =>
            rw [last] at hc
            obtain rfl := Option.some.inj hc
            decide
        | some d =>
            rw [last] at hc
            obtain rfl := Option.some.inj hc
            exact n.last_not_blank d last

/-- **A simple cell is read back** from its text. -/
theorem ofText_chars (c : SimpleCell) : Cell.ofText (String.ofList c.chars) = c.cell := by
  cases c with
  | null => rfl
  | bool b => cases b <;> rfl
  | int n =>
      obtain ⟨c, cs, e, begins⟩ := begins_intText n.val
      have plain : ¬ (c = ':' ∨ c = '$' ∨ c = '[') := by
        rintro (rfl | rfl | rfl) <;> exact absurd begins (by decide)
      have read := Value.ofText_intText n
      rw [chars, cell, ← read, e, Cell.ofText_cons plain]
  | string s =>
      have read := Value.ofText_singleQuoted s
      rw [chars, cell, ← read, singleQuoted, Cell.ofText_cons (by decide)]
  | position n => exact Cell.ofText_position (readUInt64?_decimalDigits n)
  | name n => rw [chars, cell, Cell.ofText_colon, String.ofList_toList]

/-- A row of simple cells is cut into these, and each is read back. -/
theorem cellsOfText_rowText {cells : List SimpleCell} (ne : cells ≠ []) :
    cellsOfText (rowText cells) = cells.map cell := by
  have whole : ∀ c ∈ cells.map fun c => String.ofList c.chars, StandsWhole c.toList := by
    refine List.forall_mem_map.2 fun c _ => ?_
    rw [String.toList_ofList]
    exact c.standsWhole
  rw [cellsOfText, rowText, splitRow_of_standsWhole (by simpa using ne) whole]
  simp [trim_chars, ofText_chars]

end SimpleCell

/-- **A row of simple cells is read back**: wherever its text is given for a row, that row of the
statement has exactly these cells. -/
theorem row_read_back (texts : StatementTexts) {i : Nat} {cells : List SimpleCell}
    (ne : cells ≠ []) (row : texts.rows[i]? = some (SimpleCell.rowText cells)) :
    texts.statement.rows[i]? = some (cells.map SimpleCell.cell) := by
  rw [StatementTexts.statement, List.getElem?_map, row, Option.map_some,
    SimpleCell.cellsOfText_rowText ne]

/-- A name with most of what rows are cut and read by. -/
def awkwardName : PlainName where
  text           := " a b=[;]"
  comma_notMem   := by decide
  quote_notMem   := by decide
  last_not_blank := by
    have last : " a b=[;]".toList.getLast? = some ']' := by decide
    rintro c hc
    obtain rfl := Option.some.inj (last.symm.trans hc)
    decide

/-- What rows are cut and read by, in quotes and in a name. -/
def awkwardRow : List SimpleCell :=
  [.string " 'a',[b;c] ", .string "null", .string "", .string "$1", .null, .bool false,
    .int ⟨-9223372036854775808, by decide, by decide⟩, .position 0, .name awkwardName]

/-- A statement whose second row is that one. -/
def awkwardTexts : StatementTexts where
  table   := "t"
  columns := []
  rows    := ["1",
    "' ''a'',[b;c] ','null','','$1',null,false,-9223372036854775808,$0,: a b=[;]"]

theorem awkwardRow_read_back :
    awkwardRow ≠ [] ∧ awkwardTexts.rows[1]? = some (SimpleCell.rowText awkwardRow) ∧
      awkwardTexts.statement.rows[1]? = some (awkwardRow.map SimpleCell.cell) := by
  have ne : awkwardRow ≠ [] := List.cons_ne_nil _ _
  have row : awkwardTexts.rows[1]? = some (SimpleCell.rowText awkwardRow) := by decide +kernel
  exact ⟨ne, row, row_read_back awkwardTexts ne row⟩

end PreparedSql
