import PreparedSql.Proofs.Reading
import PreparedSql.Wire

/-!
# A literal is read as the text that is bound

A server reads a string literal from its opening quote on.  Two quotes stand for one and a quote by
itself is the end; MySQL and TiDB take a backslash together with the character behind it, which
stands for itself (`Dialect.string?`).

The two passes of writing, one for backslashes and one for quotes, come to writing each character
that has a meaning inside of a literal twice, and each other character once
(`Dialect.stringLiteral_eq`).  So the text is read back character by character.

* `Dialect.string?_stringLiteral`: what is read at the front of a literal is its text, to its end.
* `literal_read_as_bound`: a value that is written as a string is read, to the end of its
  literal, as the text that is bound for it.
-/

namespace PreparedSql

/-- The kinds that are written as strings. -/
def ValueKind.isString : ValueKind → Bool
  | .string | .timestamp | .uuid | .json | .vector => true
  | _                                              => false

namespace Dialect

variable (d : Dialect)

/-! ### Reading -/

/-- What a literal holds from here on, and what stands behind its closing quote. The first of two
quotes, and an escape, have the next character stand for itself. -/
def stringBody? : List Char → Option (List Char × List Char)
  | []  => none
  | [c] => if c = '\'' then some ([], []) else none
  | c :: x :: rest =>
    if c = '\'' ∧ x = '\'' ∨ c = '\\' ∧ d.escapesIn '\'' then
      (stringBody? rest).map (Prod.map (x :: ·) id)
    else if c = '\'' then some ([], x :: rest)
    else (stringBody? (x :: rest)).map (Prod.map (c :: ·) id)

/-- What the string literal at the front of a text holds, and what stands behind it. -/
def string? : List Char → Option (List Char × List Char)
  | '\'' :: rest => d.stringBody? rest
  | _            => none

theorem stringBody?_pair (rest : List Char) :
    d.stringBody? ('\'' :: '\'' :: rest) = (d.stringBody? rest).map (Prod.map ('\'' :: ·) id) := by
  rw [stringBody?, if_pos (.inl ⟨rfl, rfl⟩)]

theorem stringBody?_escape (escapes : d.escapesIn '\'' = true) (c : Char) (rest : List Char) :
    d.stringBody? ('\\' :: c :: rest) = (d.stringBody? rest).map (Prod.map (c :: ·) id) := by
  rw [stringBody?, if_pos (.inr ⟨rfl, escapes⟩)]

theorem stringBody?_end {rest : List Char} (apart : rest.head? ≠ some '\'') :
    d.stringBody? ('\'' :: rest) = some ([], rest) := by
  cases rest with
  | nil => rfl
  | cons x rest =>
      have single : x ≠ '\'' := fun e => apart (congrArg some e)
      rw [stringBody?, if_neg (by simp [single]), if_pos rfl]

theorem stringBody?_other {c : Char} (quote : c ≠ '\'') (escape : ¬ (c = '\\' ∧ d.escapesIn '\''))
    (rest : List Char) :
    d.stringBody? (c :: rest) = (d.stringBody? rest).map (Prod.map (c :: ·) id) := by
  cases rest with
  | nil => simp [stringBody?, quote]
  | cons x rest => rw [stringBody?, if_neg (by simp [quote, escape]), if_neg quote]

/-! ### Writing -/

/-- The characters that do not stand for themselves inside of a literal. -/
def Marked (c : Char) : Prop := c = '\'' ∨ c = '\\' ∧ d.escapesIn '\''

instance : DecidablePred d.Marked := fun c =>
  inferInstanceAs (Decidable (c = '\'' ∨ c = '\\' ∧ d.escapesIn '\''))

/-- A character as it is written inside of a literal. -/
def written (c : Char) : List Char := if d.Marked c then [c, c] else [c]

theorem doubled_eq_written (plain : d.escapesIn '\'' = false) (cs : List Char) :
    doubled '\'' cs = cs.flatMap d.written := by
  refine congrArg cs.flatMap (funext fun c => ?_)
  by_cases quote : c = '\''
  · simp [written, Marked, quote]
  · simp [written, Marked, quote, plain]

/-- The pass for quotes leaves backslashes as they are, so the order of the two is no matter. -/
theorem doubled_doubled_eq_written (escapes : d.escapesIn '\'' = true) (cs : List Char) :
    doubled '\'' (doubled '\\' cs) = cs.flatMap d.written := by
  rw [doubled, doubled, replaceAll, replaceAll, List.flatMap_assoc]
  refine congrArg cs.flatMap (funext fun c => ?_)
  by_cases quote : c = '\''
  · simp [written, Marked, quote]
  · by_cases backslash : c = '\\'
    · simp [written, Marked, backslash, escapes]
    · simp [written, Marked, quote, backslash]

/-- **Both passes of writing** come to one: a marked character is written twice. -/
theorem stringLiteral_eq (cs : List Char) :
    d.escaping.stringLiteral cs = '\'' :: (cs.flatMap d.written ++ ['\'']) := by
  cases d with
  | postgres => rw [← doubled_eq_written _ rfl]; rfl
  | mysql | tidb => rw [← doubled_doubled_eq_written _ rfl]; rfl

/-- A character is read back, whatever comes behind it. -/
theorem stringBody?_written (c : Char) (rest : List Char) :
    d.stringBody? (d.written c ++ rest) = (d.stringBody? rest).map (Prod.map (c :: ·) id) := by
  unfold written
  split
  · next marked =>
      rcases marked with rfl | ⟨rfl, escapes⟩
      · exact d.stringBody?_pair rest
      · exact d.stringBody?_escape escapes '\\' rest
  · next plain =>
      obtain ⟨quote, escape⟩ := not_or.1 plain
      exact d.stringBody?_other quote escape rest

theorem stringBody?_flatMap_written (cs : List Char) {rest : List Char}
    (apart : rest.head? ≠ some '\'') :
    d.stringBody? (cs.flatMap d.written ++ '\'' :: rest) = some (cs, rest) := by
  induction cs with
  | nil => exact d.stringBody?_end apart
  | cons c cs ih =>
      rw [List.flatMap_cons, List.append_assoc, stringBody?_written, ih]
      rfl

/-- **A literal is read back** to its end and no further, where no quote follows it. -/
theorem string?_stringLiteral (cs : List Char) {rest : List Char}
    (apart : rest.head? ≠ some '\'') :
    d.string? (d.escaping.stringLiteral cs ++ rest) = some (cs, rest) := by
  rw [stringLiteral_eq, List.cons_append, List.append_assoc]
  exact d.stringBody?_flatMap_written cs apart

/-! ### Values -/

/-- A text without marked characters is written alike for every escaping. -/
theorem singleQuoted_eq_stringLiteral {cs : List Char} (h : ∀ c ∈ cs, c ≠ '\'' ∧ c ≠ '\\') :
    singleQuoted cs = d.escaping.stringLiteral cs := by
  have same : doubled '\\' cs = cs := doubled_of_notMem fun hm => (h _ hm).2 rfl
  cases d with
  | postgres => rfl
  | mysql | tidb => exact congrArg singleQuoted same.symm

/-- The values that are written as strings are written as their canonical texts. -/
theorem literal_eq_stringLiteral {v : Value} (h : v.kind.isString = true) :
    (d.literal v).toList = d.escaping.stringLiteral v.text.toList := by
  rw [literal, Value.literal, String.toList_ofList, Value.literalChars_eq]
  cases v with
  | string s | uuid u | json j | vector xs => rfl
  | timestamp t =>
      refine d.singleQuoted_eq_stringLiteral ?_
      rw [Value.text, Timestamp.text, String.toList_ofList]
      exact t.ne_of_mem_chars
  | null | bool | int | f32 | f64 | bytes => cases h

end Dialect

/-- A value that is written as a string is bound as its canonical text: a string as itself, any
other as what it travels as. -/
theorem Value.bind_of_isString {v : Value} (h : v.kind.isString = true) :
    v.bind = .text v.text ∧ (v = .string v.text ∨ v.wireText? = some v.text) := by
  cases v with
  | string s => exact ⟨rfl, .inl rfl⟩
  | timestamp t | uuid u | json j | vector xs => exact ⟨rfl, .inr rfl⟩
  | null | bool | int | f32 | f64 | bytes => cases h

/-- **A value is read from its literal as the text that is bound for it**, to the end of the literal
and no further, whatever the value holds and whatever comes behind it but a quote. -/
theorem literal_read_as_bound (d : Dialect) {v : Value} {rest : List Char}
    (string : v.kind.isString = true) (apart : rest.head? ≠ some '\'') :
    ∃ text, v.bind = .text text ∧ (v = .string text ∨ v.wireText? = some text) ∧
      d.string? ((d.literal v).toList ++ rest) = some (text.toList, rest) := by
  obtain ⟨bound, which⟩ := Value.bind_of_isString string
  refine ⟨v.text, bound, which, ?_⟩
  rw [d.literal_eq_stringLiteral string]
  exact d.string?_stringLiteral _ apart

/-- A quote behind a backslash, two quotes, and a backslash at the end. -/
def awkward : Value := .string "\\' OR ''=''\\"

theorem awkward_read_as_bound :
    awkward.kind.isString = true ∧ [',', ' ', '1', ')'].head? ≠ some '\'' ∧
      Dialect.mysql.literal awkward = "'\\\\'' OR ''''=''''\\\\'" ∧
      ∃ text, awkward.bind = .text text ∧
        (awkward = .string text ∨ awkward.wireText? = some text) ∧
        Dialect.mysql.string? ((Dialect.mysql.literal awkward).toList ++ [',', ' ', '1', ')']) =
          some (text.toList, [',', ' ', '1', ')']) :=
  ⟨rfl, by decide, by decide +kernel, literal_read_as_bound .mysql rfl (by decide)⟩

end PreparedSql
