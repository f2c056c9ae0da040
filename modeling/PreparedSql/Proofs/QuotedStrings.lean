import Mathlib.Data.List.Basic
import PreparedSql.Proofs.Numerals
import PreparedSql.Toml.Quoted

/-!
# TOML strings are read back

What stands between the delimiters of a string is said by a judgement, `Written`, for all four forms
at once: characters and escapes one after the other, and quotes as they are as long as there are too
few of them in a row to end the string.  The number of quotes just passed is carried along.

* `written_body`: what is written for a string is in its form.
* `lineText?_written`, `linesText?_written`: what is in a form is read back, up to the delimiter.
* `string?_quoted`: a string is read back whatever its characters are, if no quote follows.
-/

namespace PreparedSql.Toml

/-! ### The judgement -/

/-- The text of one character; a quote of the form has one only as an escape. -/
inductive CharText (f : StringForm) : (text : List Char) → Char → Prop where
  | plain {c : Char} (printed : isPlain c = true) (other : c ≠ f.quote)
      (free : f.hasEscapes = true → c ≠ '\\') : CharText f [c] c
  | newline (several : f.isMultiline = true) : CharText f ['\n'] '\n'
  | escape {e : List Char} {c : Char} (escapes : f.hasEscapes = true)
      (read : ∀ rest, escape? (e ++ rest) = some (c, rest)) : CharText f ('\\' :: e) c

/-- The text of some characters after `run` quotes in a row. -/
inductive Written (f : StringForm) : (run : Nat) → (text cs : List Char) → Prop where
  | nil {run : Nat} : Written f run [] []
  | quote {run : Nat} {text cs : List Char} (few : run < f.quotesInside)
      (rest : Written f (run + 1) text cs) : Written f run (f.quote :: text) (f.quote :: cs)
  | char {run : Nat} {t text cs : List Char} {c : Char} (first : CharText f t c)
      (rest : Written f 0 text cs) : Written f run (t ++ text) (c :: cs)

theorem quote_eq (f : StringForm) : f.quote = '"' ∨ f.quote = '\'' := by
  cases f <;> decide

theorem quote_of_hasEscapes {f : StringForm} (h : f.hasEscapes = true) : f.quote = '"' := by
  cases f <;> first | rfl | cases h

/-- The text of a character begins with no quote of the form. -/
theorem CharText.exists_cons {f : StringForm} {t : List Char} {c : Char} (h : CharText f t c) :
    ∃ x rest, t = x :: rest ∧ x ≠ f.quote := by
  have plain {x : Char} (double : x ≠ '"') (single : x ≠ '\'') : x ≠ f.quote := by
    rcases quote_eq f with e | e <;> rw [e] <;> assumption
  cases h with
  | plain _ other _ => exact ⟨_, _, rfl, other⟩
  | newline _ => exact ⟨_, _, rfl, plain (by decide) (by decide)⟩
  | escape _ _ => exact ⟨_, _, rfl, plain (by decide) (by decide)⟩

/-! ### Writing -/

theorem isPlain_of_not_isControl {c : Char} (h : isControl c = false) (line : c ≠ '\n') :
    isPlain c = true := by
  simp only [isControl, isPlain, Bool.or_eq_false_iff, Bool.and_eq_false_iff,
    decide_eq_false_iff_not, Bool.or_eq_true, Bool.and_eq_true, decide_eq_true_eq] at h ⊢
  grind

/-- The four digits of a control character. -/
theorem readHex?_control {n : Nat} (h : n < 128) :
    readHex? (['0', '0'] ++ (hexDigits 2 n).map Char.toUpper) = some n :=
  (by decide +kernel : ∀ i : Fin 128,
    readHex? (['0', '0'] ++ (hexDigits 2 i.val).map Char.toUpper) = some i.val) ⟨n, h⟩

theorem escape?_control {c : Char} (h : isControl c = true) (rest : List Char) :
    escape? ('u' :: '0' :: '0' :: (hexDigits 2 c.toNat).map Char.toUpper ++ rest) =
      some (c, rest) := by
  have small : c.toNat < 128 := by
    simp only [isControl, Bool.or_eq_true, Bool.and_eq_true, decide_eq_true_eq] at h
    omega
  have digits := readHex?_control small
  have four : (['0', '0'] ++ (hexDigits 2 c.toNat).map Char.toUpper).length = 4 := by
    rw [List.length_append, List.length_map, length_hexDigits]
    rfl
  show codePoint? 4 ((['0', '0'] ++ (hexDigits 2 c.toNat).map Char.toUpper) ++ rest) = _
  rw [codePoint?, List.take_left' four, List.drop_left' four]
  have valid : c.toNat.isValidChar := c.valid
  rw [if_pos four, digits, Option.bind_some, if_pos valid, Char.ofNat_toNat]

theorem charText_escapeChar {f : StringForm} (escapes : f.hasEscapes = true) {c : Char}
    (h : c ≠ '"') : CharText f (escapeChar f c) c := by
  rw [escapeChar]
  split_ifs with backslash tab line several backspace feed ret control
  · subst backslash
    exact .escape escapes fun rest => rfl
  · subst tab
    exact .escape escapes fun rest => rfl
  · subst line
    exact .newline several
  · subst line
    exact .escape escapes fun rest => rfl
  · subst backspace
    exact .escape escapes fun rest => rfl
  · subst feed
    exact .escape escapes fun rest => rfl
  · subst ret
    exact .escape escapes fun rest => rfl
  · exact .escape escapes (escape?_control control)
  · refine .plain ?_ ?_ fun _ => backslash
    · exact isPlain_of_not_isControl (Bool.eq_false_iff.2 control) line
    · rwa [quote_of_hasEscapes escapes]

theorem written_escaped {f : StringForm} (escapes : f.hasEscapes = true) (run : Nat)
    (cs : List Char) : Written f run (escaped f run cs) cs := by
  induction cs generalizing run with
  | nil => exact .nil
  | cons c cs ih =>
      rw [escaped]
      split_ifs with quote few
      · rw [quote, ← quote_of_hasEscapes escapes]
        exact .quote few (ih _)
      · subst quote
        exact .char (t := ['\\', '"']) (.escape (e := ['"']) escapes fun rest => rfl) (ih 0)
      · exact .char (charText_escapeChar escapes quote) (ih 0)

theorem le_longestRun (q : Char) (run : Nat) (cs : List Char) : run ≤ longestRun q run cs := by
  induction cs generalizing run with
  | nil => exact Nat.le_refl run
  | cons c cs ih =>
      rw [longestRun]
      split
      · exact Nat.le_trans (Nat.le_succ run) (ih _)
      · exact Nat.le_max_left ..

/-- Characters without an escape stand for themselves in a form that has no escapes. -/
theorem written_self {f : StringForm} (escapes : f.hasEscapes = false) {run : Nat} {cs : List Char}
    (controls : ∀ c ∈ cs, isControl c = false) (lines : f.isMultiline = true ∨ '\n' ∉ cs)
    (runs : longestRun f.quote run cs ≤ f.quotesInside) : Written f run cs cs := by
  induction cs generalizing run with
  | nil => exact .nil
  | cons c cs ih =>
      obtain ⟨first, others⟩ := List.forall_mem_cons.1 controls
      have later : f.isMultiline = true ∨ '\n' ∉ cs :=
        lines.imp_right fun h hc => h (List.mem_cons_of_mem c hc)
      rw [longestRun] at runs
      split at runs
      · next quote =>
          subst quote
          exact .quote (Nat.lt_of_lt_of_le (le_longestRun ..) runs) (ih others later runs)
      · next other =>
          have rest := ih others later (Nat.le_trans (Nat.le_max_right ..) runs)
          refine .char (t := [c]) ?_ rest
          by_cases line : c = '\n'
          · subst line
            exact .newline (lines.resolve_right (by simp))
          · exact .plain (isPlain_of_not_isControl first line) other (by simp [escapes])

theorem fits_or_hasEscapes (cs : List Char) :
    (StringForm.ofText cs).fits cs = true ∨ (StringForm.ofText cs).hasEscapes = true := by
  rw [StringForm.ofText]
  cases found : [StringForm.basic, .literal, .multilineBasic, .multilineLiteral].find?
      (·.fits cs) with
  | some f => exact .inl (List.find?_some (p := fun f : StringForm => f.fits cs) found)
  | none =>
      right
      rw [Option.getD_none]
      split <;> rfl

/-- What is written for a string is in its form. -/
theorem written_body (cs : List Char) :
    Written (.ofText cs) 0
      (if (StringForm.ofText cs).hasEscapes then escaped (.ofText cs) 0 cs else cs) cs := by
  split
  · next escapes => exact written_escaped escapes 0 cs
  · next none =>
      have fits := (fits_or_hasEscapes cs).resolve_right none
      simp only [StringForm.fits, Bool.and_eq_true, Bool.or_eq_true, decide_eq_true_eq,
        Bool.not_eq_true', List.any_eq_false, List.contains_eq_mem, decide_eq_false_iff_not,
        Bool.not_eq_true] at fits
      exact written_self (Bool.eq_false_iff.2 none) fits.1.1.1 fits.1.1.2 fits.2

/-! ### Reading -/

theorem newline?_of_escape? {cs : List Char} {p : Char × List Char} (h : escape? cs = some p) :
    newline? (skipSpaces cs) = none := by
  unfold escape? at h
  split at h <;> first | rfl | cases h

theorem newline?_of_isPlain {c : Char} (h : isPlain c = true) (rest : List Char) :
    newline? (c :: rest) = none := by
  unfold newline?
  split
  · next e => rw [(List.cons.inj e).1] at h; cases h
  · next e => rw [(List.cons.inj e).1] at h; cases h
  · rfl

/-- **A string on one line is read back.** -/
theorem lineText?_written {f : StringForm} (single : f.isMultiline = false) {run : Nat}
    {text cs : List Char} (h : Written f run text cs) (rest : List Char) {fuel : Nat}
    (enough : text.length < fuel) :
    lineText? f fuel (text ++ f.quote :: rest) = some (cs, rest) := by
  induction h generalizing fuel with
  | nil =>
      obtain ⟨fuel, rfl⟩ := Nat.exists_eq_add_one.2 enough
      simp [lineText?]
  | quote few _ _ => simp [StringForm.quotesInside, single] at few
  | @char run t text cs c first _ ih =>
      obtain ⟨fuel, rfl⟩ := Nat.exists_eq_add_one.2 (Nat.zero_lt_of_lt enough)
      rw [List.length_append] at enough
      cases first with
      | plain printed other free =>
          have next := @ih fuel (by simp at enough; omega)
          have raw : ¬ (c = '\\' ∧ f.hasEscapes = true) := fun h => free h.2 h.1
          simp [lineText?, other, raw, printed, next]
      | newline several => rw [single] at several; cases several
      | @escape e _ escapes read =>
          have next := @ih fuel (by simp at enough; omega)
          have mark : '\\' ≠ f.quote := by rw [quote_of_hasEscapes escapes]; decide
          simp [lineText?, mark, escapes, read, next]

section

variable {f : StringForm} {fuel : Nat}

/-- A character is read on its own. -/
theorem linesText?_char {t : List Char} {c : Char} (h : CharText f t c) (tail : List Char) :
    linesText? f (fuel + 1) (t ++ tail) =
      (linesText? f fuel tail).map fun p => (c :: p.1, p.2) := by
  cases h with
  | plain printed other free =>
      have raw : ¬ (c = '\\' ∧ f.hasEscapes = true) := fun h => free h.2 h.1
      have line : newline? (c :: tail) = none := newline?_of_isPlain printed tail
      simp only [List.singleton_append, linesText?, if_neg other, if_neg raw, line, if_pos printed]
      cases linesText? f fuel tail <;> rfl
  | newline several =>
      have other : '\n' ≠ f.quote := by rcases quote_eq f with e | e <;> rw [e] <;> decide
      have raw : ¬ ('\n' = '\\' ∧ f.hasEscapes = true) := fun h => absurd h.1 (by decide)
      have line : newline? ('\n' :: tail) = some tail := rfl
      simp only [List.singleton_append, linesText?, if_neg other, if_neg raw, line]
      cases linesText? f fuel tail <;> rfl
  | @escape e _ escapes read =>
      have mark : '\\' ≠ f.quote := by rw [quote_of_hasEscapes escapes]; decide
      simp only [List.cons_append, linesText?, if_neg mark, escapes, and_self, if_true,
        newline?_of_escape? (read tail), read tail, Option.bind_eq_bind, Option.bind_some]
      cases linesText? f fuel tail <;> rfl

/-- The longest run of quotes ends where something else follows. -/
theorem takeWhile_quotes {q : Char} {tail : List Char} (stop : ∀ c ∈ tail.head?, c ≠ q) (n : Nat) :
    (List.replicate n q ++ tail).takeWhile (· = q) = List.replicate n q := by
  have ends : tail.takeWhile (· = q) = [] := by
    cases tail with
    | nil => rfl
    | cons c tail => simp [stop c rfl]
  rw [List.takeWhile_append_of_pos (by simp [List.mem_replicate]), ends, List.append_nil]

/-- Quotes are read in runs, the longest possible. -/
theorem linesText?_quotes (n : Nat) {tail : List Char} (stop : ∀ c ∈ tail.head?, c ≠ f.quote) :
    linesText? f (fuel + 1) (List.replicate (n + 1) f.quote ++ tail) =
      if n + 1 < 3 then
        (linesText? f fuel tail).map fun p => (List.replicate (n + 1) f.quote ++ p.1, p.2)
      else
        some (List.replicate (min (n - 2) 2) f.quote, List.replicate (n - 4) f.quote ++ tail) := by
  have run := takeWhile_quotes stop (n + 1)
  have after : (List.replicate (n + 1) f.quote ++ tail).drop (n + 1) = tail :=
    List.drop_left' List.length_replicate
  rw [List.replicate_succ, List.cons_append] at run after ⊢
  simp only [linesText?, if_true, run, List.length_cons, List.length_replicate, after]
  split
  · cases linesText? f fuel tail <;> simp [List.replicate_succ]
  · rfl

end

/-- **A string on several lines is read back**, with the quotes just before its text. -/
theorem linesText?_written {f : StringForm} (several : f.isMultiline = true) {run : Nat}
    {text cs : List Char} (h : Written f run text cs) (few : run < 3) {rest : List Char}
    (stop : ∀ c ∈ rest.head?, c ≠ f.quote) {fuel : Nat} (enough : run + text.length < fuel) :
    linesText? f fuel (List.replicate run f.quote ++ (text ++ (f.delimiter ++ rest))) =
      some (List.replicate run f.quote ++ cs, rest) := by
  have delimiter : f.delimiter = List.replicate 3 f.quote := by
    rw [StringForm.delimiter, several]
    rfl
  -- The reader takes a run of quotes as a whole, so those passed stay in front of the text until a
  -- character or the delimiter shows how long their run is.
  induction h generalizing fuel with
  | @nil run =>
      obtain ⟨fuel, rfl⟩ := Nat.exists_eq_add_one.2 (Nat.zero_lt_of_lt enough)
      have quotes := @linesText?_quotes f fuel (run + 2) rest stop
      have all : List.replicate run f.quote ++ ([] ++ (f.delimiter ++ rest)) =
          List.replicate (run + 2 + 1) f.quote ++ rest := by
        rw [List.nil_append, delimiter, ← List.append_assoc, ← List.replicate_add]
      rw [all, quotes, if_neg (by omega), Nat.add_sub_cancel, Nat.min_eq_left (by omega),
        Nat.sub_eq_zero_of_le (by omega)]
      simp
  | @quote run text cs inside _ ih =>
      have limit : f.quotesInside = 2 := by rw [StringForm.quotesInside, several]; rfl
      have next := @ih (by omega) fuel (by simp at enough; omega)
      rw [List.replicate_succ'] at next
      simpa using next
  | @char run t text cs c first _ ih =>
      have one {fuel : Nat} (enough : text.length < fuel) :
          linesText? f (fuel + 1) (t ++ (text ++ (f.delimiter ++ rest))) =
            some (c :: cs, rest) := by
        have next := @ih (by decide) fuel (by omega)
        rw [List.replicate_zero, List.nil_append, List.nil_append] at next
        rw [linesText?_char first, next, Option.map_some]
      obtain ⟨x, t', begins, other⟩ := first.exists_cons
      rw [List.length_append, begins, List.length_cons] at enough
      rw [List.append_assoc]
      cases run with
      | zero =>
          obtain ⟨fuel, rfl⟩ := Nat.exists_eq_add_one.2 (Nat.zero_lt_of_lt enough)
          exact one (by omega)
      | succ n =>
          obtain ⟨fuel, rfl⟩ := Nat.exists_eq_add_of_le' (show 2 ≤ fuel by omega)
          rw [linesText?_quotes n (by simpa [begins] using other), if_pos few, one (by omega),
            Option.map_some]

/-! ### Delimiters -/

/-- What follows the delimiter of a string is not one of its quotes. -/
def NoQuoteAhead (rest : List Char) : Prop := ∀ c ∈ rest.head?, c ≠ '"' ∧ c ≠ '\''

theorem NoQuoteAhead.ne {rest : List Char} (h : NoQuoteAhead rest) (f : StringForm) :
    ∀ c ∈ rest.head?, c ≠ f.quote := by
  intro c hc
  rcases quote_eq f with e | e <;> rw [e]
  · exact (h c hc).1
  · exact (h c hc).2

/-- On one line, the text and its delimiter do not look like a delimiter of several lines. -/
theorem Written.no_delimiter {f : StringForm} (single : f.isMultiline = false) {text cs : List Char}
    (h : Written f 0 text cs) {rest : List Char} (stop : ∀ c ∈ rest.head?, c ≠ f.quote)
    (tail : List Char) : text ++ f.quote :: rest ≠ f.quote :: f.quote :: tail := by
  cases h with
  | nil =>
      intro e
      exact stop f.quote (by rw [(List.cons.inj e).2]; rfl) rfl
  | quote few _ => simp [StringForm.quotesInside, single] at few
  | char first _ =>
      obtain ⟨x, t, rfl, other⟩ := first.exists_cons
      intro e
      exact other (List.cons.inj e).1

/-- The text of a string without newlines does not begin with one. -/
theorem Written.skipNewline {f : StringForm} {run : Nat} {text cs : List Char}
    (h : Written f run text cs) (line : '\n' ∉ cs) (rest : List Char) :
    skipNewline (text ++ (f.delimiter ++ rest)) = text ++ (f.delimiter ++ rest) := by
  have none : newline? (text ++ (f.delimiter ++ rest)) = none := by
    cases h with
    | nil => cases f <;> rfl
    | quote _ _ => cases f <;> rfl
    | char first _ =>
        cases first with
        | plain printed _ _ => exact newline?_of_isPlain printed _
        | newline _ => exact absurd List.mem_cons_self line
        | escape _ _ => rfl
  rw [Toml.skipNewline, none, Option.getD_none]

theorem string?_of_single {f : StringForm} (single : f.isMultiline = false) {body : List Char}
    (h : ∀ tail, body ≠ f.quote :: f.quote :: tail) :
    string? (f.quote :: body) =
      (lineText? f (body.length + 2) body).map fun p => (String.ofList p.1, p.2) := by
  cases f with
  | basic =>
      unfold string?
      split
      · next rest e => exact absurd (List.cons.inj e).2 (h rest)
      · next e => cases e
      · next e => cases e; rfl
      · next e => cases e
      · next double _ => exact absurd rfl (double body)
  | literal =>
      unfold string?
      split
      · next e => cases e
      · next rest e => exact absurd (List.cons.inj e).2 (h rest)
      · next e => cases e
      · next e => cases e; rfl
      · next single => exact absurd rfl (single body)
  | multilineBasic => cases single
  | multilineLiteral => cases single

theorem string?_of_multiline {f : StringForm} (several : f.isMultiline = true) (body : List Char) :
    string? (f.delimiter ++ body) =
      (linesText? f (body.length + 4) (skipNewline body)).map fun p =>
        (String.ofList p.1, p.2) := by
  cases f with
  | basic => cases several
  | literal => cases several
  | multilineBasic => rfl
  | multilineLiteral => rfl

/-- A string in a form is read back. -/
theorem string?_written {f : StringForm} {text cs : List Char} (h : Written f 0 text cs)
    {rest : List Char} (stop : NoQuoteAhead rest) :
    string? (f.delimiter ++ ((if f.isMultiline && cs.contains '\n' then ['\n'] else []) ++
      (text ++ (f.delimiter ++ rest)))) = some (String.ofList cs, rest) := by
  cases several : f.isMultiline with
  | false =>
      have delimiter : f.delimiter = [f.quote] := by
        rw [StringForm.delimiter, several]
        rfl
      have enough : text.length < (text ++ f.quote :: rest).length + 2 := by simp; omega
      have read := lineText?_written several h rest enough
      rw [delimiter]
      simp only [Bool.false_and, Bool.false_eq_true, if_false, List.nil_append,
        List.singleton_append]
      rw [string?_of_single several (h.no_delimiter several (stop.ne f)), read, Option.map_some]
  | true =>
      have skipped : skipNewline ((if true && cs.contains '\n' then ['\n'] else []) ++
          (text ++ (f.delimiter ++ rest))) = text ++ (f.delimiter ++ rest) := by
        by_cases line : '\n' ∈ cs
        · simp [line, skipNewline, newline?]
        · simp only [Bool.true_and, List.contains_eq_mem, line, decide_false, Bool.false_eq_true,
            if_false, List.nil_append]
          exact h.skipNewline line rest
      have read {fuel : Nat} (enough : text.length < fuel) :=
        @linesText?_written f several 0 text cs h (by decide) rest (stop.ne f) fuel (by omega)
      simp only [List.replicate_zero, List.nil_append] at read
      rw [string?_of_multiline several, skipped, read (by simp; omega), Option.map_some]

/-- **A string is read back**, whatever its characters are, if no quote follows it. -/
theorem string?_quoted (s : String) {rest : List Char} (stop : NoQuoteAhead rest) :
    string? (quoted s ++ rest) = some (s, rest) := by
  have read := string?_written (written_body s.toList) stop
  rw [String.ofList_toList] at read
  rw [← read, quoted, inForm]
  simp only [List.append_assoc]

end PreparedSql.Toml
