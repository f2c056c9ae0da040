import PreparedSql.Proofs.Scanning

/-!
# How a server finds the bind slots

A server reads SQL text from left to right.  It skips what stands in quotes; in a string MySQL and
TiDB take a backslash together with the character behind it.  Outside of quotes it keeps its place,
which is the list in parentheses that it is in and the member of that list, and it marks the places
where a bind slot begins: `$` with digits in Postgres, `?` in MySQL and TiDB (`marks`).

* `Dialect.Inside`: the text that may stand between two quotes.
* `Reads`: what marks a piece of text has, and where the reader is behind it.
* `reads_literal`, `reads_quoteIdentifier`: a literal has no marks, whatever it holds, and neither
  has a name without a quote in it.
* `reads_placeholder`: a bind slot has one.
-/

namespace PreparedSql

/-! ### The reader -/

/-- The lists in parentheses that were begun so far, not counting those inside of others, the
commas so far in the list that is open, and the number of parentheses that are open. -/
structure Place where
  list  : Nat
  item  : Nat := 0
  depth : Nat := 0
deriving DecidableEq, Repr

/-- The place behind a character outside of quotes. -/
def Place.step (p : Place) (c : Char) : Place :=
  if c = '(' then
    if p.depth = 0 then ⟨p.list + 1, 0, 1⟩ else { p with depth := p.depth + 1 }
  else if c = ')' then
    if p.depth ≤ 1 then ⟨p.list, 0, 0⟩ else { p with depth := p.depth - 1 }
  else if c = ',' ∧ p.depth = 1 then { p with item := p.item + 1 }
  else p

namespace Dialect

/-- The quotes around strings and names. -/
def quotes : Dialect → List Char
  | .postgres => ['\'', '"']
  | .mysql | .tidb => ['\'', '"', '\x60']

/-- Whether a backslash is an escape between these quotes. Postgres has escapes only behind an `E`,
where nothing but the digits of bytes is written. -/
def escapesIn : Dialect → Char → Bool
  | .postgres, _ => false
  | .mysql, q | .tidb, q => q ≠ '\x60'

/-- The character that a bind slot begins with. -/
def slotStart : Dialect → Char
  | .postgres => '$'
  | .mysql | .tidb => '?'

/-- The part of a bind slot that stands behind its first character. -/
def slotNumber : Dialect → List Char → List Char
  | .postgres, cs => cs.takeWhile Char.isDigit
  | .mysql, _ | .tidb, _ => []

end Dialect

/-- A bind slot in a text: its place, and how it is written. -/
structure Mark where
  place : Place
  text  : List Char
deriving DecidableEq, Repr

/-- The place, the quote that is open, and whether the next character is escaped. -/
structure Reader where
  place   : Place
  quote   : Option Char := none
  escaped : Bool := false
deriving DecidableEq, Repr

namespace Reader

variable (d : Dialect)

/-- One character further. -/
def step (r : Reader) (c : Char) : Reader :=
  match r.quote with
  | none => if c ∈ d.quotes then { r with quote := some c } else ⟨r.place.step c, none, false⟩
  | some q =>
    if r.escaped then { r with escaped := false }
    else if c = q then { r with quote := none }
    else if c = '\\' ∧ d.escapesIn q then { r with escaped := true }
    else r

/-- The bind slot that begins with a character, in front of the rest of the text. -/
def markAt (r : Reader) (c : Char) (rest : List Char) : List Mark :=
  if r.quote = none ∧ c = d.slotStart then [⟨r.place, c :: d.slotNumber rest⟩] else []

/-- The bind slots in a text, in order. -/
def marks : Reader → List Char → List Mark
  | _, [] => []
  | r, c :: rest => r.markAt d c rest ++ marks (r.step d c) rest

end Reader

open Reader

/-- The bind slots of a statement, in order. -/
def Dialect.marks (d : Dialect) (sql : String) : List Mark :=
  Reader.marks d ⟨⟨0, 0, 0⟩, none, false⟩ sql.toList

/-! ### Text between quotes -/

/-- Text that may stand between two quotes: no quote but in pairs, and behind an escape anything. -/
inductive Dialect.Inside (d : Dialect) (q : Char) : List Char → Prop where
  | nil : Inside d q []
  | plain {c rest} (other : c ≠ q) (unescaped : c = '\\' → d.escapesIn q = false)
      (more : Inside d q rest) : Inside d q (c :: rest)
  | pair {rest} (more : Inside d q rest) : Inside d q (q :: q :: rest)
  | escape {c rest} (escapes : d.escapesIn q = true) (more : Inside d q rest) :
      Inside d q ('\\' :: c :: rest)

section Quotes

variable {d : Dialect} {q : Char}

theorem Dialect.isQuote_of_mem_quotes (h : q ∈ d.quotes) : IsQuote q := by
  cases d with
  | postgres => exact (show q = '\'' ∨ q = '"' by simpa [quotes] using h).imp_right .inl
  | mysql | tidb => simpa [quotes, IsQuote] using h

theorem Dialect.ne_of_mem_quotes (h : q ∈ d.quotes) : q ≠ '\\' ∧ q ≠ d.slotStart := by
  rcases isQuote_of_mem_quotes h with rfl | rfl | rfl <;> cases d <;> decide

theorem Dialect.Inside.of_forall {cs : List Char}
    (h : ∀ c ∈ cs, c ≠ q ∧ (c = '\\' → d.escapesIn q = false)) : d.Inside q cs := by
  induction cs with
  | nil => exact .nil
  | cons c cs ih =>
      obtain ⟨other, unescaped⟩ := h c (List.mem_cons_self ..)
      exact .plain other unescaped (ih fun c hc => h c (List.mem_cons_of_mem _ hc))

theorem doubled_cons (c x : Char) (cs : List Char) :
    doubled c (x :: cs) = (if x = c then [c, c] else [x]) ++ doubled c cs := rfl

/-- Without escapes, quotes that are written twice are enough. -/
theorem Dialect.inside_doubled (h : d.escapesIn q = false) (cs : List Char) :
    d.Inside q (doubled q cs) := by
  induction cs with
  | nil => exact .nil
  | cons c cs ih =>
      rw [doubled_cons]
      split
      · exact .pair ih
      · next other => exact .plain other (fun _ => h) ih

/-- With escapes, a backslash is written twice as well. -/
theorem Dialect.inside_doubled_doubled (h : d.escapesIn q = true) (hq : q ≠ '\\')
    (cs : List Char) : d.Inside q (doubled q (doubled '\\' cs)) := by
  induction cs with
  | nil => exact .nil
  | cons c cs ih =>
      rw [doubled_cons]
      split
      · rw [List.cons_append, List.cons_append, doubled_cons, doubled_cons, if_neg hq.symm]
        exact .escape h ih
      · next backslash =>
          rw [List.singleton_append, doubled_cons]
          split
          · exact .pair ih
          · next other => exact .plain other (fun e => absurd e backslash) ih

theorem Reader.step_inside {c : Char} {p : Place} (other : c ≠ q)
    (unescaped : c = '\\' → d.escapesIn q = false) :
    step d ⟨p, some q, false⟩ c = ⟨p, some q, false⟩ := by
  have plain : ¬ (c = '\\' ∧ d.escapesIn q = true) := fun ⟨e, escapes⟩ => by
    simp [unescaped e] at escapes
  simp [step, other, plain]

/-- Nothing is marked between quotes. -/
theorem Dialect.Inside.marks {cs : List Char} (h : d.Inside q cs) (hq : q ∈ d.quotes) (p : Place)
    (rest : List Char) :
    Reader.marks d ⟨p, some q, false⟩ (cs ++ rest) = Reader.marks d ⟨p, some q, false⟩ rest := by
  have hq' := ne_of_mem_quotes hq
  induction h with
  | nil => rfl
  | plain other unescaped more ih =>
      rw [← ih]
      simp [Reader.marks, markAt, Reader.step_inside other unescaped]
  | pair more ih =>
      rw [← ih]
      simp [Reader.marks, markAt, Reader.step, hq, hq'.2]
  | escape escapes more ih =>
      rw [← ih]
      simp [Reader.marks, markAt, Reader.step, escapes, hq'.1.symm]

end Quotes

/-! ### Pieces of text -/

/-- A piece of text, read from one place to another outside of quotes, has these marks, whatever
comes behind it of what may follow. -/
def Reads (d : Dialect) (Follow : List Char → Prop) (p : Place) (cs : List Char) (ms : List Mark)
    (p' : Place) : Prop :=
  ∀ rest, Follow rest → Reader.marks d ⟨p, none, false⟩ (cs ++ rest) =
    ms ++ Reader.marks d ⟨p', none, false⟩ rest

section Pieces

variable {d : Dialect} {Follow Last : List Char → Prop} {p p' p'' : Place} {cs ds : List Char}
  {ms ms' : List Mark}

theorem Reads.nil : Reads d Follow p [] [] p := fun _ _ => rfl

theorem Reads.append (h : Reads d Follow p cs ms p') (h' : Reads d Last p' ds ms' p'')
    (follow : ∀ rest, Last rest → Follow (ds ++ rest)) :
    Reads d Last p (cs ++ ds) (ms ++ ms') p'' := fun rest hr => by
  rw [List.append_assoc, h _ (follow rest hr), h' rest hr, List.append_assoc]

/-- Behind a piece that anything may follow. -/
theorem Reads.then (h : Reads d (fun _ => True) p cs [] p') (h' : Reads d Last p' ds ms p'') :
    Reads d Last p (cs ++ ds) ms p'' := h.append h' fun _ _ => trivial

/-- A character that begins neither a quote nor a slot. -/
theorem reads_char {c : Char} (hq : c ∉ d.quotes) (hs : c ≠ d.slotStart) :
    Reads d Follow p [c] [] (p.step c) := fun rest _ => by
  simp [Reader.marks, markAt, Reader.step, hq, hs]

/-- Text in which nothing has a meaning where it stands. -/
theorem reads_of_forall (h : ∀ c ∈ cs, c ∉ d.quotes ∧ c ≠ d.slotStart ∧ p.step c = p) :
    Reads d Follow p cs [] p := by
  induction cs with
  | nil => exact .nil
  | cons c cs ih =>
      obtain ⟨hq, hs, stays⟩ := h c (List.mem_cons_self ..)
      have first : Reads d (fun _ => True) p [c] [] p := by
        simpa only [stays] using reads_char (p := p) hq hs
      exact first.then (ih fun c hc => h c (List.mem_cons_of_mem _ hc))

/-- Text in quotes. -/
theorem reads_quoted {q : Char} (hq : q ∈ d.quotes) (h : d.Inside q cs) :
    Reads d Follow p (q :: (cs ++ [q])) [] p := fun rest _ => by
  have close : Reader.marks d ⟨p, some q, false⟩ (q :: rest) =
      Reader.marks d ⟨p, none, false⟩ rest := by
    simp [Reader.marks, markAt, Reader.step]
  rw [List.nil_append, ← close, ← h.marks hq p]
  simp [Reader.marks, markAt, Reader.step, hq, (Dialect.ne_of_mem_quotes hq).2]

/-! ### Names, literals, slots -/

theorem Dialect.quote_mem_quotes (d : Dialect) : d.quote ∈ d.quotes := by
  cases d <;> decide

theorem Dialect.singleQuote_mem_quotes (d : Dialect) : '\'' ∈ d.quotes := by
  cases d <;> decide

/-- Between the quotes of names nothing is escaped. -/
theorem Dialect.escapesIn_quote (d : Dialect) : d.escapesIn d.quote = false := by
  cases d <;> rfl

theorem reads_quoteIdentifier {name : String} (h : d.quote ∉ name.toList) :
    Reads d Follow p (d.quoteIdentifier name).toList [] p := by
  rw [Dialect.quoteIdentifier, String.toList_ofList]
  refine reads_quoted d.quote_mem_quotes (.of_forall fun c hc => ⟨?_, fun _ => d.escapesIn_quote⟩)
  rintro rfl
  exact h hc

theorem IsBareText.ne (h : IsBareText cs) {c : Char} (hc : c ∈ cs) {special : Char}
    (hs : ¬ (special.isAlphanum = true ∨ special = '-' ∨ special = '.')) : c ≠ special :=
  fun e => hs (e ▸ h c hc)

theorem IsBareText.unquoted (h : IsBareText cs) : ∀ c ∈ cs, c ≠ '\'' ∧ c ≠ '\\' :=
  fun _ hc => ⟨h.ne hc (by decide), h.ne hc (by decide)⟩

/-- Letters, digits, minus signs and points have no meaning anywhere. -/
theorem IsBareText.reads (h : IsBareText cs) : Reads d Follow p cs [] p := by
  refine reads_of_forall fun c hc => ⟨?_, ?_, ?_⟩
  · intro hm
    rcases Dialect.isQuote_of_mem_quotes hm with rfl | rfl | rfl <;>
      exact absurd (h _ hc) (by decide)
  · exact h.ne hc (by cases d <;> decide)
  · have opens : c ≠ '(' := h.ne hc (by decide)
    have closes : c ≠ ')' := h.ne hc (by decide)
    have comma : c ≠ ',' := h.ne hc (by decide)
    simp [Place.step, opens, closes, comma]

/-- Text in single quotes without a single quote or a backslash in it. -/
theorem reads_singleQuoted (h : ∀ c ∈ cs, c ≠ '\'' ∧ c ≠ '\\') :
    Reads d Follow p (singleQuoted cs) [] p := by
  have plain : doubled '\'' cs = cs := doubled_of_notMem fun hm => (h _ hm).1 rfl
  rw [singleQuoted, plain]
  exact reads_quoted d.singleQuote_mem_quotes
    (.of_forall fun c hc => ⟨(h c hc).1, fun e => absurd e (h c hc).2⟩)

theorem reads_stringLiteral (cs : List Char) :
    Reads d Follow p (d.escaping.stringLiteral cs) [] p := by
  have quoted : ∀ {inside}, d.Inside '\'' (doubled '\'' inside) →
      Reads d Follow p (singleQuoted inside) [] p := reads_quoted d.singleQuote_mem_quotes
  cases d with
  | postgres => exact quoted (Dialect.inside_doubled rfl cs)
  | mysql | tidb => exact quoted (Dialect.inside_doubled_doubled rfl (by decide) cs)

theorem isBareText_hexBytes (bs : List UInt8) : IsBareText (hexBytes bs) :=
  fun c hc => .inl (isAlphanum_of_mem_hexBytes c hc)

theorem reads_bytesLiteral (bs : List UInt8) :
    Reads d Follow p (bytesLiteral bs) [] p := by
  have prefixed : bytesLiteral bs = ['E'] ++ '\'' :: (('\\' :: 'x' :: hexBytes bs) ++ ['\'']) := by
    simp [bytesLiteral]
  have digits : d.Inside '\'' (hexBytes bs) := .of_forall fun c hc =>
    have other := (isBareText_hexBytes bs).unquoted c hc
    ⟨other.1, fun e => absurd e other.2⟩
  have inside : d.Inside '\'' ('\\' :: 'x' :: hexBytes bs) := by
    cases d with
    | postgres => exact .plain (by decide) (fun _ => rfl) (.plain (by decide) (fun _ => rfl) digits)
    | mysql | tidb => exact .escape rfl digits
  rw [prefixed]
  have letter : Reads d (fun _ => True) p ['E'] [] p := (by decide : IsBareText ['E']).reads
  exact letter.then (reads_quoted d.singleQuote_mem_quotes inside)

/-- The text of a time has digits, signs, points, colons and a blank. -/
theorem Timestamp.ne_of_mem_chars (t : Timestamp) : ∀ c ∈ t.chars, c ≠ '\'' ∧ c ≠ '\\' := by
  have spelled : ∀ c ∈ t.chars, c.isDigit = true ∨ c ∈ ['+', '-', ' ', ':', '.'] := by
    intro c hc
    have year : ∀ c ∈ yearText t.year, c.isDigit = true ∨ c ∈ ['+', '-', ' ', ':', '.'] := by
      intro c hc
      unfold yearText at hc
      split at hc
      · exact .inl (allDigits_padded _ _ c hc)
      · rcases List.mem_cons.1 hc with rfl | hc
        · split <;> simp
        · exact .inl (allDigits_padded _ _ c hc)
    simp only [chars, List.cons_append, List.append_assoc, List.mem_append, List.mem_cons] at hc
    rcases hc with hc | rfl | hc | rfl | hc | rfl | hc | rfl | hc | rfl | hc | rfl | hc
    · exact year c hc
    all_goals first
      | exact .inl (allDigits_padded _ _ c hc)
      | exact .inr (by decide)
  intro c hc
  constructor <;> rintro rfl <;> exact absurd (spelled _ hc) (by decide)

theorem reads_floatLiteral (f : BinaryFormat) (x : BinaryNumber) :
    Reads d Follow p (floatLiteral x (f.plain x)) [] p := by
  cases x with
  | nan => exact reads_singleQuoted (by decide : IsBareText "NaN".toList).unquoted
  | infinite s =>
      cases s
      · exact reads_singleQuoted (by decide : IsBareText "Infinity".toList).unquoted
      · exact reads_singleQuoted (by decide : IsBareText "-Infinity".toList).unquoted
  | finite s m q => exact (f.isNumeralText_plain s m q).isBareText.reads

/-- **A literal has no marks**, whatever it holds. -/
theorem reads_literal (v : Value) : Reads d Follow p (d.literal v).toList [] p := by
  rw [Dialect.literal, Value.literal, String.toList_ofList]
  cases v with
  | null => exact (by decide : IsBareText "NULL".toList).reads
  | bool b =>
      cases b
      · exact (by decide : IsBareText "FALSE".toList).reads
      · exact (by decide : IsBareText "TRUE".toList).reads
  | int w n => exact (isNumeralText_intText n.val).isBareText.reads
  | f32 x => exact reads_floatLiteral .binary32 x.number
  | f64 x => exact reads_floatLiteral .binary64 x.number
  | timestamp t => exact reads_singleQuoted t.ne_of_mem_chars
  | bytes bs => exact reads_bytesLiteral bs
  | string _ | uuid _ | json _ | vector _ => exact reads_stringLiteral _

theorem marks_slotStart (rest : List Char) :
    Reader.marks d ⟨p, none, false⟩ (d.slotStart :: rest) =
      ⟨p, d.slotStart :: d.slotNumber rest⟩ :: Reader.marks d ⟨p, none, false⟩ rest := by
  have unquoted : d.slotStart ∉ d.quotes := by cases d <;> decide
  have stays : p.step d.slotStart = p := by cases d <;> simp [Dialect.slotStart, Place.step]
  simp [Reader.marks, markAt, Reader.step, unquoted, stays]

/-- **A bind slot has one mark**, where it stands, if no digit follows. -/
theorem reads_placeholder (position : Nat) :
    Reads d Stops p (d.placeholder position).toList [⟨p, (d.placeholder position).toList⟩] p := by
  intro rest hr
  cases d with
  | postgres =>
      have digits : AllDigits (Nat.toDigits 10 position) := allDigits_decimalDigits position
      have ends : NoDigitAhead rest := by
        obtain ⟨c, hc, stop⟩ := hr
        intro x hx
        obtain rfl : c = x := Option.some.inj (hc.symm.trans hx)
        rcases stop with rfl | rfl <;> rfl
      have number := digits.takeWhile_append ends
      have bare : IsBareText (Nat.toDigits 10 position) := digits.isNumeralText.isBareText
      have first := marks_slotStart (d := .postgres) (p := p) (Nat.toDigits 10 position ++ rest)
      rw [Dialect.slotNumber, number] at first
      have behind : Reads .postgres (fun _ => True) p (Nat.toDigits 10 position) [] p := bare.reads
      rw [Dialect.placeholder, String.toList_ofList]
      exact first.trans (congrArg _ (behind rest trivial))
  | mysql | tidb =>
      have spelled : "?".toList = ['?'] := by decide
      rw [Dialect.placeholder, spelled]
      exact marks_slotStart rest

end Pieces

end PreparedSql
