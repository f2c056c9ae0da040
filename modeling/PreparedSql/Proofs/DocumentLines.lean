import Mathlib.Algebra.BigOperators.Group.List.Basic
import PreparedSql.Proofs.LiteralText
import PreparedSql.Proofs.QuotedStrings
import PreparedSql.Toml.Reading

/-!
# TOML documents of simple lines are read back

A simple line is a bare name, an equals sign with a space on each side, and a value that is written
in one piece.  Which texts write which value is said by `Writes`, with whatever follows the line.

* `writes_quoted`, `writes_decimalDigits`: the texts of strings and of naturals.
* `entry?_line`: a simple line is a member.
* `read?_lines`: simple lines with different names are the members of a document, in their order.
-/

namespace PreparedSql.Toml

/-! ### Naturals -/

/-- What follows digits on their line is another digit or the end of the line. -/
theorem head?_of_field? {width lo hi n : Nat} {ds rest after : List Char} (h : AllDigits ds)
    (read : field? width lo hi (ds ++ '\n' :: rest) = some (n, after)) :
    ∀ c ∈ after.head?, c.isDigit = true ∨ c = '\n' := by
  rw [field?] at read
  split at read
  · next fits =>
      obtain ⟨-, rfl⟩ := Prod.mk.inj (Option.some.inj read)
      have inside : width ≤ ds.length := by
        by_contra beyond
        have mem : '\n' ∈ (ds ++ '\n' :: rest).take width := by
          obtain ⟨k, rfl⟩ := Nat.exists_eq_add_of_lt (Nat.lt_of_not_le beyond)
          rw [Nat.add_assoc, List.take_length_add_append, List.take_succ_cons]
          simp
        have := List.all_eq_true.1 fits.2.1 _ mem
        cases this
      intro c hc
      rw [List.drop_append_of_le_length inside] at hc
      cases later : ds.drop width with
      | nil =>
          rw [later] at hc
          exact .inr (Option.some.inj hc).symm
      | cons d ds' =>
          rw [later] at hc
          obtain rfl := Option.some.inj hc
          exact .inl (h d (List.mem_of_mem_drop (later ▸ List.mem_cons_self)))
  · cases read

/-- Text that begins with another character does not begin with this one. -/
theorem afterStart?_eq_none {x : Char} {cs : List Char} (h : ∀ c ∈ cs.head?, c ≠ x)
    (start : List Char) : afterStart? (x :: start) cs = none := by
  cases cs with
  | nil => rfl
  | cons c cs => rw [afterStart?, if_neg (h c rfl).symm]

/-- Digits and the end of the line are no moment. -/
theorem moment?_digits {ds : List Char} (h : AllDigits ds) (rest : List Char) :
    moment? (ds ++ '\n' :: rest) = none := by
  have stop {width lo hi n : Nat} {after : List Char} {x : Char} (digit : x.isDigit = false)
      (line : x ≠ '\n') (read : field? width lo hi (ds ++ '\n' :: rest) = some (n, after)) :
      afterStart? [x] after = none := by
    refine afterStart?_eq_none (fun c hc same => ?_) []
    subst same
    rcases head?_of_field? h read c hc with other | other
    · rw [digit] at other; cases other
    · exact line other
  have date : date? (ds ++ '\n' :: rest) = none := by
    rw [date?]
    cases read : field? 4 0 9999 (ds ++ '\n' :: rest) with
    | none => rfl
    | some p => simp [stop (x := '-') (by decide) (by decide) read]
  have time : time? (ds ++ '\n' :: rest) = none := by
    rw [time?]
    cases read : field? 2 0 23 (ds ++ '\n' :: rest) with
    | none => rfl
    | some p => simp [stop (x := ':') (by decide) (by decide) read]
  rw [moment?, date, time]

/-- The digits end where the line does. -/
theorem moreDigits_append {ds : List Char} (h : AllDigits ds) (rest : List Char) :
    moreDigits Char.isDigit (ds ++ '\n' :: rest) = (ds, '\n' :: rest) := by
  induction ds with
  | nil => cases rest <;> rfl
  | cons d ds ih =>
      have digit : d.isDigit = true := h d List.mem_cons_self
      have next := ih fun c hc => h c (List.mem_cons_of_mem d hc)
      obtain ⟨c, cs, e⟩ := List.exists_cons_of_ne_nil (List.append_ne_nil_of_right_ne_nil ds
        (List.cons_ne_nil '\n' rest))
      rw [List.cons_append, e, moreDigits, if_pos digit, ← e, next]

/-- A number of a line has no zero in front and no underscores, and is read whole. -/
theorem wholeDigits?_append {ds : List Char} (h : WholeDigits ds) (rest : List Char) :
    wholeDigits? (ds ++ '\n' :: rest) = some (ds, '\n' :: rest) := by
  obtain ⟨d, ds, rfl⟩ := List.exists_cons_of_ne_nil h.ne_nil
  have digit : d.isDigit = true := h.digits d List.mem_cons_self
  have more := moreDigits_append (fun c hc => h.digits c (List.mem_cons_of_mem d hc)) rest
  by_cases zero : d = '0'
  · subst zero
    obtain alone | other := h.head
    · obtain rfl := List.eq_nil_of_length_eq_zero (Nat.succ.inj alone)
      rfl
    · exact absurd rfl other
  · unfold wholeDigits?
    split
    · next e => exact absurd (List.cons.inj e).1 zero
    · rw [List.cons_append, digitRun?, if_pos digit, more]

/-- Without a fraction and an exponent a number is an integer. -/
theorem decimalNumber?_of_parts {cs cs₁ cs₂ cs₃ rest whole fraction : List Char}
    {negative : Bool} {e : Option Int} (h₁ : splitSign cs = (negative, cs₁))
    (h₂ : wholeDigits? cs₁ = some (whole, cs₂)) (h₃ : fraction? cs₂ = some (fraction, cs₃))
    (h₄ : exponent? cs₃ = some (e, rest)) (plain : (fraction.isEmpty && e.isNone) = true) :
    decimalNumber? cs =
      (integer? (if negative then -(digitsValue whole : Int) else digitsValue whole)).map fun x =>
        (x, rest) := by
  rw [decimalNumber?, h₁]
  simp only [h₂, h₃, h₄, Option.bind_eq_bind, Option.bind_some]
  rw [if_pos plain]
  cases integer? (if negative then -(digitsValue whole : Int) else digitsValue whole) <;> rfl

/-- Digits up to the end of the line are an integer. -/
theorem decimalNumber?_digits {ds : List Char} (h : WholeDigits ds) (fits : digitsValue ds < 2 ^ 63)
    (rest : List Char) :
    decimalNumber? (ds ++ '\n' :: rest) = some (.integer (digitsValue ds), '\n' :: rest) := by
  have sign : splitSign (ds ++ '\n' :: rest) = (false, ds ++ '\n' :: rest) := by
    obtain ⟨d, ds, rfl⟩ := List.exists_cons_of_ne_nil h.ne_nil
    have digit : d.isDigit = true := h.digits d List.mem_cons_self
    refine splitSign_cons ?_ ?_ _ <;> rintro rfl <;> cases digit
  have integer : integer? (digitsValue ds) = some (.integer (digitsValue ds)) := by
    rw [integer?, if_pos (by omega)]
  rw [decimalNumber?_of_parts sign (wholeDigits?_append h rest) rfl rfl rfl, if_neg nofun, integer,
    Option.map_some]

/-- Digits by themselves are no number in another base. -/
theorem number?_digits {ds : List Char} (h : WholeDigits ds) (fits : digitsValue ds < 2 ^ 63)
    (rest : List Char) :
    number? (ds ++ '\n' :: rest) = some (.integer (digitsValue ds), '\n' :: rest) := by
  -- A zero stands alone, so no mark of a base comes behind it.
  have unmarked {x : Char} (mark : x ≠ '\n') (after : List Char) :
      ds ++ '\n' :: rest ≠ '0' :: x :: after := by
    intro e
    obtain alone | other := h.head
    · obtain ⟨d, rfl⟩ := List.length_eq_one_iff.1 alone
      exact mark (List.cons.inj (List.cons.inj e).2).1.symm
    · rw [← List.head?_append_of_ne_nil ds h.ne_nil, e] at other
      exact other rfl
  unfold number?
  split
  · next e => exact absurd e (unmarked (by decide) _)
  · next e => exact absurd e (unmarked (by decide) _)
  · next e => exact absurd e (unmarked (by decide) _)
  · rw [decimalNumber?_digits h fits, Option.some_or]

/-! ### Values -/

/-- A text that is read as a value where it stands at the end of its line; it does not begin with a
blank. -/
structure Writes (text : List Char) (value : Toml) : Prop where
  begins : ∀ rest, skipSpaces (text ++ '\n' :: rest) = text ++ '\n' :: rest
  read   : ∀ fuel depth rest,
    value? (fuel + 1) depth (text ++ '\n' :: rest) = some (value, '\n' :: rest)

theorem skipSpaces_cons {c : Char} (space : c ≠ ' ') (tab : c ≠ '\t') (rest : List Char) :
    skipSpaces (c :: rest) = c :: rest := by
  simp [skipSpaces, space, tab]

/-- A written string begins with a quote of either kind. -/
theorem exists_cons_quoted (s : String) : ∃ q cs, quoted s = q :: cs ∧ (q = '"' ∨ q = '\'') := by
  rw [quoted, inForm]
  generalize StringForm.ofText s.toList = f
  have delimiter : ∃ cs, f.delimiter = f.quote :: cs := by cases f <;> exact ⟨_, rfl⟩
  obtain ⟨cs, e⟩ := delimiter
  rw [e]
  exact ⟨f.quote, _, rfl, quote_eq f⟩

/-- A string is a value that the reader reads to the end of the line. -/
theorem writes_quoted (s : String) : Writes (quoted s) (.string s) := by
  obtain ⟨q, cs, begins, quote⟩ := exists_cons_quoted s
  have stop (rest : List Char) : NoQuoteAhead ('\n' :: rest) := fun c hc => by
    obtain rfl := Option.some.inj hc
    decide
  constructor
  · intro rest
    rw [begins]
    rcases quote with rfl | rfl <;> rfl
  · intro fuel depth rest
    have read := string?_quoted s (stop rest)
    rw [begins] at read ⊢
    rcases quote with rfl | rfl <;> exact congrArg (Option.map _) read

/-- So is a natural: its digits end where a time would go on. -/
theorem writes_decimalDigits {n : Nat} (fits : n < 2 ^ 63) :
    Writes (decimalDigits n) (.integer n) := by
  obtain ⟨d, ds, begins, digit⟩ := isDigit_head_decimalDigits n
  have ne {x : Char} (other : x.isDigit = false) : d ≠ x := by
    rintro rfl
    rw [digit] at other
    cases other
  constructor
  · intro rest
    rw [begins]
    exact skipSpaces_cons (ne (by decide)) (ne (by decide)) _
  · intro fuel depth rest
    have number := number?_digits (wholeDigits_decimalDigits n)
      (by rwa [digitsValue_decimalDigits]) rest
    have moment := moment?_digits (allDigits_decimalDigits n) rest
    rw [digitsValue_decimalDigits] at number
    have scalar : scalar? (decimalDigits n ++ '\n' :: rest) = some (.integer n, '\n' :: rest) := by
      rw [begins, List.cons_append] at number moment ⊢
      unfold scalar?
      split
      · next e => exact absurd (List.cons.inj e).1 (ne (by decide))
      · next e => exact absurd (List.cons.inj e).1 (ne (by decide))
      · rw [moment, number]
    rw [← scalar, begins, List.cons_append, value?]
    all_goals
      intro _ e
      exact ne (by decide) (List.cons.inj e).1

/-! ### Lines -/

/-- A name that needs no quotes. -/
structure IsBareName (name : String) : Prop where
  ne_nil : name.toList ≠ []
  bare   : ∀ c ∈ name.toList, isBare c = true

instance : DecidablePred IsBareName := fun name =>
  decidable_of_iff (name.toList ≠ [] ∧ name.toList.all isBare = true)
    ⟨fun h => ⟨h.1, List.all_eq_true.1 h.2⟩, fun h => ⟨h.ne_nil, List.all_eq_true.2 h.bare⟩⟩

/-- A member of a document: its name, and its value with the text that writes it. -/
structure Line where
  name  : String
  text  : List Char
  value : Toml

namespace Line

def chars (l : Line) : List Char := l.name.toList ++ ' ' :: '=' :: ' ' :: (l.text ++ ['\n'])

structure IsSimple (l : Line) : Prop where
  name : IsBareName l.name
  text : Writes l.text l.value

def entry (l : Line) : Entry := .member ⟨[], l.name⟩ l.value

end Line

/-- A bare name begins with a character that no other part of a line begins with. -/
theorem IsBareName.exists_cons {name : String} (h : IsBareName name) :
    ∃ c cs, name.toList = c :: cs ∧ ∀ x, isBare x = false → c ≠ x := by
  obtain ⟨c, cs, e⟩ := List.exists_cons_of_ne_nil h.ne_nil
  have bare := h.bare c (e ▸ List.mem_cons_self)
  refine ⟨c, cs, e, fun x other => ?_⟩
  rintro rfl
  rw [bare] at other
  cases other

theorem keyName?_name {name : String} (h : IsBareName name) (rest : List Char) :
    keyName? (name.toList ++ ' ' :: rest) = some (name, ' ' :: rest) := by
  obtain ⟨c, cs, e, ne⟩ := h.exists_cons
  have longest : (name.toList ++ ' ' :: rest).takeWhile isBare = name.toList := by
    rw [List.takeWhile_append_of_pos h.bare]
    simp [isBare]
  have name? : keyName? (name.toList ++ ' ' :: rest) =
      (if ((name.toList ++ ' ' :: rest).takeWhile isBare).isEmpty then none
        else some ((name.toList ++ ' ' :: rest).takeWhile isBare,
          (name.toList ++ ' ' :: rest).drop
            ((name.toList ++ ' ' :: rest).takeWhile isBare).length)).map
        fun p => (String.ofList p.1, p.2) := by
    rw [e, List.cons_append]
    unfold keyName?
    split
    · next begins => exact absurd (List.cons.inj begins).1 (ne _ (by decide))
    · next begins => exact absurd (List.cons.inj begins).1 (ne _ (by decide))
    · rfl
  rw [name?, longest, if_neg (by simp [h.ne_nil]), List.drop_left, Option.map_some,
    String.ofList_toList]

/-- A name without dots is the whole key. -/
theorem key?_name {name : String} (h : IsBareName name) (rest : List Char) :
    key? (name.toList ++ ' ' :: '=' :: rest) = some (⟨[], name⟩, '=' :: rest) := by
  obtain ⟨c, cs, e, ne⟩ := h.exists_cons
  have start : skipSpaces (name.toList ++ ' ' :: '=' :: rest) =
      name.toList ++ ' ' :: '=' :: rest := by
    rw [e]
    exact skipSpaces_cons (ne _ (by decide)) (ne _ (by decide)) _
  have behind : skipSpaces (' ' :: '=' :: rest) = '=' :: rest := rfl
  have names {fuel : Nat} : keyNames? (fuel + 1) (name.toList ++ ' ' :: '=' :: rest) =
      some ([name], '=' :: rest) := by
    simp [keyNames?, start, keyName?_name h, behind]
  simp [key?, names, nestingLimit]

/-- A line begins with its name. -/
theorem Line.IsSimple.exists_cons {l : Line} (h : l.IsSimple) :
    ∃ c cs, l.chars = c :: cs ∧ ∀ x, isBare x = false → c ≠ x := by
  obtain ⟨c, cs, e, ne⟩ := h.name.exists_cons
  exact ⟨c, _, by rw [Line.chars, e, List.cons_append], ne⟩

/-- A simple line is a member. -/
theorem entry?_line {l : Line} (h : l.IsSimple) (rest : List Char) :
    entry? (l.chars ++ rest) = some (l.entry, rest) := by
  obtain ⟨c, cs, e, ne⟩ := h.exists_cons
  have chars : l.chars ++ rest =
      l.name.toList ++ ' ' :: '=' :: ' ' :: (l.text ++ '\n' :: rest) := by simp [Line.chars]
  have start : skipSpaces (' ' :: (l.text ++ '\n' :: rest)) = l.text ++ '\n' :: rest :=
    h.text.begins rest
  have lineEnd : lineEnd? ('\n' :: rest) = some rest := rfl
  have entry : entry? (l.chars ++ rest) =
      (key? (l.chars ++ rest)).bind fun key => (afterStart? ['='] key.2).bind fun cs =>
        (value? ((skipSpaces cs).length + 1) (nestingLimit - 1) (skipSpaces cs)).bind fun value =>
          (lineEnd? value.2).bind fun rest => some (.member key.1 value.1, rest) := by
    rw [e, List.cons_append]
    unfold entry?
    split
    · next begins => exact absurd (List.cons.inj begins).1 (ne _ (by decide))
    · next begins => exact absurd (List.cons.inj begins).1 (ne _ (by decide))
    · rfl
  rw [entry, chars, key?_name h.name]
  simp [afterStart?, start, h.text.read, lineEnd, Line.entry]

/-! ### Documents -/

/-- **Lines are read one after the other**, each as its own entry. -/
theorem entries?_lines {lines : List Line} (h : ∀ l ∈ lines, l.IsSimple) {fuel : Nat}
    (enough : lines.length < fuel) :
    entries? fuel (lines.flatMap Line.chars) = some (lines.map Line.entry) := by
  induction lines generalizing fuel with
  | nil =>
      obtain ⟨fuel, rfl⟩ := Nat.exists_eq_add_one.2 enough
      rfl
  | cons l lines ih =>
      obtain ⟨fuel, rfl⟩ := Nat.exists_eq_add_one.2 (Nat.zero_lt_of_lt enough)
      obtain ⟨simple, others⟩ := List.forall_mem_cons.1 h
      obtain ⟨c, cs, e, ne⟩ := simple.exists_cons
      have entry := entry?_line simple (lines.flatMap Line.chars)
      have next := ih others (Nat.lt_of_succ_lt_succ enough)
      have start : skipSpaces (l.chars ++ lines.flatMap Line.chars) =
          c :: (cs ++ lines.flatMap Line.chars) := by
        rw [e]
        exact skipSpaces_cons (ne _ (by decide)) (ne _ (by decide)) _
      have member : ¬ (c = '#' ∨ c = '\n' ∨ c = '\r') := by
        rintro (other | other | other) <;> exact ne _ (by decide) other
      rw [e] at entry
      rw [List.flatMap_cons, entries?, start]
      simp only [if_neg member]
      rw [← List.cons_append, entry]
      simp [next]

/-- A member that is new comes last. -/
theorem Members.set_of_get?_eq_none {ms : Members} {name : String} (h : ms.get? name = none)
    (value : Toml) : ms.set name value = ms ++ [(name, value)] := by
  induction ms with
  | nil => rfl
  | cons m ms ih =>
      have other := List.lookup_eq_none_iff.1 h m List.mem_cons_self
      have rest : Members.get? ms name = none :=
        List.lookup_eq_none_iff.2 fun p hp =>
          List.lookup_eq_none_iff.1 h p (List.mem_cons_of_mem m hp)
      rw [Members.set, if_neg fun same => by simp [same] at other, ih rest]
      rfl

/-- A member with a name of its own comes behind the others. -/
theorem add_line {ms : Members} {l : Line} (other : l.name ∉ ms.map Prod.fst) :
    Document.add ⟨ms, []⟩ l.entry = some ⟨ms ++ [(l.name, l.value)], []⟩ := by
  have none : ms.get? l.name = none := by
    refine List.lookup_eq_none_iff.2 fun p hp => ?_
    have ne : l.name ≠ p.1 := fun same => other (same ▸ List.mem_map_of_mem hp)
    simpa using ne
  simp [Line.entry, Document.add, changeAt, addMember, none, Members.set_of_get?_eq_none none]

/-- Simple lines with different names are put together in their order. -/
theorem ofEntries?_lines {lines : List Line} (nodup : (lines.map Line.name).Nodup) :
    ofEntries? (lines.map Line.entry) = some (lines.map fun l => (l.name, l.value)) := by
  -- The induction is on the lines that are left; the members of those before only have other names.
  have after (ms : Members) (apart : (ms.map Prod.fst ++ lines.map Line.name).Nodup) :
      (lines.map Line.entry).foldlM Document.add ⟨ms, []⟩ =
        some ⟨ms ++ lines.map fun l => (l.name, l.value), []⟩ := by
    clear nodup
    induction lines generalizing ms with
    | nil => simp
    | cons l lines ih =>
        have other : l.name ∉ ms.map Prod.fst := fun mem =>
          (List.nodup_append.1 apart).2.2 _ mem _ List.mem_cons_self rfl
        have next := ih (ms ++ [(l.name, l.value)]) (by simpa using apart)
        rw [List.map_cons, List.foldlM_cons, add_line other]
        simpa using next
  rw [ofEntries?, after [] nodup]
  rfl

/-- **Simple lines with different names are read back** as the members of their document. -/
theorem read?_lines {lines : List Line} (h : ∀ l ∈ lines, l.IsSimple)
    (nodup : (lines.map Line.name).Nodup) :
    read? (String.ofList (lines.flatMap Line.chars)) =
      some (lines.map fun l => (l.name, l.value)) := by
  have enough : lines.length ≤ (lines.flatMap Line.chars).length := by
    rw [List.length_flatMap]
    refine (List.length_map _).symm.le.trans (List.length_le_sum_of_one_le _ ?_)
    refine List.forall_mem_map.2 fun l _ => ?_
    simp only [Line.chars, List.length_append, List.length_cons]
    omega
  have entries := entries?_lines h (Nat.lt_succ_of_le enough)
  have unmarked : read? (String.ofList (lines.flatMap Line.chars)) =
      (entries? ((lines.flatMap Line.chars).length + 1) (lines.flatMap Line.chars)).bind
        ofEntries? := by
    rw [read?, String.toList_ofList]
    cases lines with
    | nil => rfl
    | cons l lines =>
        obtain ⟨c, cs, e, ne⟩ := (h l List.mem_cons_self).exists_cons
        rw [List.flatMap_cons, e, List.cons_append]
        split
        · next begins => exact absurd (List.cons.inj begins).1 (ne _ (by decide))
        · rfl
  rw [unmarked, entries, Option.bind_some, ofEntries?_lines nodup]

end PreparedSql.Toml
