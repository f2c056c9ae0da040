import PreparedSql.Proofs.JsonNumbers

/-!
# A document is read back

The compact text of a document has no blanks, so the reader finds the first character of every part
at once; what stands behind a value is a comma or a closing bracket, which is no part of it.

* `Json.string?_chars`: a string is read back as it was, escapes and all.
* `Json.items?_itemChars`, `Json.members?_memberChars`: a list is read where its parts are.
* `Json.reads_of_depth_le`: so is every document, by its constructors, where the reader may go as
  deep as the document is nested.
* `Json.read?_text`: the whole text of a document within the reader's limit is read.

The document that is read need not be the one that was written: a number with a fraction is rounded
once more.
-/

namespace PreparedSql.Json

/-! ### Nesting -/

mutual

/-- How many arrays and objects stand inside one another. -/
def depth : Json → Nat
  | .null | .bool _ | .number _ | .string _ => 0
  | .array items                            => itemsDepth items + 1
  | .object members                         => membersDepth members + 1

def itemsDepth : List Json → Nat
  | []           => 0
  | item :: rest => max item.depth (itemsDepth rest)

def membersDepth : List (String × Json) → Nat
  | []                 => 0
  | (_, value) :: rest => max value.depth (membersDepth rest)

end

/-! ### Strings -/

/-- The four digits of a control character are two zeros and the two of its number. -/
theorem unit?_control {n : Nat} (h : n < 32) (rest : List Char) :
    unit? ('0' :: '0' :: Nat.digitChar (n / 16) :: Nat.digitChar (n % 16) :: rest) =
      some (n, rest) := by
  have zero : hexValue? '0' = some 0 := rfl
  have high := hexValue?_digitChar (show n / 16 < 16 by omega)
  have low := hexValue?_digitChar (show n % 16 < 16 by omega)
  have whole : 16 * (n / 16) + n % 16 = n := by omega
  simp [unit?, readHex?, zero, high, low, whole]

/-- A control character is below all surrogates, so its one unit is enough. -/
theorem unicodeEscape?_control {n : Nat} (h : n < 32) (rest : List Char) :
    unicodeEscape?
      ('0' :: '0' :: Nat.digitChar (n / 16) :: Nat.digitChar (n % 16) :: rest) =
        some (Char.ofNat n, rest) := by
  have noLow : ¬ (0xDC00 ≤ n ∧ n ≤ 0xDFFF) := by omega
  have noHigh : ¬ (0xD800 ≤ n ∧ n ≤ 0xDBFF) := by omega
  simp [unicodeEscape?, unit?_control h, noLow, noHigh]

theorem ofNat_of_toNat {c : Char} {n : Nat} (h : c.toNat = n) : Char.ofNat n = c := by
  rw [← h]
  exact Char.ofNat_toNat c

/-- What stands behind an escape is read like what stands behind a character. -/
theorem stringBody?_escape {fuel : Nat} {c : Char} {cs rest : List Char}
    (h : escape? cs = some (c, rest)) :
    stringBody? (fuel + 1) ('\\' :: cs) =
      (stringBody? fuel rest).map fun p => (c :: p.1, p.2) := by
  simp [stringBody?, h, Option.map_eq_bind]

/-- Each character is read back from its escape. -/
theorem stringBody?_escapeChar (fuel : Nat) (c : Char) (rest : List Char) :
    stringBody? (fuel + 1) (escapeChar c ++ rest) =
      (stringBody? fuel rest).map fun p => (c :: p.1, p.2) := by
  unfold escapeChar
  split
  · exact stringBody?_escape rfl
  · exact stringBody?_escape rfl
  · exact stringBody?_escape rfl
  · exact stringBody?_escape rfl
  · exact stringBody?_escape rfl
  · next noQuote noBackslash _ _ _ =>
      -- what has no letter of its own is told by its number
      split
      · next backspace => exact ofNat_of_toNat backspace ▸ stringBody?_escape rfl
      split
      · next formFeed => exact ofNat_of_toNat formFeed ▸ stringBody?_escape rfl
      split
      · next control =>
          refine stringBody?_escape ?_
          exact (unicodeEscape?_control control rest).trans (by rw [Char.ofNat_toNat])
      · next plain =>
          have quote : c ≠ '"' := noQuote
          have backslash : c ≠ '\\' := noBackslash
          simp [stringBody?, quote, backslash, plain, Option.map_eq_bind]

/-- A string ends at the first quote that is not escaped, so one unit of fuel for each character and
one for the quote are enough. -/
theorem stringBody?_chars {fuel : Nat} {cs : List Char} (h : cs.length < fuel)
    (rest : List Char) :
    stringBody? fuel (cs.flatMap escapeChar ++ '"' :: rest) = some (cs, rest) := by
  induction cs generalizing fuel with
  | nil =>
      obtain ⟨fuel, rfl⟩ := Nat.exists_eq_add_one_of_ne_zero (Nat.ne_of_gt h)
      simp [stringBody?]
  | cons c cs ih =>
      obtain ⟨fuel, rfl⟩ := Nat.exists_eq_add_one_of_ne_zero (Nat.ne_of_gt (Nat.zero_lt_of_lt h))
      rw [List.flatMap_cons, List.append_assoc, stringBody?_escapeChar,
        ih (Nat.lt_of_succ_lt_succ h)]
      rfl

/-- No character is written as nothing, so a text is long enough to be its own fuel. -/
theorem length_le_flatMap_escapeChar (cs : List Char) :
    cs.length ≤ (cs.flatMap escapeChar).length := by
  induction cs with
  | nil => exact Nat.le_refl 0
  | cons c cs ih =>
      have one : 1 ≤ (escapeChar c).length := by
        unfold escapeChar
        repeat' split
        all_goals simp
      rw [List.flatMap_cons, List.length_append, List.length_cons]
      omega

/-- **A string is read back as it was.** -/
theorem string?_chars (s : String) (rest : List Char) :
    string? (s.toList.flatMap escapeChar ++ '"' :: rest) = some (s, rest) := by
  have room := length_le_flatMap_escapeChar s.toList
  rw [string?, stringBody?_chars (by rw [List.length_append]; omega)]
  simp

/-! ### Parts of a document -/

/-- A character that a value may begin with: no blank, and not the end of a list. -/
def Opens (c : Char) : Prop :=
  (c == ' ' || c == '\n' || c == '\t' || c == '\r') = false ∧ c ≠ ']'

theorem Opens.skipBlanks {c : Char} (h : Opens c) (cs : List Char) :
    skipBlanks (c :: cs) = c :: cs := by
  simp [Json.skipBlanks, h.1]

/-- A digit is no blank and closes no list. -/
theorem opens_of_isDigit {c : Char} (h : c.isDigit = true) : Opens c := by
  constructor
  · simp only [Bool.or_eq_false_iff, beq_eq_false_iff_ne]
    refine ⟨⟨⟨?_, ?_⟩, ?_⟩, ?_⟩ <;> (rintro rfl; exact absurd h (by decide))
  · rintro rfl
    exact absurd h (by decide)

/-- Of all values only a number begins with a digit. -/
theorem value?_digit {fuel depth : Nat} {c : Char} {cs : List Char} (h : c.isDigit = true) :
    value? (fuel + 1) depth (c :: cs) =
      (number? false (c :: cs)).map fun p => (.number p.1, p.2) := by
  rw [value?, (opens_of_isDigit h).skipBlanks]
  split
  case h_8 => rfl
  all_goals
    next e =>
      obtain ⟨rfl, -⟩ := List.cons_eq_cons.1 e
      exact absurd h (by decide)

/-- An array that does not close at once has a first item. -/
theorem value?_array {fuel depth : Nat} {c : Char} {cs : List Char} (h : Opens c) :
    value? (fuel + 1) (depth + 1) ('[' :: c :: cs) =
      (items? fuel depth (c :: cs)).map fun p => (.array p.1, p.2) := by
  have bracket : Opens '[' := ⟨by decide, by decide⟩
  rw [value?, bracket.skipBlanks]
  simp only [h.skipBlanks]
  split
  · next e => cases e
  · next e => exact absurd (List.cons_eq_cons.1 e).1 h.2
  · next same _ => rw [Nat.succ.inj same]

/-- An object that does not close at once has a first key. -/
theorem value?_object {fuel depth : Nat} {cs : List Char} :
    value? (fuel + 1) (depth + 1) ('{' :: '"' :: cs) =
      (members? fuel depth ('"' :: cs)).map fun p => (ofMembers p.1, p.2) := by
  rw [value?]
  rfl

/-- The closing bracket ends the items. -/
theorem items?_last {fuel depth : Nat} {cs rest : List Char} {item : Json}
    (h : value? fuel depth cs = some (item, ']' :: rest)) :
    items? (fuel + 1) depth cs = some ([item], rest) := by
  rw [items?, h]
  rfl

/-- After a comma comes another item. -/
theorem items?_more {fuel depth : Nat} {cs rest : List Char} {item : Json}
    (h : value? fuel depth cs = some (item, ',' :: rest)) :
    items? (fuel + 1) depth cs =
      (items? fuel depth rest).map fun p => (item :: p.1, p.2) := by
  rw [items?, h, Option.map_eq_bind]
  rfl

/-- The quotes around a string are not escaped, those inside are. -/
theorem stringChars_append (s : String) (rest : List Char) :
    stringChars s ++ rest = '"' :: (s.toList.flatMap escapeChar ++ '"' :: rest) := by
  simp [stringChars]

/-- A closing brace ends the members. -/
theorem members?_last {fuel depth : Nat} {key : String} {cs rest : List Char} {value : Json}
    (h : value? fuel depth cs = some (value, '}' :: rest)) :
    members? (fuel + 1) depth (stringChars key ++ ':' :: cs) = some ([(key, value)], rest) := by
  simp [stringChars_append, members?, skipBlanks, string?_chars, h]

/-- After a comma comes another member. -/
theorem members?_more {fuel depth : Nat} {key : String} {cs rest : List Char} {value : Json}
    (h : value? fuel depth cs = some (value, ',' :: rest)) :
    members? (fuel + 1) depth (stringChars key ++ ':' :: cs) =
      (members? fuel depth rest).map fun p => ((key, value) :: p.1, p.2) := by
  simp [stringChars_append, members?, skipBlanks, string?_chars, h, Option.map_eq_bind]

/-! ### Documents -/

/-- A number is told by its first character: a sign or a digit. -/
theorem value?_numberChars (n : JsonNumber) (fuel depth : Nat) {rest : List Char}
    (ends : EndsNumber rest) :
    ∃ x, value? (fuel + 1) depth (numberChars n ++ rest) = some (.number x, rest) := by
  obtain ⟨negative, cs, text, readable⟩ := readable_numberChars n
  obtain ⟨x, read⟩ := readable.reads rest ends
  rw [text]
  refine ⟨x, ?_⟩
  cases negative with
  | true =>
      have sign : Opens '-' := ⟨by decide, by decide⟩
      change value? (fuel + 1) depth ('-' :: (cs ++ rest)) = _
      rw [value?, sign.skipBlanks]
      simp only [read, Option.map_some]
  | false =>
      obtain ⟨d, ds, rfl, digit⟩ := readable.begins
      change value? (fuel + 1) depth (d :: (ds ++ rest)) = _
      rw [value?_digit digit, ← List.cons_append, read]
      rfl

/-- A number begins with a sign or a digit. -/
theorem opens_numberChars (n : JsonNumber) : ∃ c cs, numberChars n = c :: cs ∧ Opens c := by
  obtain ⟨negative, cs, text, readable⟩ := readable_numberChars n
  rw [text]
  cases negative with
  | true => exact ⟨'-', cs, rfl, by decide, by decide⟩
  | false =>
      obtain ⟨d, ds, rfl, digit⟩ := readable.begins
      exact ⟨d, ds, rfl, opens_of_isDigit digit⟩

/-- No document begins with a blank or closes a list, so the reader skips nothing in front of it. -/
theorem opens_chars (j : Json) : ∃ c cs, j.chars = c :: cs ∧ Opens c := by
  cases j with
  | null => exact ⟨'n', _, by rw [chars], by decide, by decide⟩
  | bool b =>
      cases b with
      | true => exact ⟨'t', _, by rw [chars], by decide, by decide⟩
      | false => exact ⟨'f', _, by rw [chars], by decide, by decide⟩
  | number n => rw [chars]; exact opens_numberChars n
  | string s => exact ⟨'"', _, by rw [chars, stringChars], by decide, by decide⟩
  | array items => exact ⟨'[', _, by rw [chars], by decide, by decide⟩
  | object members => exact ⟨'{', _, by rw [chars], by decide, by decide⟩

theorem itemChars_cons_cons (item next : Json) (items : List Json) :
    itemChars (item :: next :: items) = item.chars ++ ',' :: itemChars (next :: items) := by
  rw [itemChars]
  simp

theorem memberChars_cons_cons (m next : String × Json) (members : List (String × Json)) :
    memberChars (m :: next :: members) =
      stringChars m.1 ++ ':' :: (m.2.chars ++ ',' :: memberChars (next :: members)) := by
  rw [memberChars]
  simp

/-- The text of a list of items begins as its first item does. -/
theorem opens_itemChars (item : Json) (items : List Json) :
    ∃ c cs, itemChars (item :: items) = c :: cs ∧ Opens c := by
  obtain ⟨c, cs, text, opens⟩ := opens_chars item
  cases items with
  | nil => exact ⟨c, cs, by rw [itemChars, text], opens⟩
  | cons next items => exact ⟨c, _, by rw [itemChars_cons_cons, text, List.cons_append], opens⟩

theorem quote_memberChars (m : String × Json) (members : List (String × Json)) :
    ∃ cs, memberChars (m :: members) = '"' :: cs := by
  cases members with
  | nil => exact ⟨_, by rw [memberChars, stringChars_append]⟩
  | cons next members => exact ⟨_, by rw [memberChars_cons_cons, stringChars_append]⟩

/-- What the writer puts behind a value can be no part of a number. -/
theorem endsNumber_of_closing {c : Char} (rest : List Char) (h : c = ',' ∨ c = ']' ∨ c = '}') :
    EndsNumber (c :: rest) := by
  intro d hd
  obtain rfl : c = d := Option.some.inj hd
  rcases h with rfl | rfl | rfl <;> decide

/-- The text of a document is read as a document, and no more than that text. -/
def Reads (depth : Nat) (j : Json) : Prop :=
  ∀ (fuel : Nat) (rest : List Char), j.chars.length ≤ fuel → EndsNumber rest →
    ∃ j', value? fuel depth (j.chars ++ rest) = some (j', rest)

/-- **Items are read one after the other**, the last one up to the bracket behind them. -/
theorem items?_itemChars {depth : Nat} {item : Json} {items : List Json}
    (h : ∀ i ∈ item :: items, Reads depth i) (fuel : Nat) (rest : List Char)
    (room : (itemChars (item :: items)).length < fuel) :
    ∃ read, items? fuel depth (itemChars (item :: items) ++ ']' :: rest) = some (read, rest) := by
  induction items generalizing item fuel with
  | nil =>
      obtain ⟨fuel, rfl⟩ := Nat.exists_eq_add_one_of_ne_zero (Nat.ne_zero_of_lt room)
      rw [itemChars] at room ⊢
      obtain ⟨j, read⟩ := h item List.mem_cons_self fuel _ (Nat.le_of_lt_succ room)
        (endsNumber_of_closing rest (.inr (.inl rfl)))
      exact ⟨[j], items?_last read⟩
  | cons next items ih =>
      obtain ⟨fuel, rfl⟩ := Nat.exists_eq_add_one_of_ne_zero (Nat.ne_zero_of_lt room)
      rw [itemChars_cons_cons, List.length_append, List.length_cons] at room
      rw [itemChars_cons_cons, List.append_assoc, List.cons_append]
      obtain ⟨j, read⟩ := h item List.mem_cons_self fuel _ (by omega)
        (endsNumber_of_closing _ (.inl rfl))
      obtain ⟨others, readOthers⟩ := ih (fun i mem => h i (List.mem_cons_of_mem _ mem))
        fuel (by omega)
      rw [items?_more read, readOthers]
      exact ⟨j :: others, rfl⟩

/-- **Members are read one after the other**, the last one up to the brace behind them. -/
theorem members?_memberChars {depth : Nat} {m : String × Json}
    {members : List (String × Json)} (h : ∀ n ∈ m :: members, Reads depth n.2) (fuel : Nat)
    (rest : List Char) (room : (memberChars (m :: members)).length < fuel) :
    ∃ read, members? fuel depth (memberChars (m :: members) ++ '}' :: rest) =
      some (read, rest) := by
  induction members generalizing m fuel with
  | nil =>
      obtain ⟨fuel, rfl⟩ := Nat.exists_eq_add_one_of_ne_zero (Nat.ne_zero_of_lt room)
      rw [memberChars, List.length_append, List.length_cons] at room
      rw [memberChars, List.append_assoc, List.cons_append]
      obtain ⟨j, read⟩ := h m List.mem_cons_self fuel _ (by omega)
        (endsNumber_of_closing rest (.inr (.inr rfl)))
      exact ⟨[(m.1, j)], members?_last read⟩
  | cons next members ih =>
      obtain ⟨fuel, rfl⟩ := Nat.exists_eq_add_one_of_ne_zero (Nat.ne_zero_of_lt room)
      simp only [memberChars_cons_cons, List.length_append, List.length_cons] at room
      rw [memberChars_cons_cons, List.append_assoc, List.cons_append, List.append_assoc,
        List.cons_append]
      obtain ⟨j, read⟩ := h m List.mem_cons_self fuel _ (by omega)
        (endsNumber_of_closing _ (.inl rfl))
      obtain ⟨others, readOthers⟩ := ih (fun n mem => h n (List.mem_cons_of_mem _ mem))
        fuel (by omega)
      rw [members?_more read, readOthers]
      exact ⟨(m.1, j) :: others, rfl⟩

/-- An array is read one level deeper than its items. -/
theorem reads_array {depth : Nat} {items : List Json} (h : ∀ i ∈ items, Reads depth i) :
    Reads (depth + 1) (.array items) := by
  intro fuel rest room ends
  rw [chars, List.length_cons, List.length_append, List.length_singleton] at room
  obtain ⟨fuel, rfl⟩ := Nat.exists_eq_add_one_of_ne_zero (Nat.ne_zero_of_lt room)
  cases items with
  | nil => exact ⟨.array [], by rw [chars, itemChars, value?]; rfl⟩
  | cons item items =>
      obtain ⟨c, cs, text, opens⟩ := opens_itemChars item items
      obtain ⟨read, readItems⟩ := items?_itemChars h fuel rest (by omega)
      refine ⟨.array read, ?_⟩
      rw [chars, List.cons_append, List.append_assoc, List.singleton_append]
      rw [text, List.cons_append] at readItems ⊢
      rw [value?_array opens, readItems]
      rfl

/-- An object is read one level deeper than its members. -/
theorem reads_object {depth : Nat} {members : List (String × Json)}
    (h : ∀ m ∈ members, Reads depth m.2) : Reads (depth + 1) (.object members) := by
  intro fuel rest room ends
  rw [chars, List.length_cons, List.length_append, List.length_singleton] at room
  obtain ⟨fuel, rfl⟩ := Nat.exists_eq_add_one_of_ne_zero (Nat.ne_zero_of_lt room)
  cases members with
  | nil => exact ⟨.object [], by rw [chars, memberChars, value?]; rfl⟩
  | cons m members =>
      obtain ⟨cs, text⟩ := quote_memberChars m members
      obtain ⟨read, readMembers⟩ := members?_memberChars h fuel rest (by omega)
      refine ⟨ofMembers read, ?_⟩
      rw [chars, List.cons_append, List.append_assoc, List.singleton_append]
      rw [text, List.cons_append] at readMembers ⊢
      rw [value?_object, readMembers]
      rfl

/-- Items are no deeper than the list of them. -/
theorem depth_le_itemsDepth {item : Json} {items : List Json} (h : item ∈ items) :
    item.depth ≤ itemsDepth items := by
  induction items with
  | nil => cases h
  | cons other items ih =>
      rw [itemsDepth]
      rcases List.mem_cons.1 h with rfl | mem
      · exact Nat.le_max_left _ _
      · exact Nat.le_trans (ih mem) (Nat.le_max_right _ _)

theorem depth_le_membersDepth {m : String × Json} {members : List (String × Json)}
    (h : m ∈ members) : m.2.depth ≤ membersDepth members := by
  induction members with
  | nil => cases h
  | cons other members ih =>
      rw [membersDepth]
      rcases List.mem_cons.1 h with rfl | mem
      · exact Nat.le_max_left _ _
      · exact Nat.le_trans (ih mem) (Nat.le_max_right _ _)

/-- The value of a member is smaller than the list of the members, so the recursion ends. -/
theorem sizeOf_lt_of_mem_members {m : String × Json} {members : List (String × Json)}
    (h : m ∈ members) : sizeOf m.2 < sizeOf members := by
  have inner : sizeOf m.2 < sizeOf m := by
    cases m
    simp only [Prod.mk.sizeOf_spec]
    omega
  exact Nat.lt_trans inner (List.sizeOf_lt_of_mem h)

/-- A value that is no list takes one step of the reader. -/
theorem reads_of_succ {j : Json} {depth : Nat}
    (h : ∀ (fuel : Nat) {rest : List Char}, EndsNumber rest →
      ∃ j', value? (fuel + 1) depth (j.chars ++ rest) = some (j', rest)) : Reads depth j := by
  intro fuel rest room ends
  obtain ⟨c, cs, text, -⟩ := opens_chars j
  rw [text, List.length_cons] at room
  obtain ⟨fuel, rfl⟩ := Nat.exists_eq_add_of_le' (Nat.le_trans (Nat.le_add_left 1 _) room)
  exact h fuel ends

/-- **Every document is read from its text** where the reader may go as deep as it is nested. -/
theorem reads_of_depth_le : ∀ (j : Json) {depth : Nat}, j.depth ≤ depth → Reads depth j
  | .null, _, _       => reads_of_succ fun _ _ _ => ⟨.null, by rw [chars, value?]; rfl⟩
  | .bool true, _, _  => reads_of_succ fun _ _ _ => ⟨.bool true, by rw [chars, value?]; rfl⟩
  | .bool false, _, _ => reads_of_succ fun _ _ _ => ⟨.bool false, by rw [chars, value?]; rfl⟩
  | .number n, depth, _ => reads_of_succ fun fuel _ ends => by
      obtain ⟨x, read⟩ := value?_numberChars n fuel depth ends
      exact ⟨.number x, by rw [chars, read]⟩
  | .string s, _, _ => reads_of_succ fun _ rest _ => by
      refine ⟨.string s, ?_⟩
      rw [chars, stringChars_append, value?]
      change Option.map _ (string? _) = _
      rw [string?_chars]
      rfl
  | .array items, 0, nested => absurd nested (by simp [depth])
  -- an item is smaller than the document, and as much less deep as there is left to go
  | .array items, depth + 1, nested => reads_array fun item mem =>
      have := List.sizeOf_lt_of_mem mem
      reads_of_depth_le item (Nat.le_trans (depth_le_itemsDepth mem)
        (Nat.le_of_succ_le_succ (by rwa [Json.depth] at nested)))
  | .object members, 0, nested => absurd nested (by simp [depth])
  | .object members, depth + 1, nested => reads_object fun m mem =>
      have := sizeOf_lt_of_mem_members mem
      reads_of_depth_le m.2 (Nat.le_trans (depth_le_membersDepth mem)
        (Nat.le_of_succ_le_succ (by rwa [Json.depth] at nested)))
termination_by j => sizeOf j

/-- **The text of a document is read**, where the document is nested no deeper than the limit. -/
theorem read?_text {j : Json} (nested : j.depth ≤ nestingLimit) : ∃ j', read? j.text = some j' := by
  obtain ⟨j', read⟩ := reads_of_depth_le j nested (j.chars.length + 1) [] (Nat.le_succ _)
    (by simp [EndsNumber])
  rw [List.append_nil] at read
  exact ⟨j', by simp [read?, text, read, skipBlanks]⟩

end PreparedSql.Json
