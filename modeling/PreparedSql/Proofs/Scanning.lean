import PreparedSql.Proofs.Literals
import PreparedSql.Proofs.Writing

/-!
# Where a cell ends

A scan of SQL text from left to right keeps the number of parentheses that are open and the quote
that it is inside of.  It stops at a comma or a closing parenthesis outside of all parentheses and
quotes.  Text is balanced if the scan comes through it and is then where it was before.

* `balanced_quoted`: quoted text is balanced, whatever it holds, if its quotes are written twice.
* `Draft.balanced_ofCell`: so are all cells but for the names with a quote in them.
* `Balanced.append_inj`: two balanced texts in front of a character that stops the scan are equal
  if they are equal with all that comes after them.
-/

namespace PreparedSql

/-! ### The scan -/

/-- The number of parentheses that are open, and the quote that is. -/
structure Scan where
  depth : Nat
  quote : Option Char
deriving DecidableEq, Repr

/-- The quotes of all dialects. -/
def IsQuote (c : Char) : Prop := c = '\'' ∨ c = '"' ∨ c = '\x60'

instance : DecidablePred IsQuote := fun c =>
  inferInstanceAs (Decidable (c = '\'' ∨ c = '"' ∨ c = '\x60'))

/-- The characters that stop the scan outside of parentheses and quotes. -/
def IsStop (c : Char) : Prop := c = ',' ∨ c = ')'

namespace Scan

/-- One character further, if it does not stop the scan. -/
def step (s : Scan) (c : Char) : Option Scan :=
  match s.quote with
  | some q => some (if c = q then { s with quote := none } else s)
  | none =>
    if IsQuote c then some { s with quote := some c }
    else if c = '(' then some { s with depth := s.depth + 1 }
    else match s.depth with
      | 0 => if c = ',' ∨ c = ')' then none else some s
      | n + 1 => some (if c = ')' then { s with depth := n } else s)

def run (s : Scan) (cs : List Char) : Option Scan := cs.foldlM step s

theorem run_cons (s : Scan) (c : Char) (cs : List Char) :
    s.run (c :: cs) = (s.step c).bind fun s' => s'.run cs := rfl

/-- A scan of two texts is a scan of the first, and then of the second from where it is. -/
theorem run_append (s : Scan) (cs ds : List Char) :
    s.run (cs ++ ds) = (s.run cs).bind fun s' => s'.run ds :=
  List.foldlM_append

/-- Outside of all parentheses and quotes such a character ends the cell. -/
theorem step_of_isStop {c : Char} (h : IsStop c) : step ⟨0, none⟩ c = none := by
  rcases h with rfl | rfl <;> rfl

theorem step_openQuote {q : Char} (h : IsQuote q) (n : Nat) :
    step ⟨n, none⟩ q = some ⟨n, some q⟩ := by
  simp [step, h]

theorem step_closeQuote (q : Char) (n : Nat) : step ⟨n, some q⟩ q = some ⟨n, none⟩ := by
  simp [step]

/-- Between quotes nothing counts but the quote that closes them. -/
theorem step_inside {q c : Char} (h : c ≠ q) (n : Nat) :
    step ⟨n, some q⟩ c = some ⟨n, some q⟩ := by
  simp [step, h]

end Scan

/-! ### Balanced text -/

/-- The scan comes through the text and is where it was. -/
def Balanced (cs : List Char) : Prop := ∀ n, Scan.run ⟨n, none⟩ cs = some ⟨n, none⟩

/-- The same inside of parentheses, where commas do not stop the scan. -/
def BalancedInside (cs : List Char) : Prop := ∀ n, Scan.run ⟨n + 1, none⟩ cs = some ⟨n + 1, none⟩

/-- What is balanced anywhere is balanced inside parentheses. -/
theorem Balanced.inside {cs : List Char} (h : Balanced cs) : BalancedInside cs := fun n => h (n + 1)

theorem Balanced.append {cs ds : List Char} (hc : Balanced cs) (hd : Balanced ds) :
    Balanced (cs ++ ds) := by
  intro n
  rw [Scan.run_append, hc n]
  exact hd n

theorem BalancedInside.append {cs ds : List Char} (hc : BalancedInside cs)
    (hd : BalancedInside ds) : BalancedInside (cs ++ ds) := by
  intro n
  rw [Scan.run_append, hc n]
  exact hd n

/-- Parentheses around a text let it have commas. -/
theorem BalancedInside.parentheses {cs : List Char} (h : BalancedInside cs) :
    Balanced ('(' :: (cs ++ [')'])) := by
  intro n
  have opened : Scan.step ⟨n, none⟩ '(' = some ⟨n + 1, none⟩ := rfl
  rw [Scan.run_cons, opened, Option.bind_some, Scan.run_append, h n]
  rfl

/-- Text without quotes, parentheses and commas. -/
theorem balanced_of_forall {cs : List Char}
    (h : ∀ c ∈ cs, c ∉ ['\'', '"', '\x60', '(', ')', ',']) : Balanced cs := by
  intro n
  induction cs with
  | nil => rfl
  | cons c cs ih =>
      have plain := h c (by simp)
      simp only [List.mem_cons, List.not_mem_nil, or_false, not_or] at plain
      obtain ⟨h₁, h₂, h₃, ho, hs, hc⟩ := plain
      have stays : Scan.step ⟨n, none⟩ c = some ⟨n, none⟩ := by
        cases n <;> simp [Scan.step, IsQuote, h₁, h₂, h₃, ho, hs, hc]
      rw [Scan.run_cons, stays]
      exact ih fun c hc => h c (List.mem_cons_of_mem _ hc)

/-- Inside of a quote, a quote written twice closes it and opens it again. -/
theorem Scan.run_doubled {q : Char} (hq : IsQuote q) (n : Nat) (cs : List Char) :
    Scan.run ⟨n, some q⟩ (doubled q cs) = some ⟨n, some q⟩ := by
  induction cs with
  | nil => rfl
  | cons c cs ih =>
      by_cases e : c = q
      · subst e
        have twice : doubled c (c :: cs) = c :: c :: doubled c cs := by simp [doubled, replaceAll]
        rw [twice, run_cons, step_closeQuote, Option.bind_some, run_cons, step_openQuote hq]
        exact ih
      · have once : doubled q (c :: cs) = c :: doubled q cs := by simp [doubled, replaceAll, e]
        rw [once, run_cons, step_inside e]
        exact ih

/-- **Quoted text is balanced**, whatever it holds, if its quotes are written twice. -/
theorem balanced_quoted {q : Char} (hq : IsQuote q) (cs : List Char) :
    Balanced (q :: (doubled q cs ++ [q])) := by
  intro n
  rw [Scan.run_cons, Scan.step_openQuote hq, Option.bind_some, Scan.run_append,
    Scan.run_doubled hq, Option.bind_some, Scan.run_cons, Scan.step_closeQuote]
  rfl

/-- Bare text has no parentheses, quotes or commas. -/
theorem IsBareText.balanced {cs : List Char} (h : IsBareText cs) : Balanced cs := by
  refine balanced_of_forall fun c hc special => ?_
  simp only [List.mem_cons, List.not_mem_nil, or_false] at special
  rcases special with rfl | rfl | rfl | rfl | rfl | rfl <;> exact absurd (h _ hc) (by decide)

/-- A literal leaves no quote open, and what its quotes hold is passed over. -/
theorem IsLiteralText.balanced {cs : List Char} (h : IsLiteralText cs) : Balanced cs := by
  obtain ⟨bare, hbare, rfl | ⟨inside, rfl⟩⟩ := h
  · exact hbare.balanced
  · exact hbare.balanced.append (balanced_quoted (.inl rfl) inside)

/-! ### Where balanced text ends -/

/-- The text begins with a character that stops the scan. -/
def Stops (cs : List Char) : Prop := ∃ c ∈ cs.head?, IsStop c

/-- Balanced text does not go on over a character that stops the scan. -/
theorem Balanced.eq_nil_of_append {cs ds rest : List Char} (h : Balanced cs)
    (hd : Balanced (cs ++ ds)) (hrest : Stops (ds ++ rest)) : ds = [] := by
  cases ds with
  | nil => rfl
  | cons c ds =>
      obtain ⟨_, hc, stop⟩ := hrest
      cases hc
      -- the scan is where it was at the beginning when it comes to `c`
      have through := hd 0
      rw [Scan.run_append, h 0, Option.bind_some, Scan.run_cons,
        Scan.step_of_isStop stop] at through
      cases through

/-- **Balanced text ends where the scan stops.** -/
theorem Balanced.append_inj {cs ds x y : List Char} (hc : Balanced cs) (hd : Balanced ds)
    (hx : Stops x) (hy : Stops y) (h : cs ++ x = ds ++ y) : cs = ds ∧ x = y := by
  rcases List.append_eq_append_iff.1 h with ⟨more, rfl, rfl⟩ | ⟨more, rfl, rfl⟩
  · simp [hc.eq_nil_of_append hd hx]
  · simp [hd.eq_nil_of_append hc hy]

/-! ### Cells -/

theorem Dialect.isQuote_quote (d : Dialect) : IsQuote d.quote := by
  cases d <;> decide

/-- A name without quotes of its own is passed over as one quoted text. -/
theorem Dialect.balanced_quoteIdentifier {d : Dialect} {name : String}
    (h : d.quote ∉ name.toList) : Balanced (d.quoteIdentifier name).toList := by
  have quoted := balanced_quoted d.isQuote_quote name.toList
  rw [doubled_of_notMem h] at quoted
  simpa [Dialect.quoteIdentifier] using quoted

theorem Dialect.balanced_placeholder (d : Dialect) (position : Nat) :
    Balanced (d.placeholder position).toList := by
  refine balanced_of_forall fun c hc special => ?_
  have spelled : c = '?' ∨ c = '$' ∨ c.isDigit = true := by
    cases d with
    | postgres =>
        simp only [placeholder, String.toList_ofList, List.mem_cons] at hc
        exact .inr (hc.imp_right (allDigits_decimalDigits position c))
    | mysql | tidb => simp_all [placeholder]
  simp only [List.mem_cons, List.not_mem_nil, or_false] at special
  rcases special with rfl | rfl | rfl | rfl | rfl | rfl <;> exact absurd spelled (by decide)

namespace Draft

variable {d : Dialect}

/-- A value that is written at all is written as its literal. -/
theorem ofValue_of_complete {v : Value} (h : (ofValue d v).Complete) :
    ofValue d v = text (d.literal v) := by
  unfold ofValue at h ⊢
  split at h
  · exact absurd h (not_complete_fail _)
  · rw [if_neg (by assumption)]

/-- An array that is written at all is written as the list of its values. -/
theorem ofArray_of_complete {vs : List Value} (h : (ofArray d vs).Complete) :
    ofArray d vs = list (vs.map (ofValue d)) ∧ ∀ v ∈ vs, (ofValue d v).Complete := by
  unfold ofArray at h ⊢
  split at h
  · exact absurd h (not_complete_fail _)
  · rw [if_neg (by assumption)]
    exact ⟨rfl, by simpa using h⟩

/-- The scan comes through the text of a value. -/
theorem balanced_ofValue {v : Value} (h : (ofValue d v).Complete) (k : Nat) :
    Balanced ((ofValue d v).chars d k) := by
  rw [ofValue_of_complete h, chars_text, Dialect.literal, Value.literal, String.toList_ofList]
  exact (v.isLiteralText_literalChars d.escaping).balanced

/-- Inside parentheses the commas between parts are passed over like the parts. -/
theorem balancedInside_others {ds : List Draft} (complete : ∀ x ∈ ds, x.Complete)
    (balanced : ∀ x ∈ ds, ∀ k, Balanced (x.chars d k)) :
    ∀ k, BalancedInside ((others ds).chars d k) := by
  have comma : BalancedInside ", ".toList := fun _ => rfl
  induction ds with
  | nil => exact fun _ _ => rfl
  | cons x ds ih =>
      obtain ⟨hx, hds⟩ := List.forall_mem_cons.1 complete
      obtain ⟨bx, bds⟩ := List.forall_mem_cons.1 balanced
      intro k
      rw [chars_others_cons, chars_append hx]
      exact comma.append ((bx k).inside.append (ih hds bds _))

/-- Balanced texts with commas between them are balanced inside of parentheses. -/
theorem balancedInside_separated {ds : List Draft} (complete : ∀ x ∈ ds, x.Complete)
    (balanced : ∀ x ∈ ds, ∀ k, Balanced (x.chars d k)) (k : Nat) :
    BalancedInside ((separated ", " ds).chars d k) := by
  cases ds with
  | nil => exact fun _ => rfl
  | cons x ds =>
      obtain ⟨hx, hds⟩ := List.forall_mem_cons.1 complete
      obtain ⟨bx, bds⟩ := List.forall_mem_cons.1 balanced
      rw [separated_cons, chars_append hx]
      exact (bx k).inside.append (balancedInside_others hds bds _)

theorem balanced_ofArray {vs : List Value} (h : (ofArray d vs).Complete) (k : Nat) :
    Balanced ((ofArray d vs).chars d k) := by
  obtain ⟨e, complete⟩ := ofArray_of_complete h
  have complete' : ∀ x ∈ vs.map (ofValue d), x.Complete := by simpa using complete
  rw [e, chars_list complete']
  refine (balancedInside_separated complete' (fun x hx k => ?_) k).parentheses
  obtain ⟨v, hv, rfl⟩ := List.mem_map.1 hx
  exact balanced_ofValue (complete v hv) k

/-- **Cells are balanced**: a literal whatever it holds, and a name without the quote in it. -/
theorem balanced_ofCell {cell : Cell} (h : (ofCell d cell).Complete)
    (hname : ∀ name, cell = .column name → d.quote ∉ name.toList) (k : Nat) :
    Balanced ((ofCell d cell).chars d k) := by
  cases cell with
  | literal v => exact balanced_ofValue h k
  | slot s => simpa [ofCell] using d.balanced_placeholder (k + 1)
  | array vs => exact balanced_ofArray h k
  | column name => simpa [ofCell, ofColumn] using Dialect.balanced_quoteIdentifier (hname name rfl)

end Draft

end PreparedSql
