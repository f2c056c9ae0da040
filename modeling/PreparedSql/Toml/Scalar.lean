import PreparedSql.Text.Hex
import PreparedSql.Text.Basic
import PreparedSql.Timestamp
import PreparedSql.Toml

/-!
# TOML numbers, truth values and moments

Values that are one word. A single underscore may stand between two digits of a number; decimal
integers have no zero in front; integers have 64 bits. A moment is a date, a time of day, or both,
perhaps with an offset; its fields are checked against the calendar and the clock.
-/

namespace PreparedSql.Toml

/-- Digits, each perhaps after an underscore, and what follows. -/
def moreDigits (ok : Char → Bool) : List Char → List Char × List Char
  | [] => ([], [])
  | [c] => if ok c then ([c], []) else ([], [c])
  | c :: d :: rest =>
    if ok c then
      let (ds, after) := moreDigits ok (d :: rest)
      (c :: ds, after)
    else if c = '_' ∧ ok d then
      let (ds, after) := moreDigits ok rest
      (d :: ds, after)
    else ([], c :: d :: rest)

/-- One or more digits, single underscores between them left out, and what follows. -/
def digitRun? (ok : Char → Bool) : List Char → Option (List Char × List Char)
  | [] => none
  | c :: rest =>
    if ok c then
      let (ds, after) := moreDigits ok rest
      some (c :: ds, after)
    else none

/-- The digits of a decimal integer: a zero, or digits that do not start with one. -/
def wholeDigits? : List Char → Option (List Char × List Char)
  | '0' :: rest => some (['0'], rest)
  | cs => digitRun? Char.isDigit cs

/-- A number in the range of 64 bits. -/
def integer? (n : Int) : Option Toml := if -2 ^ 63 ≤ n ∧ n < 2 ^ 63 then some (.integer n) else none

/-- An integer in base 16, 8 or 2, after its mark. -/
def basedInteger? (base : Nat) (cs : List Char) : Option (Toml × List Char) := do
  let ok (c : Char) : Bool := (hexValue? c).any (· < base)
  let (ds, rest) ← digitRun? ok cs
  let n := ds.foldl (fun n c => base * n + (hexValue? c).getD 0) 0
  pure (← integer? n, rest)

/-- A fraction, and what follows; nothing where there is no point. -/
def fraction? : List Char → Option (List Char × List Char)
  | '.' :: rest => digitRun? Char.isDigit rest
  | rest => some ([], rest)

/-- An exponent, and what follows; nothing where there is no `e`. -/
def exponent? (cs : List Char) : Option (Option Int × List Char) :=
  match cs with
  | c :: rest =>
    if c = 'e' ∨ c = 'E' then
      let (negative, rest) := splitSign rest
      (digitRun? Char.isDigit rest).map fun p =>
        (some (if negative then -(digitsValue p.1 : Int) else digitsValue p.1), p.2)
    else some (none, cs)
  | [] => some (none, [])

/-- A floating-point number from its parts; one too large for a finite number is refused, unless
it is negative. -/
def float? (negative : Bool) (x : Decimal) : Option Toml :=
  let y := Double.ofDecimal negative x
  if !negative && !y.isFinite then none else some (.float y)

/-- A decimal number: with a fraction or an exponent a floating-point number, else an integer. -/
def decimalNumber? (cs : List Char) : Option (Toml × List Char) := do
  let (negative, rest) := splitSign cs
  let (whole, rest) ← wholeDigits? rest
  let (fraction, rest) ← fraction? rest
  let (e, rest) ← exponent? rest
  if fraction.isEmpty && e.isNone then
    let n : Int := digitsValue whole
    pure (← integer? (if negative then -n else n), rest)
  else
    let x : Decimal := ⟨digitsValue (whole ++ fraction), e.getD 0 - fraction.length⟩
    pure (← float? negative x, rest)

/-- Infinity or NaN, with or without a sign. -/
def special? (cs : List Char) : Option (Toml × List Char) :=
  let (negative, rest) := splitSign cs
  match afterStart? "inf".toList rest with
  | some rest => some (.float (.infinity negative), rest)
  | none => (afterStart? "nan".toList rest).map fun rest => (.float .nan, rest)

def number? (cs : List Char) : Option (Toml × List Char) :=
  match cs with
  | '0' :: 'x' :: rest => basedInteger? 16 rest
  | '0' :: 'o' :: rest => basedInteger? 8 rest
  | '0' :: 'b' :: rest => basedInteger? 2 rest
  | _ => (decimalNumber? cs).or (special? cs)

/-! ### Moments -/

/-- Exactly `width` digits of a number in a range, and what follows. -/
def field? (width lo hi : Nat) (cs : List Char) : Option (Nat × List Char) :=
  let ds := cs.take width
  let n := digitsValue ds
  if ds.length = width ∧ ds.all Char.isDigit ∧ lo ≤ n ∧ n ≤ hi then some (n, cs.drop width) else none

/-- What follows a date. -/
def date? (cs : List Char) : Option (List Char) := do
  let (year, cs) ← field? 4 0 9999 cs
  let (month, cs) ← field? 2 1 12 (← afterStart? ['-'] cs)
  let (_, cs) ← field? 2 1 (daysInMonth year month) (← afterStart? ['-'] cs)
  pure cs

/-- What follows a time of day, its second and fraction included. -/
def time? (cs : List Char) : Option (List Char) := do
  let (_, cs) ← field? 2 0 23 cs
  let (_, cs) ← field? 2 0 59 (← afterStart? [':'] cs)
  let (_, cs) ← field? 2 0 60 (← afterStart? [':'] cs)
  match cs with
  | '.' :: d :: rest => pure (if d.isDigit then rest.dropWhile Char.isDigit else cs)
  | _ => pure cs

/-- What follows an offset, if there is one. -/
def skipOffset (cs : List Char) : List Char :=
  match cs with
  | 'Z' :: rest | 'z' :: rest => rest
  | '+' :: rest | '-' :: rest =>
    (do
      let (_, rest) ← field? 2 0 23 rest
      let (_, rest) ← field? 2 0 59 (← afterStart? [':'] rest)
      pure rest).getD cs
  | _ => cs

/-- What follows a moment. -/
def moment? (cs : List Char) : Option (List Char) :=
  match date? cs with
  | none => time? cs
  | some rest =>
    match rest with
    | c :: after =>
      if c = 'T' ∨ c = 't' ∨ c = ' ' then some (((time? after).map skipOffset).getD rest)
      else some rest
    | [] => some []

/-- A value that is one word, and what follows it. -/
def scalar? (cs : List Char) : Option (Toml × List Char) :=
  match cs with
  | 't' :: rest => (afterStart? "rue".toList rest).map (.boolean true, ·)
  | 'f' :: rest => (afterStart? "alse".toList rest).map (.boolean false, ·)
  | _ =>
    match moment? cs with
    | some rest => some (.moment, rest)
    | none => number? cs

end PreparedSql.Toml
