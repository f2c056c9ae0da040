/-!
# Quoted text

Inside quotes a chosen character is written twice. `replaceAll` is the general rule, replacing one
character by a text; `doubled` is the case used by quoting, and `undoubled` its inverse reading
from left to right, which leaves a character that stands alone as it is. `betweenQuotes?` and
`betweenBrackets?` take off what stands around a text.
-/

namespace PreparedSql

/-- Every `c` replaced by `text`, the rest unchanged. -/
def replaceAll (c : Char) (text : List Char) (cs : List Char) : List Char :=
  cs.flatMap fun x => if x = c then text else [x]

/-- Every `c` written twice. -/
def doubled (c : Char) (cs : List Char) : List Char := replaceAll c [c, c] cs

/-- Two `c` in a row, from left to right, read as one. -/
def undoubled (c : Char) : List Char → List Char
  | a :: b :: rest => if a = c ∧ b = c then c :: undoubled c rest else a :: undoubled c (b :: rest)
  | rest => rest

/-- The text in single quotes, with single quotes inside written twice. -/
def singleQuoted (cs : List Char) : List Char := '\'' :: (doubled '\'' cs ++ ['\''])

/-- What stands between a single quote in front and another one at the end. -/
def betweenQuotes? : List Char → Option (List Char)
  | '\'' :: rest => if rest.getLast? = some '\'' then some rest.dropLast else none
  | _ => none

/-- What stands between a bracket in front and its counterpart at the end. -/
def betweenBrackets? : List Char → Option (List Char)
  | '[' :: rest => if rest.getLast? = some ']' then some rest.dropLast else none
  | _ => none

theorem undoubled_cons_self (c : Char) (rest : List Char) :
    undoubled c (c :: c :: rest) = c :: undoubled c rest := by simp [undoubled]

theorem undoubled_cons_of_ne {c a : Char} (h : a ≠ c) (rest : List Char) :
    undoubled c (a :: rest) = a :: undoubled c rest := by
  cases rest <;> simp [undoubled, h]

/-- Quoting loses nothing. -/
theorem undoubled_doubled (c : Char) (cs : List Char) : undoubled c (doubled c cs) = cs := by
  induction cs with
  | nil => rfl
  | cons a rest ih =>
    by_cases h : a = c
    · subst h
      calc undoubled a (doubled a (a :: rest))
          = undoubled a (a :: a :: doubled a rest) := by simp [doubled, replaceAll]
        _ = a :: rest := by rw [undoubled_cons_self, ih]
    · calc undoubled c (doubled c (a :: rest))
          = undoubled c (a :: doubled c rest) := by simp [doubled, replaceAll, h]
        _ = a :: rest := by rw [undoubled_cons_of_ne h, ih]

end PreparedSql
