/-!
# Text

What is asked of text everywhere: its letters in lower case, its blanks taken off the ends, and the
parts between separators.  A text is a list of characters, or a string where it is whole.
-/

namespace PreparedSql

/-! ### Letter case -/

/-- The text with its ASCII letters in lower case; all other characters stay as they are. -/
def lowerCase (s : String) : String := String.ofList (s.toList.map Char.toLower)

/-! ### Blanks -/

/-- The ranges of the Unicode property White_Space, first and last code point. -/
def blankRanges : List (Nat × Nat) :=
  [(0x09, 0x0D), (0x20, 0x20), (0x85, 0x85), (0xA0, 0xA0), (0x1680, 0x1680), (0x2000, 0x200A),
   (0x2028, 0x2029), (0x202F, 0x202F), (0x205F, 0x205F), (0x3000, 0x3000)]

def isBlank (c : Char) : Bool := blankRanges.any fun r => r.1 ≤ c.toNat && c.toNat ≤ r.2

/-- The text without the blanks in front. -/
def trimStart (cs : List Char) : List Char := cs.dropWhile isBlank

/-- The text without the blanks at its end. -/
def trimEnd (cs : List Char) : List Char := (cs.reverse.dropWhile isBlank).reverse

def trim (cs : List Char) : List Char := trimEnd (trimStart cs)

/-! ### Separators -/

/-- The parts between the occurrences of `c`; there is always at least one. -/
def splitAtEach (c : Char) : List Char → List (List Char)
  | [] => [[]]
  | x :: rest =>
    if x = c then [] :: splitAtEach c rest
    else match splitAtEach c rest with
      | part :: parts => (x :: part) :: parts
      | [] => [[x]]

/-- What stands after `start`, if the text starts with it. -/
def afterStart? : (start : List Char) → List Char → Option (List Char)
  | [], cs => some cs
  | s :: start, c :: cs => if s = c then afterStart? start cs else none
  | _ :: _, [] => none

/-- What stands before and after the first occurrence of `separator`. -/
def cutAt? (separator : List Char) : List Char → Option (List Char × List Char)
  | [] => if separator.isEmpty then some ([], []) else none
  | c :: cs =>
    match afterStart? separator (c :: cs) with
    | some rest => some ([], rest)
    | none => (cutAt? separator cs).map fun p => (c :: p.1, p.2)

/-- Whether `part` occurs somewhere in the text. -/
def occursIn (part cs : List Char) : Bool := (cutAt? part cs).isSome

/-- The texts one after the other with `separator` between them. -/
def joinWith (separator : List Char) : List (List Char) → List Char
  | [] => []
  | [cs] => cs
  | cs :: rest => cs ++ separator ++ joinWith separator rest

theorem splitAtEach_ne_nil (c : Char) (cs : List Char) : splitAtEach c cs ≠ [] := by
  cases cs with
  | nil => simp [splitAtEach]
  | cons x rest =>
    simp only [splitAtEach]
    split
    · simp
    · split <;> simp

end PreparedSql
