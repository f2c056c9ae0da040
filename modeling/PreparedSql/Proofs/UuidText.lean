import PreparedSql.Proofs.Numerals
import PreparedSql.Uuid

/-!
# A UUID is read back

The groups of a UUID's text hold no hyphen, so splitting the text at its hyphens gives just those
groups, and their digits write the number of the UUID (`Uuid.read?_text`).
-/

namespace PreparedSql

/-! ### Splitting -/

theorem splitAtEach_of_notMem {c : Char} {cs : List Char} (h : c ∉ cs) :
    splitAtEach c cs = [cs] := by
  induction cs with
  | nil => rfl
  | cons x cs ih =>
      simp only [List.mem_cons, not_or] at h
      rw [splitAtEach, if_neg (Ne.symm h.1), ih h.2]

/-- The first part ends at the first occurrence. -/
theorem splitAtEach_append {c : Char} {cs : List Char} (h : c ∉ cs) (rest : List Char) :
    splitAtEach c (cs ++ c :: rest) = cs :: splitAtEach c rest := by
  induction cs with
  | nil => rw [List.nil_append, splitAtEach, if_pos rfl]
  | cons x cs ih =>
      simp only [List.mem_cons, not_or] at h
      rw [List.cons_append, splitAtEach, if_neg (Ne.symm h.1), ih h.2]

namespace Uuid

theorem hyphen_notMem_hexDigits (width n : Nat) : '-' ∉ hexDigits width n :=
  fun hyphen => absurd (isAlphanum_of_mem_hexDigits _ hyphen) (by decide)

/-- The digits of each group. -/
def groups (u : Uuid) : List (List Char) :=
  let ds := hexDigits 32 u.val.toNat
  [ds.take 8, (ds.drop 8).take 4, (ds.drop 12).take 4, (ds.drop 16).take 4, ds.drop 20]

/-- The groups are cut from the digits, so together they are the digits. -/
theorem flatten_groups (u : Uuid) : u.groups.flatten = hexDigits 32 u.val.toNat := by
  simp only [groups, List.flatten_cons, List.flatten_nil, List.append_nil]
  generalize hexDigits 32 u.val.toNat = ds
  have cut (i j : Nat) : (ds.drop i).take j ++ ds.drop (i + j) = ds.drop i := by
    rw [← List.drop_drop]
    exact List.take_append_drop j (ds.drop i)
  rw [cut 16 4, cut 12 4, cut 8 4]
  exact List.take_append_drop 8 ds

theorem length_groups (u : Uuid) : u.groups.map List.length = [8, 4, 4, 4, 12] := by
  simp [groups, length_hexDigits]

/-- A hyphen in the text is one between groups. -/
theorem hyphen_notMem_groups (u : Uuid) : ∀ group ∈ u.groups, '-' ∉ group := by
  have digits := hyphen_notMem_hexDigits 32 u.val.toNat
  intro group hgroup hyphen
  refine digits ?_
  rw [← flatten_groups]
  exact List.mem_flatten_of_mem hgroup hyphen

/-- The text is cut where the groups were joined. -/
theorem splitAtEach_chars (u : Uuid) : splitAtEach '-' u.chars = u.groups := by
  have free := u.hyphen_notMem_groups
  simp only [groups, List.forall_mem_cons] at free
  obtain ⟨h₁, h₂, h₃, h₄, h₅, -⟩ := free
  simp only [chars, List.append_assoc, List.cons_append]
  rw [splitAtEach_append h₁, splitAtEach_append h₂, splitAtEach_append h₃, splitAtEach_append h₄,
    splitAtEach_of_notMem h₅]
  rfl

theorem hyphenated?_chars (u : Uuid) : hyphenated? u.chars = some u := by
  have small : u.val.toNat % 16 ^ 32 = u.val.toNat := Nat.mod_eq_of_lt u.val.isLt
  rw [hyphenated?, splitAtEach_chars]
  simp only [length_groups, if_true, flatten_groups, ofDigits?, readHex?_hexDigits, small,
    Option.map_some, BitVec.ofNat_toNat, BitVec.setWidth_eq]

/-- A UUID in this form is told from the form without hyphens by its length. -/
theorem length_chars (u : Uuid) : u.chars.length = 36 := by
  simp [chars, length_hexDigits]

/-- The ninth character is a hyphen, so the text does not start like a URN. -/
theorem take_chars_ne_urn (u : Uuid) :
    (u.chars.take 9).map Char.toLower ≠ "urn:uuid:".toList := by
  intro h
  have ninth : u.chars[8]? = some '-' := by
    simp [chars, length_hexDigits]
  have urn := congrArg (·[8]?) h
  simp [ninth] at urn

/-- **A UUID's text is read back as that UUID.** -/
theorem read?_text (u : Uuid) : read? u.text = some u := by
  simp only [read?, text, String.toList_ofList, length_chars]
  rw [if_neg (by decide), if_neg (by decide), if_neg u.take_chars_ne_urn]
  exact u.hyphenated?_chars

end Uuid

end PreparedSql
