import PreparedSql.Proofs.AcceptedBindings
import PreparedSql.Proofs.SimpleCells

/-!
# Names in cells and in bindings

A cell begins with a colon or a dollar sign, which tells a name from a position.  A binding has no
such mark: its key is a position if it is a number, and else a name.  So a name that is a number can
stand in a cell, but no binding is for it.

* `named_slot_bound`: which names can be bound.
* `not_namesBound`: not all can.
-/

namespace PreparedSql

/-- The text that assigns a value to a name. -/
def assignment (name value : String) : String := name ++ "=" ++ value

section

variable {name : String} (h : '=' ∉ name.toList) (value : String)

include h

theorem cutAt?_assignment :
    cutAt? ['='] (assignment name value).toList = some (name.toList, value.toList) := by
  have text : (assignment name value).toList = name.toList ++ '=' :: value.toList := by
    simp [assignment]
  rw [text, cutAt?_of_notMem h]

theorem parts_assignment :
    keyOf (assignment name value) = name.toList ∧ literalOf (assignment name value) = value := by
  have sign : '=' ∈ (assignment name value).toList := by simp [assignment]
  have cut := cutAt?_assignment h value
  rw [cutAt?_singleton, if_pos sign] at cut
  obtain ⟨key, literal⟩ := Prod.mk.inj (Option.some.inj cut)
  exact ⟨key, by rw [literalOf, literal, String.ofList_toList]⟩

end

/-- The name is bound by every assignment to it: the assignment alone is accepted, and the name has
the literal that it writes. -/
def BoundByAssignment (name : String) : Prop :=
  ∀ value : String, ∃ b, Bindings.ofTexts [assignment name value] = .ok b ∧
    b.resolve [.named name] = .ok [.ofText value]

theorem boundByAssignment {name : String} (h : '=' ∉ name.toList)
    (word : readUInt64? name.toList = none) : BoundByAssignment name := by
  intro value
  obtain ⟨key, literal⟩ := parts_assignment h value
  have place : positionOf? (assignment name value) = none := by rw [positionOf?, key, word]
  have binding : IsBinding (assignment name value) :=
    ⟨by simp [assignment], by simp [place]⟩
  obtain ⟨b, accepted⟩ := Bindings.exists_ofTexts_iff.2
    ⟨List.forall_mem_singleton.2 binding, 0, by simp [positionsOf, place]⟩
  refine ⟨b, accepted, ?_⟩
  have last : ∀ t ∈ ([] : List String), keyOf t ≠ keyOf (assignment name value) :=
    List.forall_mem_nil _
  have bound := Bindings.resolve_name accepted (List.nil_append _).symm place last
  rwa [key, literal, String.ofList_toList] at bound

/-- What is assigned to a number is for the position of that number, and there is no position 0. -/
theorem readBinding_numeral {name : String} (h : '=' ∉ name.toList) {n : UInt64}
    (number : readUInt64? name.toList = some n) (value : String) :
    readBinding (assignment name value) =
      if n = 0 then .error .positionZero else .ok (.positional n, .ofText value) := by
  rw [readBinding, cutAt?_assignment h]
  simp only [number, String.ofList_toList]
  rfl

/-- No binding is for a name that is a number. -/
theorem resolve_numeral {name : String} (number : readUInt64? name.toList ≠ none)
    {texts : List String} {b : Bindings} (accepted : Bindings.ofTexts texts = .ok b) :
    b.resolve [.named name] = .error (.missingArgument (Slot.named name).text) := by
  refine Bindings.resolve_unbound accepted fun t _ same => number ?_
  rw [← String.ofList_toList (s := name)] at same
  have key := eq_of_slotOfKey_eq_named same
  rw [key, slotOfKey] at same
  split at same
  · cases same
  · assumption

/-- **Which names can be bound.**  A colon and a name is the slot of that name.  If the name is not
a number, an assignment to it binds the slot to the literal of the value, whatever the value is; and
if it is one, the assignment is for the position of that number, and no texts bind the slot. -/
theorem named_slot_bound {name : String} (h : '=' ∉ name.toList) :
    Cell.ofText (":" ++ name) = .slot (.named name) ∧
      (readUInt64? name.toList = none → BoundByAssignment name) ∧
      (∀ n, readUInt64? name.toList = some n → ∀ value,
        readBinding (assignment name value) =
          if n = 0 then .error .positionZero else .ok (.positional n, .ofText value)) ∧
      (readUInt64? name.toList ≠ none → ∀ texts b, Bindings.ofTexts texts = .ok b →
        b.resolve [.named name] = .error (.missingArgument (Slot.named name).text)) := by
  refine ⟨?_, boundByAssignment h, fun _ => readBinding_numeral h,
    fun number texts b => resolve_numeral number⟩
  have cell := Cell.ofText_colon name.toList
  rwa [String.ofList_toList, String.ofList_cons, String.ofList_toList] at cell

/-- A name that is a number but for its sign, and a value with an equals sign. -/
theorem negative_slot_bound :
    '=' ∉ "-1".toList ∧ Cell.ofText ":-1" = .slot (.named "-1") ∧
      ∃ b, Bindings.ofTexts ["-1=a=b"] = .ok b ∧
        b.resolve [.named "-1"] = .ok [.ofText "a=b"] := by
  have cut : '=' ∉ "-1".toList := by decide
  obtain ⟨cell, bound, -⟩ := named_slot_bound cut
  exact ⟨cut, cell, bound (by decide) "a=b"⟩

/-- **Every name can be bound** in the form that cells have for it.  It does not hold
(`not_namesBound`). -/
def NamesBound : Prop :=
  ∀ name : String, name ≠ "" → '=' ∉ name.toList →
    Cell.ofText (":" ++ name) = .slot (.named name) ∧ BoundByAssignment name

/-- The name is the number 1. -/
theorem not_namesBound : ¬ NamesBound := by
  intro h
  obtain ⟨-, bound⟩ := h "1" (by decide) (by decide)
  obtain ⟨b, accepted, value⟩ := bound "x"
  rw [resolve_numeral (by decide) accepted] at value
  cases value

end PreparedSql
