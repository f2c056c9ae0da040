import PreparedSql.Value.Conversion

/-!
# Fields

A field of a record is addressed by a path and written from a value. A leaf has a path of one name;
the fields of a nested record are reached through a part of the outer one, with one name more in
front of their paths.
-/

namespace PreparedSql

/-- A part of a record: how to read it, and how to put another in its place. -/
structure Part (α β : Type) where
  get : α → β
  put : α → β → α

/-- What is put is what is read then, putting back what was read changes nothing, and of two put
one after the other the second stays. -/
structure Part.Lawful {α β : Type} (p : Part α β) : Prop where
  get_put : ∀ a b, p.get (p.put a b) = b
  put_get : ∀ a, p.put a (p.get a) = a
  put_put : ∀ a b b', p.put (p.put a b) b' = p.put a b'

/-- A part of a part. -/
def Part.comp {α β γ : Type} (outer : Part α β) (inner : Part β γ) : Part α γ where
  get a := inner.get (outer.get a)
  put a c := outer.put a (inner.put (outer.get a) c)

theorem Part.Lawful.comp {α β γ : Type} {outer : Part α β} {inner : Part β γ}
    (ho : outer.Lawful) (hi : inner.Lawful) : (outer.comp inner).Lawful where
  get_put a c := by simp only [Part.comp, ho.get_put, hi.get_put]
  put_get a := by simp only [Part.comp, hi.put_get, ho.put_get]
  put_put a c c' := by simp only [Part.comp, ho.get_put, ho.put_put, hi.put_put]

structure Field (α : Type) where
  path  : List String
  write : α → Value → Except ConversionError α

namespace Field

/-- The column a field is matched with: its path joined by points. -/
def column {α : Type} (f : Field α) : String := String.intercalate "." f.path

/-- A field that is converted from the column's value. -/
def leaf {α β : Type} [ColumnType β] (name : String) (put : α → β → α) : Field α where
  path := [name]
  write target v := put target <$> ColumnType.load v

/-- A field of a nested record, reached through a part of the outer one. -/
def within {α β : Type} (name : String) (part : Part α β) (f : Field β) : Field α where
  path := name :: f.path
  write target v := part.put target <$> f.write (part.get target) v

/-- The fields of a nested record. -/
def nested {α β : Type} (name : String) (part : Part α β) (fields : List (Field β)) :
    List (Field α) := fields.map (within name part)

end Field

end PreparedSql
