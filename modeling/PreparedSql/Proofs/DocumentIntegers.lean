import PreparedSql.Toml.Reading

/-!
# The integers of a TOML document

An integer that a document gives to a name has 64 bits.  It is so when the integer is read, and what
is put together from entries holds the values of the entries and tables besides.

* `value?_fits`: a value that is read is no integer of more than 64 bits.
* `Document.add_fits`: an entry adds its value, if it is for the table of the document, and tables.
* `read?_fits`: no member of a document is an integer of more than 64 bits.
-/

namespace PreparedSql.Toml

/-- If the value is an integer, it is a signed one of 64 bits. -/
def Fits (x : Toml) : Prop := ∀ n, x = .integer n → -2 ^ 63 ≤ n ∧ n < 2 ^ 63

/-! ### Values -/

/-- The bound is checked where an integer is made. -/
theorem fits_of_integer? {n : Int} {x : Toml} (h : integer? n = some x) : x.Fits := by
  rw [integer?] at h
  split at h
  · next within =>
      obtain rfl := Option.some.inj h
      intro m same
      rwa [← Toml.integer.inj same]
  · cases h

theorem fits_of_float? {negative : Bool} {d : Decimal} {x : Toml} (h : float? negative d = some x) :
    x.Fits := by
  rw [float?] at h
  split at h
  · cases h
  · obtain rfl := Option.some.inj h
    exact nofun

/-- Hexadecimal, octal and binary integers have the bound of the decimal ones. -/
theorem fits_of_basedInteger? {base : Nat} {cs rest : List Char} {x : Toml}
    (h : basedInteger? base cs = some (x, rest)) : x.Fits := by
  simp only [basedInteger?, Option.bind_eq_bind, Option.bind_eq_some_iff] at h
  obtain ⟨_, -, _, integer, made⟩ := h
  obtain ⟨rfl, -⟩ := Prod.mk.inj (Option.some.inj made)
  exact fits_of_integer? integer

theorem fits_of_decimalNumber? {cs rest : List Char} {x : Toml}
    (h : decimalNumber? cs = some (x, rest)) : x.Fits := by
  simp only [decimalNumber?, Option.bind_eq_bind, Option.bind_eq_some_iff] at h
  obtain ⟨_, -, _, -, _, -, made⟩ := h
  split at made
  · obtain ⟨_, integer, made⟩ := Option.bind_eq_some_iff.1 made
    obtain ⟨rfl, -⟩ := Prod.mk.inj (Option.some.inj made)
    exact fits_of_integer? integer
  · obtain ⟨_, float, made⟩ := Option.bind_eq_some_iff.1 made
    obtain ⟨rfl, -⟩ := Prod.mk.inj (Option.some.inj made)
    exact fits_of_float? float

/-- The words for infinity and NaN are no integers. -/
theorem fits_of_special? {cs rest : List Char} {x : Toml} (h : special? cs = some (x, rest)) :
    x.Fits := by
  simp only [special?] at h
  split at h
  · obtain ⟨rfl, -⟩ := Prod.mk.inj (Option.some.inj h)
    exact nofun
  · obtain ⟨_, -, made⟩ := Option.map_eq_some_iff.1 h
    obtain ⟨rfl, -⟩ := Prod.mk.inj made
    exact nofun

theorem fits_of_number? {cs rest : List Char} {x : Toml} (h : number? cs = some (x, rest)) :
    x.Fits := by
  unfold number? at h
  split at h
  · exact fits_of_basedInteger? h
  · exact fits_of_basedInteger? h
  · exact fits_of_basedInteger? h
  · rcases Option.or_eq_some_iff.1 h with decimal | ⟨-, special⟩
    · exact fits_of_decimalNumber? decimal
    · exact fits_of_special? special

/-- Whatever a value begins with, its reader makes integers through `integer?` alone. -/
theorem fits_of_scalar? {cs rest : List Char} {x : Toml} (h : scalar? cs = some (x, rest)) :
    x.Fits := by
  unfold scalar? at h
  split at h
  · obtain ⟨_, -, made⟩ := Option.map_eq_some_iff.1 h
    obtain ⟨rfl, -⟩ := Prod.mk.inj made
    exact nofun
  · obtain ⟨_, -, made⟩ := Option.map_eq_some_iff.1 h
    obtain ⟨rfl, -⟩ := Prod.mk.inj made
    exact nofun
  · split at h
    · obtain ⟨rfl, -⟩ := Prod.mk.inj (Option.some.inj h)
      exact nofun
    · exact fits_of_number? h

/-- A value that is read is no integer of more than 64 bits. -/
theorem value?_fits {fuel depth : Nat} {cs rest : List Char} {x : Toml}
    (h : value? fuel depth cs = some (x, rest)) : x.Fits := by
  have of_map {α : Type} {f : α → Toml × List Char} {o : Option α}
      (h : o.map f = some (x, rest)) (other : ∀ a n, (f a).1 ≠ .integer n) : x.Fits := by
    obtain ⟨a, -, made⟩ := Option.map_eq_some_iff.1 h
    intro n same
    exact absurd (by rw [made]; exact same) (other a n)
  unfold value? at h
  split at h
  · cases h
  · split at h
    · exact of_map h fun _ _ => Toml.noConfusion
    · exact of_map h fun _ _ => Toml.noConfusion
    · split at h
      · cases h
      · cases h; exact nofun
      · exact of_map h fun _ _ => Toml.noConfusion
    · split at h
      · cases h
      · cases h; exact nofun
      · simp only [Option.bind_eq_bind, Option.bind_eq_some_iff] at h
        obtain ⟨_, -, _, -, made⟩ := h
        obtain ⟨rfl, -⟩ := Prod.mk.inj (Option.some.inj made)
        exact nofun
    · exact fits_of_scalar? h

/-! ### Entries -/

/-- The value of an entry, if it has one, is no integer of more than 64 bits. -/
def Entry.Fits : Entry → Prop
  | .member _ value => value.Fits
  | .header _ | .itemHeader _ => True

theorem entry?_fits {cs rest : List Char} {e : Entry} (h : entry? cs = some (e, rest)) :
    e.Fits := by
  unfold entry? at h
  split at h
  · simp only [Option.bind_eq_bind, Option.bind_eq_some_iff] at h
    obtain ⟨_, -, _, -, _, -, made⟩ := h
    obtain ⟨rfl, -⟩ := Prod.mk.inj (Option.some.inj made)
    trivial
  · simp only [Option.bind_eq_bind, Option.bind_eq_some_iff] at h
    obtain ⟨_, -, _, -, _, -, made⟩ := h
    obtain ⟨rfl, -⟩ := Prod.mk.inj (Option.some.inj made)
    trivial
  · simp only [Option.bind_eq_bind, Option.bind_eq_some_iff] at h
    obtain ⟨_, -, _, -, _, value, _, -, made⟩ := h
    obtain ⟨rfl, -⟩ := Prod.mk.inj (Option.some.inj made)
    exact value?_fits value

/-- The lines of a document are read one by one. -/
theorem entries?_fits {fuel : Nat} {cs : List Char} {entries : List Entry}
    (h : entries? fuel cs = some entries) : ∀ e ∈ entries, e.Fits := by
  induction fuel generalizing cs entries with
  | zero => cases h
  | succ fuel ih =>
      rw [entries?] at h
      split at h
      · obtain rfl := Option.some.inj h
        exact nofun
      · split at h
        · obtain ⟨_, -, rest⟩ := Option.bind_eq_some_iff.1 h
          exact ih rest
        · simp only [Option.bind_eq_bind, Option.bind_eq_some_iff] at h
          obtain ⟨_, entry, _, others, made⟩ := h
          obtain rfl := Option.some.inj made
          exact List.forall_mem_cons.2 ⟨entry?_fits entry, ih others⟩

/-! ### Documents -/

/-- No member is an integer of more than 64 bits. -/
def Members.Fits (ms : Members) : Prop := ∀ m ∈ ms, m.2.Fits

/-- What is taken out of a table was put into it. -/
theorem Members.Fits.get? {ms : Members} (h : ms.Fits) {name : String} {x : Toml}
    (found : ms.get? name = some x) : x.Fits := by
  obtain ⟨before, after, rfl, -⟩ := List.lookup_eq_some_iff.1 found
  exact h (name, x) (List.mem_append_right before List.mem_cons_self)

/-- A member that is written takes the place of one, or comes last. -/
theorem Members.Fits.set {ms : Members} (h : ms.Fits) {value : Toml} (fits : value.Fits)
    (name : String) : (ms.set name value).Fits := by
  induction ms with
  | nil => exact List.forall_mem_singleton.2 fits
  | cons m ms ih =>
      obtain ⟨first, others⟩ := List.forall_mem_cons.1 h
      rw [Members.set]
      split
      · exact List.forall_mem_cons.2 ⟨fits, others⟩
      · exact List.forall_mem_cons.2 ⟨first, ih others⟩

/-- A table that can be added to, or several of them. -/
def isTable : Toml → Bool
  | .table .. | .tableItems .. => true
  | _ => false

theorem fits_of_isTable {x : Toml} (h : x.isTable = true) : x.Fits := by
  rintro n rfl
  cases h

/-- A change at the end of a path sets nothing but tables on its way. -/
theorem changeAt_fits {naming : Naming} {f : TableOrigin → Members → Option Members}
    (keeps : ∀ {origin ms ms'}, Members.Fits ms → f origin ms = some ms' → Members.Fits ms')
    {path : List String} {origin : TableOrigin} {ms ms' : Members} (fits : ms.Fits)
    (h : changeAt naming f path origin ms = some ms') : ms'.Fits := by
  cases path with
  | nil => exact keeps fits h
  | cons name path =>
      unfold changeAt at h
      split at h
      · obtain ⟨_, -, rfl⟩ := Option.map_eq_some_iff.1 h
        exact fits.set (fits_of_isTable rfl) name
      · split at h
        · cases h
        · obtain ⟨_, -, rfl⟩ := Option.map_eq_some_iff.1 h
          exact fits.set (fits_of_isTable rfl) name
      · obtain ⟨_, -, rfl⟩ := Option.map_eq_some_iff.1 h
        exact fits.set (fits_of_isTable rfl) name
      · cases h

/-- A dotted key goes down through tables, and only the last part is given the value. -/
theorem addMember_fits {key : Key} {value : Toml} (hv : value.Fits) {origin : TableOrigin}
    {ms ms' : Members} (fits : ms.Fits) (h : addMember key value origin ms = some ms') :
    ms'.Fits := by
  refine changeAt_fits (fun fits added => ?_) fits h
  split at added
  · cases added
  · split at added
    · cases added
    · obtain rfl := Option.some.inj added
      exact fits.set hv key.name

theorem openTable_fits {name : String} {ms ms' : Members} (fits : ms.Fits)
    (h : openTable name ms = some ms') : ms'.Fits := by
  rw [openTable] at h
  split at h
  · obtain rfl := Option.some.inj h
    exact fits.set (fits_of_isTable rfl) name
  · obtain rfl := Option.some.inj h
    exact fits.set (fits_of_isTable rfl) name
  · cases h

theorem openItem_fits {name : String} {ms ms' : Members} (fits : ms.Fits)
    (h : openItem name ms = some ms') : ms'.Fits := by
  rw [openItem] at h
  split at h
  · obtain rfl := Option.some.inj h
    exact fits.set (fits_of_isTable rfl) name
  · obtain rfl := Option.some.inj h
    exact fits.set (fits_of_isTable rfl) name
  · cases h

/-- An entry adds its value, if it is for the table of the document, and tables. -/
theorem Document.add_fits {d d' : Document} {e : Entry} (fits : d.members.Fits) (he : e.Fits)
    (h : d.add e = some d') : d'.members.Fits := by
  cases e with
  | member key value =>
      obtain ⟨_, changed, rfl⟩ := Option.map_eq_some_iff.1 h
      exact changeAt_fits (addMember_fits he) fits changed
  | header key =>
      obtain ⟨_, changed, rfl⟩ := Option.map_eq_some_iff.1 h
      exact changeAt_fits openTable_fits fits changed
  | itemHeader key =>
      obtain ⟨_, changed, rfl⟩ := Option.map_eq_some_iff.1 h
      exact changeAt_fits openItem_fits fits changed

/-- The document is put together line by line, from members that fit. -/
theorem foldlM_add_fits {entries : List Entry} (he : ∀ e ∈ entries, e.Fits) {d d' : Document}
    (fits : d.members.Fits) (h : entries.foldlM Document.add d = some d') : d'.members.Fits := by
  induction entries generalizing d with
  | nil =>
      obtain rfl := Option.some.inj h
      exact fits
  | cons e entries ih =>
      obtain ⟨first, others⟩ := List.forall_mem_cons.1 he
      rw [List.foldlM_cons] at h
      obtain ⟨_, added, rest⟩ := Option.bind_eq_some_iff.1 h
      exact ih others (Document.add_fits fits first added) rest

/-- **No member of a document is an integer of more than 64 bits.** -/
theorem read?_fits {s : String} {ms : Members} (h : read? s = some ms) : ms.Fits := by
  obtain ⟨entries, read, h⟩ := Option.bind_eq_some_iff.1 h
  obtain ⟨d, together, rfl⟩ := Option.map_eq_some_iff.1 h
  exact foldlM_add_fits (entries?_fits read) (fun _ hm => absurd hm List.not_mem_nil) together

end PreparedSql.Toml
