import PreparedSql.Pool.Configuration
import PreparedSql.Proofs.DocumentIntegers
import PreparedSql.Proofs.DocumentLines
import PreparedSql.Proofs.Hydration

/-!
# Configurations in files

A configuration that is loaded is normalized, so nothing in it is zero and normalizing it again
changes nothing.  Its numbers come from a file or are defaults, so they can be written to a file,
and the file that is written is read as the same configuration.

* `isNormal_normalized`, `IsNormal.normalized_eq`: what normalizing gives, and that once is enough.
* `ofToml_fileText`: what is written is read back, and normalized.
* `loaded_configuration_stable`: a configuration that is loaded can be saved and loaded again.
-/

namespace PreparedSql.PoolConfiguration

open Toml (Line Members)

variable {c : PoolConfiguration}

/-! ### Normalized configurations -/

/-- Everything is set, and no more connections may be idle than open. -/
structure IsNormal (c : PoolConfiguration) : Prop where
  maxOpen        : 1 ≤ c.maxOpen
  maxIdle        : 1 ≤ c.maxIdle ∧ c.maxIdle ≤ c.maxOpen
  maxLifetime    : 1 ≤ c.maxLifetime
  maxIdleTime    : 1 ≤ c.maxIdleTime
  connectTimeout : 1 ≤ c.connectTimeout

theorem one_le_iff_ne_zero₃₂ {n : UInt32} : 1 ≤ n ↔ n ≠ 0 := by
  rw [UInt32.le_iff_toNat_le, ne_eq, ← UInt32.toNat_inj]
  exact Nat.one_le_iff_ne_zero

theorem one_le_iff_ne_zero₆₄ {n : UInt64} : 1 ≤ n ↔ n ≠ 0 := by
  rw [UInt64.le_iff_toNat_le, ne_eq, ← UInt64.toNat_inj]
  exact Nat.one_le_iff_ne_zero

/-- Normalizing leaves nothing unset, and no more idle connections than open ones. -/
theorem isNormal_normalized (c : PoolConfiguration) : c.normalized.IsNormal := by
  have count {default : UInt32} (set : 1 ≤ default) (n : UInt32) :
      1 ≤ if n = 0 then default else n := by
    split
    · exact set
    · exact one_le_iff_ne_zero₃₂.2 ‹_›
  have limit {default : UInt64} (set : 1 ≤ default) (n : UInt64) :
      1 ≤ if n = 0 then default else n := by
    split
    · exact set
    · exact one_le_iff_ne_zero₆₄.2 ‹_›
  have maxOpen := count (by decide : 1 ≤ ({} : PoolConfiguration).maxOpen) c.maxOpen
  have maxIdle := count (by decide : 1 ≤ ({} : PoolConfiguration).maxIdle) c.maxIdle
  exact {
    maxOpen        := maxOpen
    maxIdle        := ⟨Std.le_min_iff.2 ⟨maxIdle, maxOpen⟩, Std.min_le_right⟩
    maxLifetime    := limit (by decide) c.maxLifetime
    maxIdleTime    := limit (by decide) c.maxIdleTime
    connectTimeout := limit (by decide) c.connectTimeout }

/-- Normalizing changes nothing where everything is set. -/
theorem IsNormal.normalized_eq (h : c.IsNormal) : c.normalized = c := by
  have idle : min c.maxIdle c.maxOpen = c.maxIdle := if_pos h.maxIdle.2
  rw [normalized, if_neg (one_le_iff_ne_zero₃₂.1 h.maxOpen),
    if_neg (one_le_iff_ne_zero₃₂.1 h.maxIdle.1), if_neg (one_le_iff_ne_zero₆₄.1 h.maxLifetime),
    if_neg (one_le_iff_ne_zero₆₄.1 h.maxIdleTime),
    if_neg (one_le_iff_ne_zero₆₄.1 h.connectTimeout), idle]

/-! ### Writing -/

/-- The natural members of a file, in their order. -/
def naturals (c : PoolConfiguration) : List (String × Nat) :=
  [("max_open", c.maxOpen.toNat), ("max_idle", c.maxIdle.toNat),
    ("max_lifetime_secs", c.maxLifetime.toNat), ("max_idle_time_secs", c.maxIdleTime.toNat),
    ("connect_timeout_secs", c.connectTimeout.toNat)]

/-- The line of a natural member. -/
def naturalLine (p : String × Nat) : Line := ⟨p.1, decimalDigits p.2, .integer p.2⟩

/-- The lines of a file. -/
def lines (c : PoolConfiguration) : List Line :=
  ⟨"url", Toml.quoted c.url, .string c.url⟩ :: c.naturals.map naturalLine

/-- The text of a file. -/
def fileText (c : PoolConfiguration) : String := String.ofList (c.lines.flatMap Line.chars)

/-- The time limits can be written to a file; the numbers of connections always can. -/
structure FitsFile (c : PoolConfiguration) : Prop where
  maxLifetime    : c.maxLifetime.toNat < 2 ^ 63
  maxIdleTime    : c.maxIdleTime.toNat < 2 ^ 63
  connectTimeout : c.connectTimeout.toNat < 2 ^ 63

/-- The defaults fit a file, so normalizing cannot spoil what does. -/
theorem FitsFile.normalized (h : c.FitsFile) : c.normalized.FitsFile := by
  have limit {n default : UInt64} (fits : n.toNat < 2 ^ 63) (set : default.toNat < 2 ^ 63) :
      (if n = 0 then default else n).toNat < 2 ^ 63 := by
    split
    · exact set
    · exact fits
  exact {
    maxLifetime    := limit h.maxLifetime (by decide)
    maxIdleTime    := limit h.maxIdleTime (by decide)
    connectTimeout := limit h.connectTimeout (by decide) }

/-- A file has signed integers of 64 bits, which hold all numbers that fit. -/
theorem FitsFile.naturals_lt (h : c.FitsFile) : ∀ p ∈ c.naturals, p.2 < 2 ^ 63 := by
  have count (n : UInt32) : n.toNat < 2 ^ 63 := n.toNat_lt.trans (by decide)
  simp only [naturals, List.forall_mem_cons]
  exact ⟨count _, count _, h.maxLifetime, h.maxIdleTime, h.connectTimeout, nofun⟩

theorem memberLine_eq (l : Line) : memberLine l.name l.text = String.ofList l.chars := by
  refine String.toList_injective ?_
  simp [memberLine, Line.chars]

/-- A number that fits a file is written as its digits. -/
theorem natLine_eq {p : String × Nat} (fits : p.2 < 2 ^ 63) :
    natLine p.1 p.2 = .ok (String.ofList (naturalLine p).chars) := by
  have within : p.2 ≤ largestInteger := Nat.le_sub_one_of_lt fits
  rw [natLine, if_pos within, ← memberLine_eq]
  rfl

/-- A file is its lines, one after the other. -/
theorem join_chars (ls : List Line) :
    String.join (ls.map fun l => String.ofList l.chars) =
      String.ofList (ls.flatMap Line.chars) := by
  have onto (s : String) : (ls.map fun l => String.ofList l.chars).foldl (· ++ ·) s =
      s ++ String.ofList (ls.flatMap Line.chars) := by
    induction ls generalizing s with
    | nil => exact String.append_empty.symm
    | cons l ls ih =>
        rw [List.map_cons, List.foldl_cons, ih, List.flatMap_cons, String.ofList_append,
          String.append_assoc]
  exact (onto "").trans String.empty_append

/-- Numbers of 63 bits are written, each on its line behind the line of the URL. -/
theorem FitsFile.toToml_eq (h : c.FitsFile) : c.toToml = .ok c.fileText := by
  have written : (c.naturals.mapM fun p => natLine p.1 p.2) =
      .ok ((c.naturals.map naturalLine).map fun l => String.ofList l.chars) := by
    rw [mapM_eq_ok_iff, List.map_map, List.forall₂_map_right_iff, List.forall₂_same]
    exact fun p hp => natLine_eq (h.naturals_lt p hp)
  have url := memberLine_eq ⟨"url", Toml.quoted c.url, .string c.url⟩
  refine bind_eq_ok_iff.2 ⟨_, written, congrArg Except.ok ?_⟩
  rw [join_chars, url, ← String.ofList_append]
  rfl

/-! ### Reading -/

section Members

variable {ms : Members} {name : String}

/-- A member that is there is taken, and the default is not asked. -/
theorem textMember_of_get? {s : String} (h : ms.get? name = some (.string s)) (default : String) :
    textMember ms name default = .ok s := by
  rw [textMember, h]
  rfl

theorem natMember_of_get? {n limit : Nat} (h : ms.get? name = some (.integer n)) (below : n < limit)
    (default : Nat) : natMember ms name limit default = .ok n := by
  have within : 0 ≤ (n : Int) ∧ (n : Int) < limit := by omega
  rw [natMember, h]
  simp only [if_pos within]
  rfl

/-- What is read fits a file, whether it was in one or is a default. -/
theorem natMember_lt {n limit default : Nat} (fits : ms.Fits) (set : default < 2 ^ 63)
    (h : natMember ms name limit default = .ok n) : n < 2 ^ 63 := by
  rw [natMember] at h
  split at h
  · obtain rfl := Except.ok.inj h
    exact set
  · next k member =>
      split at h
      · obtain rfl := Except.ok.inj h
        obtain ⟨-, below⟩ := fits.get? member k rfl
        omega
      · cases h
  · cases h

end Members

/-- The members that are written are those of the configuration. -/
theorem ofMembers_lines (c : PoolConfiguration) :
    ofMembers (c.lines.map fun l => (l.name, l.value)) = .ok c := by
  refine bind_eq_ok_iff.2 ⟨c.url, textMember_of_get? rfl _, ?_⟩
  refine bind_eq_ok_iff.2 ⟨_, natMember_of_get? rfl c.maxOpen.toNat_lt_size _, ?_⟩
  refine bind_eq_ok_iff.2 ⟨_, natMember_of_get? rfl c.maxIdle.toNat_lt_size _, ?_⟩
  refine bind_eq_ok_iff.2 ⟨_, natMember_of_get? rfl c.maxLifetime.toNat_lt_size _, ?_⟩
  refine bind_eq_ok_iff.2 ⟨_, natMember_of_get? rfl c.maxIdleTime.toNat_lt_size _, ?_⟩
  refine bind_eq_ok_iff.2 ⟨_, natMember_of_get? rfl c.connectTimeout.toNat_lt_size _, ?_⟩
  simp only [UInt32.ofNat_toNat, UInt64.ofNat_toNat]
  rfl

/-- A text is read as its members, which are normalized. -/
theorem ofToml_eq_ok_iff {text : String} :
    ofToml text = .ok c ↔
      ∃ ms, Toml.read? text = some ms ∧ ∃ d, ofMembers ms = .ok d ∧ d.normalized = c := by
  rw [ofToml]
  cases Toml.read? text with
  | none => simp [throw, throwThe, MonadExceptOf.throw]
  | some ms => simp [map_eq_ok_iff]

/-- What is written is read back, and normalized. -/
theorem ofToml_fileText (h : c.FitsFile) : ofToml c.fileText = .ok c.normalized := by
  have simple : ∀ l ∈ c.lines, l.IsSimple := by
    have url : Toml.IsBareName "url" := by decide
    refine List.forall_mem_cons.2 ⟨⟨url, Toml.writes_quoted c.url⟩, ?_⟩
    refine List.forall_mem_map.2 fun p hp => ⟨?_, Toml.writes_decimalDigits (h.naturals_lt p hp)⟩
    have bare : ∀ name ∈ c.naturals.map Prod.fst, Toml.IsBareName name := by
      simp only [naturals, List.map_cons, List.map_nil]
      decide
    exact bare p.1 (List.mem_map_of_mem hp)
  have nodup : (c.lines.map Line.name).Nodup := by
    simp only [lines, naturals, List.map_cons, List.map_nil, naturalLine]
    decide
  exact ofToml_eq_ok_iff.2 ⟨_, Toml.read?_lines simple nodup, c, ofMembers_lines c, rfl⟩

/-- The numbers of a file, and the defaults, can be written to a file. -/
theorem fitsFile_of_ofToml {text : String} (h : ofToml text = .ok c) : c.FitsFile := by
  obtain ⟨ms, read, d, members, rfl⟩ := ofToml_eq_ok_iff.1 h
  have limit {name : String} {n default : Nat} (set : default < 2 ^ 63)
      (member : natMember ms name UInt64.size default = .ok n) :
      (UInt64.ofNat n).toNat < 2 ^ 63 := by
    have below := natMember_lt (Toml.read?_fits read) set member
    rw [UInt64.toNat_ofNat']
    exact (Nat.mod_le n _).trans_lt below
  simp only [ofMembers, bind_eq_ok_iff] at members
  obtain ⟨_, -, _, -, _, -, _, maxLifetime, _, maxIdleTime, _, connectTimeout, made⟩ := members
  obtain rfl := Except.ok.inj made
  exact FitsFile.normalized {
    maxLifetime    := limit (by decide) maxLifetime
    maxIdleTime    := limit (by decide) maxIdleTime
    connectTimeout := limit (by decide) connectTimeout }

/-- **A configuration that is loaded is stable.**  Everything in it is set, it can be saved, and
loading what is saved gives it again; normalizing it changes nothing. -/
theorem loaded_configuration_stable {text : String} {c : PoolConfiguration}
    (h : ofToml text = .ok c) :
    c.IsNormal ∧ (∃ saved, c.toToml = .ok saved ∧ ofToml saved = .ok c) ∧ c.normalized = c := by
  have normal : c.IsNormal := by
    obtain ⟨_, -, d, -, rfl⟩ := ofToml_eq_ok_iff.1 h
    exact isNormal_normalized d
  have fits := fitsFile_of_ofToml h
  refine ⟨normal, ⟨c.fileText, fits.toToml_eq, ?_⟩, normal.normalized_eq⟩
  rw [ofToml_fileText fits, normal.normalized_eq]

/-- A file with both quotes, a backslash and a line feed in its URL, more idle connections than open
ones, and a limit that is not set. -/
def quotedUrlFile : String :=
  "url = \"it's \\\"q\\\" \\\\ \\n\"\nmax_open = 2\nmax_idle = 7\nmax_lifetime_secs = 0\n"

theorem quotedUrlFile_stable :
    ∃ c : PoolConfiguration, c.url = "it's \"q\" \\ \n" ∧ ofToml quotedUrlFile = .ok c ∧
      c.IsNormal ∧ (∃ saved, c.toToml = .ok saved ∧ ofToml saved = .ok c) ∧ c.normalized = c := by
  have loaded : ofToml quotedUrlFile = .ok ⟨"it's \"q\" \\ \n", 2, 2, 3600, 1800, 10⟩ := by
    decide +kernel
  exact ⟨_, rfl, loaded, loaded_configuration_stable loaded⟩

end PreparedSql.PoolConfiguration
