import PreparedSql.Pool.Server
import PreparedSql.Proofs.Hydration

/-!
# URLs for drivers

The scheme of a database URL is a name of a dialect, and a driver is chosen by the scheme of the URL
that it is handed.  TiDB has no driver, so its URLs are handed over with the scheme of MySQL, and
all others as they are.  The names of dialects are in one list and the schemes of drivers in
another: `pg` is in the first and not in the second.

* `Dialect.ofUrl_eq_ok_iff`: which URLs name a dialect.
* `HasScheme.driverUrl`: the URL that is handed over differs in its scheme at most.
* `target_eq_ok_iff`: what a pool is opened with.
* `driver_reached_iff`: which URLs reach a driver; a pool is opened with no others.
* `not_urlsReachDrivers`: not all do.
-/

namespace PreparedSql

/-! ### Schemes -/

/-- The URL has this scheme, in some letter case, and `rest` is what stands behind it. -/
def HasScheme (url scheme rest : String) : Prop :=
  ∃ written, cutUrl? url = some (written, rest) ∧ lowerCase written = scheme

/-- A driver is there for the scheme of the URL. -/
def HasDriver (url : String) : Prop := ∃ scheme ∈ driverSchemes, ∃ rest, HasScheme url scheme rest

/-- A URL has one scheme, and one text behind it. -/
theorem HasScheme.unique {url scheme rest scheme' rest' : String} (h : HasScheme url scheme rest)
    (h' : HasScheme url scheme' rest') : scheme = scheme' ∧ rest = rest' := by
  obtain ⟨written, cut, rfl⟩ := h
  obtain ⟨written', cut', rfl⟩ := h'
  obtain ⟨rfl, rfl⟩ := Prod.mk.inj (Option.some.inj (cut.symm.trans cut'))
  exact ⟨rfl, rfl⟩

theorem HasScheme.hasDriver_iff {url scheme rest : String} (h : HasScheme url scheme rest) :
    HasDriver url ↔ scheme ∈ driverSchemes := by
  constructor
  · rintro ⟨scheme', driver, rest', h'⟩
    rwa [(h.unique h').1]
  · exact fun driver => ⟨scheme, driver, rest, h⟩

/-! ### Dialects -/

namespace Dialect

/-- The names of a dialect, in lower case. -/
def lowerNames : Dialect → List String
  | .postgres => ["postgres", "postgresql", "pg"]
  | .mysql    => ["mysql"]
  | .tidb     => ["tidb"]

/-- The dialect whose protocol the server speaks. -/
def protocol : Dialect → Dialect
  | .tidb => .mysql
  | d     => d

theorem ofLowerName?_eq_some_iff {name : String} {d : Dialect} :
    ofLowerName? name = some d ↔ name ∈ d.lowerNames := by
  unfold ofLowerName?
  split <;> cases d <;> simp_all [lowerNames]

/-- **Which URLs name a dialect**: those whose scheme is one of its names. -/
theorem ofUrl_eq_ok_iff {url : String} {d : Dialect} :
    ofUrl url = .ok d ↔ ∃ scheme ∈ d.lowerNames, ∃ rest, HasScheme url scheme rest := by
  unfold ofUrl ofName HasScheme
  cases cut : cutUrl? url with
  | none => simp [throw, throwThe, MonadExceptOf.throw]
  | some parts =>
      obtain ⟨written, rest⟩ := parts
      have named := @ofLowerName?_eq_some_iff (lowerCase written) d
      cases found : ofLowerName? (lowerCase written) <;>
        simp_all [pure, Except.pure, throw, throwThe, MonadExceptOf.throw]

end Dialect

/-! ### What is handed over -/

/-- The scheme that the URL of a dialect is handed over with. -/
def driverScheme (scheme : String) : Dialect → String
  | .tidb             => "mysql"
  | .postgres | .mysql => scheme

/-- **The URL that is handed over** differs in its scheme at most. -/
theorem HasScheme.driverUrl {url scheme rest : String} (h : HasScheme url scheme rest)
    (d : Dialect) : HasScheme (driverUrl d url) (driverScheme scheme d) rest := by
  cases d with
  | postgres => exact h
  | mysql => exact h
  | tidb =>
      obtain ⟨written, cut, -⟩ := h
      have handed : PreparedSql.driverUrl .tidb url = "mysql://" ++ rest := by
        simp [PreparedSql.driverUrl, cut]
      refine ⟨"mysql", ?_, rfl⟩
      rw [handed]
      simp [cutUrl?, cutAt?, afterStart?]

theorem driverScheme_mem_lowerNames {d : Dialect} {scheme : String} (h : scheme ∈ d.lowerNames) :
    driverScheme scheme d ∈ d.protocol.lowerNames := by
  cases d with
  | postgres => exact h
  | mysql => exact h
  | tidb => exact List.mem_singleton_self _

/-- Of the names of dialects one is the scheme of no driver. -/
theorem driverScheme_mem_driverSchemes_iff {d : Dialect} {scheme : String}
    (h : scheme ∈ d.lowerNames) : driverScheme scheme d ∈ driverSchemes ↔ scheme ≠ "pg" := by
  cases d <;> simp only [Dialect.lowerNames, List.mem_cons, List.not_mem_nil, or_false] at h
  case postgres => rcases h with rfl | rfl | rfl <;> decide
  case mysql | tidb => subst h; decide

/-- A URL without a fault has a scheme with a driver. -/
theorem hasDriver_of_urlFault?_eq_none {url : String} (h : urlFault? url = none) :
    HasDriver url := by
  unfold urlFault? at h
  split at h
  · cases h
  · next written rest cut =>
      dsimp only at h
      split at h
      · cases h
      · split at h
        · next driver => exact ⟨_, List.contains_iff_mem.1 driver, rest, written, cut, rfl⟩
        · cases h

/-- **What a pool is opened with**: the dialect that the URL names, the URL that is handed over for
it, if that has no fault, and the options of the normalized configuration. -/
theorem target_eq_ok_iff {c : PoolConfiguration} {t : PoolTarget} :
    c.target = .ok t ↔
      Dialect.ofUrl c.url = .ok t.dialect ∧ t.url = driverUrl t.dialect c.url ∧
        urlFault? t.url = none ∧ t.options = c.normalized.options := by
  obtain ⟨dialect, url, options⟩ := t
  unfold PoolConfiguration.target
  rw [bind_eq_ok_iff]
  dsimp only
  constructor
  · rintro ⟨d, named, opened⟩
    split at opened
    · cases opened
    · next faultless =>
        cases opened
        exact ⟨named, rfl, faultless, rfl⟩
  · rintro ⟨named, rfl, faultless, rfl⟩
    have passed : urlFault? (driverUrl dialect c.normalized.url) = none := faultless
    refine ⟨dialect, named, ?_⟩
    rw [passed]
    rfl

/-- A URL and what is handed over for it: the same stands behind their schemes, and the second names
the dialect whose protocol is spoken. -/
structure HandedOver (d : Dialect) (url handed : String) : Prop where
  rest    : ∃ scheme scheme' rest, HasScheme url scheme rest ∧ HasScheme handed scheme' rest
  dialect : Dialect.ofUrl handed = .ok d.protocol

/-- **Which URLs reach a driver.**  For a URL that names a dialect, what is handed over has the same
text behind the scheme and names the dialect whose protocol is spoken; and a driver is there for it
unless the scheme of the URL is `pg`, in any letter case.  A pool is opened with a URL that is
handed over so and has a driver, and with no other. -/
theorem driver_reached_iff {url : String} {d : Dialect} (h : Dialect.ofUrl url = .ok d) :
    HandedOver d url (driverUrl d url) ∧
      (HasDriver (driverUrl d url) ↔ ∀ rest, ¬ HasScheme url "pg" rest) ∧
      ∀ c : PoolConfiguration, c.url = url → ∀ t, c.target = .ok t →
        t.dialect = d ∧ t.url = driverUrl d url ∧ HasDriver t.url := by
  obtain ⟨scheme, name, rest, has⟩ := Dialect.ofUrl_eq_ok_iff.1 h
  have handed := has.driverUrl d
  refine ⟨⟨⟨_, _, rest, has, handed⟩, ?_⟩, ?_, ?_⟩
  · exact Dialect.ofUrl_eq_ok_iff.2 ⟨_, driverScheme_mem_lowerNames name, rest, handed⟩
  · rw [handed.hasDriver_iff, driverScheme_mem_driverSchemes_iff name]
    constructor
    · intro other rest' pg
      exact other (has.unique pg).1
    · rintro none rfl
      exact none rest has
  · rintro c rfl t opened
    obtain ⟨named, url, faultless, -⟩ := target_eq_ok_iff.1 opened
    obtain rfl := Except.ok.inj (named.symm.trans h)
    exact ⟨rfl, url, hasDriver_of_urlFault?_eq_none faultless⟩

/-- A scheme in mixed letter case, and another URL behind it. -/
theorem nestedUrl_driver_reached :
    Dialect.ofUrl "TiDB://postgres://db" = .ok .tidb ∧
      HandedOver .tidb "TiDB://postgres://db" "mysql://postgres://db" ∧
      HasDriver "mysql://postgres://db" := by
  have named : Dialect.ofUrl "TiDB://postgres://db" = .ok .tidb := rfl
  have scheme : HasScheme "TiDB://postgres://db" "tidb" "postgres://db" := ⟨"TiDB", rfl, rfl⟩
  obtain ⟨handed, driver, -⟩ := driver_reached_iff named
  refine ⟨named, handed, driver.2 fun rest pg => ?_⟩
  exact absurd (scheme.unique pg).1 (by decide)

/-- **Every URL that names a dialect reaches a driver.**  It does not hold
(`not_urlsReachDrivers`). -/
def UrlsReachDrivers : Prop :=
  ∀ url d, Dialect.ofUrl url = .ok d →
    HandedOver d url (driverUrl d url) ∧ HasDriver (driverUrl d url)

/-- The short name of PostgreSQL is taken for a scheme, and handed over as it is. -/
theorem not_urlsReachDrivers : ¬ UrlsReachDrivers := by
  intro h
  obtain ⟨-, driver⟩ := h "pg://localhost/db" .postgres rfl
  have scheme : HasScheme "pg://localhost/db" "pg" "localhost/db" := ⟨"pg", rfl, rfl⟩
  exact absurd (scheme.hasDriver_iff.1 driver) (by decide)

end PreparedSql
