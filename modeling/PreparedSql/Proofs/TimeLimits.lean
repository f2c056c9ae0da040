import Mathlib.Algebra.Order.Group.Unbundled.Int
import PreparedSql.Proofs.DriverUrls

/-!
# Time limits of pools

A configuration keeps a time limit in whole seconds, and no seconds mean that the limit is not set.
So a limit is rounded down when it is set, and one below a second is as good as not set: the default
takes its place before a pool is opened.

* `TimeLimit.of_normalized`: a limit in a normalized configuration.
* `options_of_target`: a pool is opened with the limits of the normalized configuration.
* `limit_in_force_iff`: which limits are in force.
* `not_limitsInForce`: not all limits are that are longer than nothing.
-/

namespace PreparedSql

/-! ### Spans of time -/

/-- A second, in nanoseconds. -/
def second : Nat := 10 ^ 9

def Duration.inNanoseconds (d : Duration) : Nat := d.seconds.toNat * second + d.nanoseconds

/-- So many seconds differ from a span of time by less than one. -/
def WithinSecond (seconds : UInt64) (d : Duration) : Prop :=
  |((seconds.toNat * second : Nat) : ℤ) - d.inNanoseconds| < second

theorem Duration.second_le_iff (d : Duration) : second ≤ d.inNanoseconds ↔ d.seconds ≠ 0 := by
  have below := d.nanoseconds_lt
  rw [Ne, ← UInt64.toNat_inj, UInt64.toNat_zero, inNanoseconds, second]
  omega

/-- The seconds of a span of time are the span rounded down. -/
theorem Duration.withinSecond_seconds (d : Duration) : WithinSecond d.seconds d := by
  have below := d.nanoseconds_lt
  rw [WithinSecond, abs_lt, inNanoseconds, second]
  omega

/-- Two seconds or more are too much for a span below a second. -/
theorem not_withinSecond {seconds : UInt64} (long : 2 ≤ seconds.toNat) {d : Duration}
    (short : d.inNanoseconds < second) : ¬ WithinSecond seconds d := by
  rw [WithinSecond, abs_lt]
  rw [second] at short ⊢
  omega

/-! ### Limits -/

/-- The time limits of a pool. -/
inductive TimeLimit where
  | lifetime
  | idleTime
  | connectTimeout
deriving DecidableEq, Repr

namespace TimeLimit

/-- The seconds of a limit in a configuration. -/
def of (c : PoolConfiguration) : TimeLimit → UInt64
  | .lifetime       => c.maxLifetime
  | .idleTime       => c.maxIdleTime
  | .connectTimeout => c.connectTimeout

/-- A configuration with a limit set. -/
def set (c : PoolConfiguration) (d : Duration) : TimeLimit → PoolConfiguration
  | .lifetime       => c.withMaxLifetime d
  | .idleTime       => c.withMaxIdleTime d
  | .connectTimeout => c.withConnectTimeout d

/-- The seconds of a limit in the options of a pool. -/
def ofOptions (o : PoolOptions) : TimeLimit → UInt64
  | .lifetime       => o.maxLifetime
  | .idleTime       => o.idleTimeout
  | .connectTimeout => o.acquireTimeout

/-- The seconds of a limit that is not set. -/
def default : TimeLimit → UInt64 := of {}

theorem of_set (l : TimeLimit) (c : PoolConfiguration) (d : Duration) :
    l.of (l.set c d) = d.seconds := by cases l <;> rfl

theorem of_normalized (l : TimeLimit) (c : PoolConfiguration) :
    l.of c.normalized = if l.of c = 0 then l.default else l.of c := by cases l <;> rfl

theorem ofOptions_options (l : TimeLimit) (c : PoolConfiguration) :
    l.ofOptions c.options = l.of c := by cases l <;> rfl

theorem two_le_default (l : TimeLimit) : 2 ≤ l.default.toNat := by cases l <;> decide

end TimeLimit

/-- A pool is opened with the options of the normalized configuration. -/
theorem options_of_target {c : PoolConfiguration} {t : PoolTarget} (h : c.target = .ok t) :
    t.options = c.normalized.options := by
  obtain ⟨-, -, -, options⟩ := target_eq_ok_iff.1 h
  exact options

/-- **Which limits are in force.**  A limit that is set to a second or more is in force in a
normalized configuration, rounded down to whole seconds.  Of a limit below a second the default is
in force, which is not within a second of it.  A pool is opened with the limits in force. -/
theorem limit_in_force_iff (l : TimeLimit) (c : PoolConfiguration) (d : Duration) :
    (WithinSecond (l.of (l.set c d).normalized) d ↔ second ≤ d.inNanoseconds) ∧
      l.of (l.set c d).normalized =
        (if second ≤ d.inNanoseconds then d.seconds else l.default) ∧
      ∀ t, (l.set c d).target = .ok t → l.ofOptions t.options = l.of (l.set c d).normalized := by
  have effective : l.of (l.set c d).normalized =
      if second ≤ d.inNanoseconds then d.seconds else l.default := by
    rw [l.of_normalized, l.of_set]
    simp only [d.second_le_iff, ite_not]
  refine ⟨?_, effective, fun t h => ?_⟩
  · rw [effective]
    split
    · next long => exact iff_of_true d.withinSecond_seconds long
    · next short =>
        exact iff_of_false (not_withinSecond l.two_le_default (Nat.lt_of_not_le short)) short
  · rw [options_of_target h, l.ofOptions_options]

/-- **Limits are in force** within a second, if they are longer than nothing.  It does not hold
(`not_limitsInForce`). -/
def LimitsInForce : Prop :=
  ∀ (l : TimeLimit) (c : PoolConfiguration) (d : Duration), 0 < d.inNanoseconds →
    WithinSecond (l.of (l.set c d).normalized) d

/-- Connections that are to live for half a second live for an hour. -/
theorem not_limitsInForce : ¬ LimitsInForce := by
  intro h
  have near := h .lifetime {} ⟨0, 5 * 10 ^ 8, by decide⟩ (by decide)
  have hour : TimeLimit.lifetime.of
      (TimeLimit.lifetime.set {} ⟨0, 5 * 10 ^ 8, by decide⟩).normalized = 3600 := by decide
  rw [hour] at near
  exact not_withinSecond (by decide) (by decide) near

end PreparedSql
