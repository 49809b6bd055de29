import EyeQ.Word.Basic

/-!
# Clock readings

A `ktime_t` is an `s64` with nanoseconds.  A reading of the clock is a natural number here, and it
fits a `ktime_t` if it is below `2 ^ 63`.

The code often keeps a difference of readings in a `u64`.  If the second reading was made first,
that is not a small number but a very large one.
-/

namespace EyeQ

/-- `ktime_us_delta(later, earlier)`: the microseconds (an `s64`) between two clock readings in
nanoseconds. -/
def ktimeUsDelta (later earlier : ℕ) : ℤ := ((later : ℤ) - earlier) / 1000

/-- Read as a `u64`, the microseconds since an earlier reading never exceed the time elapsed. -/
theorem u64OfInt_ktimeUsDelta_le {later earlier : ℕ} (h : earlier ≤ later) :
    u64OfInt (ktimeUsDelta later earlier) ≤ (later - earlier) / 1000 := by
  unfold ktimeUsDelta
  rw [← Nat.cast_sub h, show ((later - earlier : ℕ) : ℤ) / 1000 = ((later - earlier) / 1000 : ℕ) by
    push_cast; rfl, u64OfInt_natCast]
  exact u64_le _

/-- They are the time elapsed. -/
theorem u64OfInt_ktimeUsDelta {later earlier : ℕ} (h : earlier ≤ later) (hlater : later < 2 ^ 63) :
    (u64OfInt (ktimeUsDelta later earlier) : ℤ) = ktimeUsDelta later earlier := by
  unfold u64OfInt ktimeUsDelta
  omega

/-- The microseconds since a later reading are negative, and more than any `s64` as a `u64`. -/
theorem le_u64OfInt_ktimeUsDelta {later earlier : ℕ} (h : later < earlier)
    (hearlier : earlier < 2 ^ 63) : 2 ^ 63 ≤ u64OfInt (ktimeUsDelta later earlier) := by
  unfold u64OfInt ktimeUsDelta
  omega

end EyeQ
