import EyeQ.Rcp.Basic
import EyeQ.Vq.Equiv.Drain

/-!
# The control algorithm of a VQ: does it react in the right direction?

`Rcp.next` is the step that `iso_vq_drain` is meant to take.  `rawRate` is what it computes, with
`u32` and `u64` arithmetic, and the two agree up to a load of three times the target
(`rawRate_eq_next`).  Above that `rate2 + rate - rx_rate` wraps and the VQ advertises its whole
target (`le_rawRate_of_lt`).  Only the branch for marked packets clamps the load, after an addition
that can itself leave the `int` it is stored in.

`Responds` is what is expected of one update: no increase at or above the target, no decrease below
both the old rate and the target when the load is at most the target, and no increase when more
bytes were received.  `responds_iff` says when this holds.  Over all old rates and loads it holds
for no target above `ISO_MIN_RFAIR`; for an update whose numbers fit their types (`Fits`), precisely
the loads described above are the exceptions.
-/

namespace EyeQ.Vq

variable {C : Type}

/-! ### The numbers of one update -/

/-- The marked fraction, over `den`. -/
def frac (rxPkts rxMarked : ℕ) : ℕ :=
  min den (u32 (rxMarked * 1024) / if rxPkts = 0 then 1 else rxPkts)

/-- What marked packets add to the measured rate. -/
def extra (p : Params) (dt rxPkts rxMarked : ℕ) : ℕ :=
  u32 (p.isoEcnMarkThreshBytes * 8 * (den + frac rxPkts rxMarked)) / den / dt

/-- The `rx_rate` of the update, from the measured rate. -/
def usedRate (p : Params) (dt rate rxPkts rxMarked measured : ℕ) : ℤ :=
  if frac rxPkts rxMarked ≠ 0 then
    min (s32 (s32 measured + extra p dt rxPkts rxMarked)) (s32 (u64 (3 * rate)))
  else s32 measured

/-- The quotient that becomes the feedback rate. -/
def rawRate (rate feedbackRate : ℕ) (rxRate : ℤ) : ℕ :=
  u64OfInt (feedbackRate * ((u32 (rate * 2) : ℤ) + rate - rxRate)) / u32 (rate * 2)

/-- The new feedback rate. -/
def newRate (p : Params) (rate feedbackRate : ℕ) (rxRate : ℤ) : ℕ :=
  max p.isoMinRfair (min rate (rawRate rate feedbackRate rxRate))

/-- The update of a VQ that has received `bytes` since the last one. -/
def update (p : Params) (rcpRate dt rxPkts rxMarked : ℕ) (vq : Vq C) (bytes : ℕ) :
    Except Fault (Vq C) :=
  control p rcpRate dt (u64 (vq.lastRxBytes + bytes)) rxPkts rxMarked vq

/-- The `int` that was stored in `vq->rx_rate`. -/
def storedRate (vq : Vq C) : ℤ := s32 vq.rxRate

theorem usedRate_ge (p : Params) (dt rate rxPkts rxMarked measured : ℕ) :
    -2 ^ 31 ≤ usedRate p dt rate rxPkts rxMarked measured := by
  unfold usedRate
  split_ifs
  · exact le_min (s32_ge _) (s32_ge _)
  · exact s32_ge _

theorem usedRate_lt (p : Params) (dt rate rxPkts rxMarked measured : ℕ) :
    usedRate p dt rate rxPkts rxMarked measured < 2 ^ 31 := by
  unfold usedRate
  split_ifs
  · exact (min_le_left _ _).trans_lt (s32_lt _)
  · exact s32_lt _

/-- The divisions by `dt`, `rx_pkts` and `den` succeed, and what is left is the last one. -/
theorem control_bind (p : Params) (rcpRate : ℕ) {dt : ℕ} (rxBytes rxPkts rxMarked : ℕ) (vq : Vq C)
    (hdt : 0 < dt) :
    let x := usedRate p dt (target rcpRate vq) rxPkts rxMarked
      (u64 (sub64 rxBytes vq.lastRxBytes * 8) / dt)
    control p rcpRate dt rxBytes rxPkts rxMarked vq =
      (advertise p (target rcpRate vq) x vq.feedbackRate >>= fun feedbackRate =>
        .ok { vq with
          alpha := ewmaG16 vq.alpha (frac rxPkts rxMarked)
          feedbackRate := feedbackRate
          rxRate := u64OfInt x
          lastRxBytes := rxBytes }) := by
  intro x
  have hpkts : 0 < if rxPkts = 0 then 1 else rxPkts := by
    split_ifs
    · exact Nat.one_pos
    · omega
  have hfrac : markedFrac (if rxPkts = 0 then 1 else rxPkts) rxMarked =
      .ok (frac rxPkts rxMarked) := by
    rw [markedFrac, udiv_of_pos _ hpkts]
    rfl
  have hused : correctedRate p dt (target rcpRate vq) (frac rxPkts rxMarked)
      (s32 ((u64 (sub64 rxBytes vq.lastRxBytes * 8) / dt : ℕ) : ℤ)) = .ok x := by
    rw [correctedRate]
    show _ = Except.ok (usedRate ..)
    rw [usedRate]
    split_ifs
    · rw [udiv_of_pos _ (by decide)]
      show (udiv _ dt >>= _) = _
      rw [udiv_of_pos _ hdt]
      rfl
    · rfl
  rw [control, udiv_of_pos _ hdt]
  show (markedFrac _ _ >>= _) = _
  rw [hfrac]
  show (correctedRate _ _ _ _ _ >>= _) = _
  rw [hused]
  rfl

/-- The same, for the bytes received since the last update. -/
theorem update_bind (p : Params) (rcpRate : ℕ) {dt bytes : ℕ} (rxPkts rxMarked : ℕ) (vq : Vq C)
    (hdt : 0 < dt) (hbytes : bytes * 8 < 2 ^ 64) :
    let x := usedRate p dt (target rcpRate vq) rxPkts rxMarked (bytes * 8 / dt)
    update p rcpRate dt rxPkts rxMarked vq bytes =
      (advertise p (target rcpRate vq) x vq.feedbackRate >>= fun feedbackRate =>
        .ok { vq with
          alpha := ewmaG16 vq.alpha (frac rxPkts rxMarked)
          feedbackRate := feedbackRate
          rxRate := u64OfInt x
          lastRxBytes := u64 (vq.lastRxBytes + bytes) }) := by
  have hbind := control_bind p rcpRate (u64 (vq.lastRxBytes + bytes)) rxPkts rxMarked vq hdt
  rw [sub64_u64_add _ (by omega), u64_of_lt hbytes] at hbind
  exact hbind

/-- The last division, if it is not by zero. -/
theorem advertise_eq {p : Params} (hmax : p.isoVqDrainRateMbps ≤ p.isoMaxTxRate) {rate : ℕ}
    (hrate2 : 0 < u32 (rate * 2)) (x : ℤ) (feedbackRate : ℕ) :
    advertise p rate x feedbackRate = .ok (newRate p rate feedbackRate x) := by
  rw [advertise, if_pos hmax]
  show (udiv _ (u32 (rate * 2)) >>= _) = _
  rw [udiv_of_pos _ hrate2]
  rfl

/-- An update that does not divide by zero. -/
theorem update_eq {p : Params} (hmax : p.isoVqDrainRateMbps ≤ p.isoMaxTxRate)
    {rcpRate dt bytes : ℕ} (rxPkts rxMarked : ℕ) (vq : Vq C) (hdt : 0 < dt)
    (hbytes : bytes * 8 < 2 ^ 64) (hrate2 : 0 < u32 (target rcpRate vq * 2)) :
    ∃ vq', update p rcpRate dt rxPkts rxMarked vq bytes = .ok vq' ∧
      vq'.storedRate = usedRate p dt (target rcpRate vq) rxPkts rxMarked (bytes * 8 / dt) ∧
      vq'.feedbackRate = newRate p (target rcpRate vq) vq.feedbackRate
        (usedRate p dt (target rcpRate vq) rxPkts rxMarked (bytes * 8 / dt)) := by
  have hbind := update_bind p rcpRate rxPkts rxMarked vq hdt hbytes
  simp only [advertise_eq hmax hrate2] at hbind
  exact ⟨_, hbind, s32_u64OfInt (usedRate_ge ..) (usedRate_lt ..), rfl⟩

/-- An update that divides by zero does not end. -/
theorem update_ne_ok {p : Params} (hmax : p.isoVqDrainRateMbps ≤ p.isoMaxTxRate)
    {rcpRate dt bytes : ℕ} (rxPkts rxMarked : ℕ) (vq : Vq C) (hdt : 0 < dt)
    (hbytes : bytes * 8 < 2 ^ 64) (hrate2 : u32 (target rcpRate vq * 2) = 0) (vq' : Vq C) :
    update p rcpRate dt rxPkts rxMarked vq bytes ≠ .ok vq' := by
  have hbind := update_bind p rcpRate rxPkts rxMarked vq hdt hbytes
  have hadv : ∀ x, advertise p (target rcpRate vq) x vq.feedbackRate = .error .divide := by
    intro x
    rw [advertise, if_pos hmax]
    show (udiv _ (u32 (target rcpRate vq * 2)) >>= _) = _
    rw [hrate2]
    rfl
  simp only [hadv] at hbind
  rw [hbind]
  exact Machine.error_ne_ok _ _

/-! ### The right direction -/

/-- One update reacts in the right direction. -/
def Responds (p : Params) (rcpRate dt rxPkts rxMarked : ℕ) (vq : Vq C) (bytes : ℕ) : Prop :=
  ∃ vq', update p rcpRate dt rxPkts rxMarked vq bytes = .ok vq' ∧
    ((target rcpRate vq : ℤ) ≤ vq'.storedRate →
      vq'.feedbackRate ≤ vq.feedbackRate ∨ vq'.feedbackRate = p.isoMinRfair) ∧
    (vq'.storedRate ≤ target rcpRate vq →
      min vq.feedbackRate (target rcpRate vq) ≤ vq'.feedbackRate) ∧
    ∀ bytes₀ ≤ bytes, ∀ vq₀', update p rcpRate dt rxPkts rxMarked vq bytes₀ = .ok vq₀' →
      vq'.feedbackRate ≤ vq₀'.feedbackRate

/-- The same, of the numbers of the update. -/
theorem responds_iff_newRate {p : Params} (hmax : p.isoVqDrainRateMbps ≤ p.isoMaxTxRate)
    {rcpRate dt bytes : ℕ} (rxPkts rxMarked : ℕ) (vq : Vq C) (hdt : 0 < dt)
    (hbytes : bytes * 8 < 2 ^ 64) (hrate2 : 0 < u32 (target rcpRate vq * 2)) :
    let rate := target rcpRate vq
    let x := fun bytes => usedRate p dt rate rxPkts rxMarked (bytes * 8 / dt)
    let new := fun bytes => newRate p rate vq.feedbackRate (x bytes)
    Responds p rcpRate dt rxPkts rxMarked vq bytes ↔
      ((rate : ℤ) ≤ x bytes → new bytes ≤ vq.feedbackRate ∨ new bytes = p.isoMinRfair) ∧
      (x bytes ≤ rate → min vq.feedbackRate rate ≤ new bytes) ∧
      ∀ bytes₀ ≤ bytes, new bytes ≤ new bytes₀ := by
  intro rate x new
  obtain ⟨vq', hup, hstored, hnew⟩ := update_eq hmax rxPkts rxMarked vq hdt hbytes hrate2
  constructor
  · rintro ⟨vq'', hup', hhigh, hlow, hmono⟩
    obtain rfl : vq' = vq'' := Except.ok.inj (hup.symm.trans hup')
    rw [hstored, hnew] at hhigh hlow
    refine ⟨hhigh, hlow, fun bytes₀ hle => ?_⟩
    have hbytes₀ : bytes₀ * 8 < 2 ^ 64 := by omega
    obtain ⟨vq₀', hup₀, -, hnew₀⟩ := update_eq hmax rxPkts rxMarked vq hdt hbytes₀ hrate2
    have h := hmono bytes₀ hle vq₀' hup₀
    rwa [hnew, hnew₀] at h
  · rintro ⟨hhigh, hlow, hmono⟩
    refine ⟨vq', hup, ?_, ?_, ?_⟩
    · rw [hstored, hnew]
      exact hhigh
    · rw [hstored, hnew]
      exact hlow
    · intro bytes₀ hle vq₀' hup₀
      have hbytes₀ : bytes₀ * 8 < 2 ^ 64 := by omega
      obtain ⟨vq₀'', hup₀', -, hnew₀⟩ := update_eq hmax rxPkts rxMarked vq hdt hbytes₀ hrate2
      obtain rfl : vq₀'' = vq₀' := Except.ok.inj (hup₀'.symm.trans hup₀)
      rw [hnew, hnew₀]
      exact hmono bytes₀ hle

/-- A target of at most `ISO_MIN_RFAIR` leaves nothing to control. -/
theorem newRate_of_le {p : Params} {rate : ℕ} (h : rate ≤ p.isoMinRfair) (feedbackRate : ℕ)
    (x : ℤ) : newRate p rate feedbackRate x = p.isoMinRfair :=
  max_eq_left ((min_le_left _ _).trans h)

/-! ### Up to three times the target -/

section Fits

variable {p : Params} {rate fb : ℕ} {x : ℤ}

theorem rawRate_eq_next (hrate : 3 * rate < 2 ^ 31) (hfb : fb < 2 ^ 32) (hlo : -2 ^ 31 ≤ x)
    (hx : x ≤ 3 * rate) : rawRate rate fb x = Rcp.next rate fb x := by
  have hrate2 : u32 (rate * 2) = rate * 2 := u32_of_lt (by omega)
  obtain ⟨y, hy⟩ : ∃ y : ℕ, 3 * (rate : ℤ) - x = y := ⟨(3 * (rate : ℤ) - x).toNat, by omega⟩
  -- the product of two 32-bit numbers does not wrap
  have hprod : fb * y < 2 ^ 64 := by
    have hy32 : y ≤ 2 ^ 32 := by omega
    calc fb * y ≤ fb * 2 ^ 32 := Nat.mul_le_mul_left _ hy32
      _ < 2 ^ 64 := by omega
  have hsum : ((rate * 2 : ℕ) : ℤ) + rate - x = y := by
    rw [← hy]
    push_cast
    ring
  rw [rawRate, hrate2, hsum, ← Nat.cast_mul, u64OfInt_natCast, u64_of_lt hprod, Rcp.next, hy,
    Int.toNat_natCast, Nat.mul_comm rate 2]

/-- Beyond three times the target the difference wraps, and the quotient is at least the target. -/
theorem le_rawRate_of_lt (hpos : 0 < rate) (hrate : 3 * rate < 2 ^ 31) (hfb : fb < 2 ^ 32)
    (hfbpos : 0 < fb) (hx : 3 * (rate : ℤ) < x) (hhi : x < 2 ^ 31) : rate ≤ rawRate rate fb x := by
  have hrate2 : u32 (rate * 2) = rate * 2 := u32_of_lt (by omega)
  obtain ⟨k, hk⟩ : ∃ k : ℕ, x - 3 * (rate : ℤ) = k := ⟨(x - 3 * (rate : ℤ)).toNat, by omega⟩
  have hprod : fb * k ≤ 2 ^ 63 := by
    calc fb * k ≤ 2 ^ 32 * 2 ^ 31 := Nat.mul_le_mul (by omega) (by omega)
      _ = 2 ^ 63 := by norm_num
  have hprodpos : 0 < fb * k := Nat.mul_pos hfbpos (by omega)
  have hsum : ((rate * 2 : ℕ) : ℤ) + rate - x = -(k : ℤ) := by
    rw [← hk]
    push_cast
    ring
  -- the product is negative and wraps to the upper half of a `u64`, far above `rate * rate2`
  have hwrap : u64OfInt (fb * (((rate * 2 : ℕ) : ℤ) + rate - x)) = 2 ^ 64 - fb * k := by
    rw [hsum, mul_neg, ← Nat.cast_mul]
    unfold u64OfInt
    omega
  have hsquare : rate * (rate * 2) ≤ 2 ^ 63 := by
    calc rate * (rate * 2) ≤ 2 ^ 31 * 2 ^ 32 := Nat.mul_le_mul (by omega) (by omega)
      _ = 2 ^ 63 := by norm_num
  rw [rawRate, hrate2, hwrap, Nat.le_div_iff_mul_le (by omega)]
  omega

theorem newRate_of_lt (hpos : 0 < rate) (hrate : 3 * rate < 2 ^ 31) (hfb : fb < 2 ^ 32)
    (hfbpos : 0 < fb) (hmin : p.isoMinRfair ≤ rate) (hx : 3 * (rate : ℤ) < x)
    (hhi : x < 2 ^ 31) : newRate p rate fb x = rate := by
  rw [newRate, min_eq_left (le_rawRate_of_lt hpos hrate hfb hfbpos hx hhi), max_eq_right hmin]

/-- The step that is meant. -/
theorem newRate_eq_clamped (hrate : 3 * rate < 2 ^ 31) (hfb : fb < 2 ^ 32) (hlo : -2 ^ 31 ≤ x)
    (hx : x ≤ 3 * rate) : newRate p rate fb x = Rcp.clamped p.isoMinRfair rate rate fb x := by
  rw [newRate, rawRate_eq_next hrate hfb hlo hx, Rcp.clamped]

theorem newRate_anti {y : ℤ} (hrate : 3 * rate < 2 ^ 31) (hfb : fb < 2 ^ 32) (hlo : -2 ^ 31 ≤ x)
    (hxy : x ≤ y) (hy : y ≤ 3 * rate) : newRate p rate fb y ≤ newRate p rate fb x := by
  rw [newRate_eq_clamped hrate hfb (hlo.trans hxy) hy,
    newRate_eq_clamped hrate hfb hlo (hxy.trans hy)]
  exact Rcp.clamped_anti hxy

theorem newRate_le (hrate : 3 * rate < 2 ^ 31) (hfb : fb < 2 ^ 32) (hge : p.isoMinRfair ≤ fb)
    (hx : (rate : ℤ) ≤ x) (hx3 : x ≤ 3 * rate) : newRate p rate fb x ≤ fb := by
  rw [newRate_eq_clamped hrate hfb (by omega) hx3]
  exact Rcp.clamped_le hge hx

theorem le_newRate (hpos : 0 < rate) (hrate : 3 * rate < 2 ^ 31) (hfb : fb < 2 ^ 32)
    (hlo : -2 ^ 31 ≤ x) (hx : x ≤ rate) : min fb rate ≤ newRate p rate fb x := by
  rw [newRate_eq_clamped hrate hfb hlo (by omega)]
  exact Rcp.le_clamped hpos hx

theorem newRate_three_mul (hrate : 3 * rate < 2 ^ 31) (hfb : fb < 2 ^ 32) :
    newRate p rate fb (3 * rate) = p.isoMinRfair := by
  rw [newRate_eq_clamped hrate hfb (by omega) (le_refl _)]
  exact Rcp.clamped_of_le (le_refl _)

theorem lt_newRate_of_le_neg (hpos : 0 < rate) (hrate : 3 * rate < 2 ^ 31) (hfb : fb < 2 ^ 32)
    (hminpos : 0 < p.isoMinRfair) (hge : p.isoMinRfair ≤ fb) (hmin : p.isoMinRfair < rate)
    (hlo : -2 ^ 31 ≤ x) (hx : x ≤ -(rate : ℤ)) : p.isoMinRfair < newRate p rate fb x := by
  have hdouble : 2 * fb ≤ rawRate rate fb x := by
    rw [rawRate_eq_next hrate hfb hlo (by omega)]
    exact Rcp.two_mul_le_next hpos hx
  rw [newRate]
  omega

end Fits

/-! ### The load an update sees -/

/-- The numbers of an update fit their types, and it covers at least 8 µs. -/
structure Fits (rate feedbackRate dt bytes : ℕ) : Prop where
  rate_lt : 3 * rate < 2 ^ 31
  feedbackRate_lt : feedbackRate < 2 ^ 32
  dt_ge : 8 ≤ dt
  bytes_lt : bytes * 8 < 2 ^ 64
  measured_lt : bytes * 8 / dt < 2 ^ 31

section Load

variable {p : Params} {dt rate rxPkts rxMarked m : ℕ}

theorem extra_le (p : Params) (dt rxPkts rxMarked : ℕ) :
    extra p dt rxPkts rxMarked ≤ 2 ^ 22 := by
  have hlt : u32 (p.isoEcnMarkThreshBytes * 8 * (den + frac rxPkts rxMarked)) < 2 ^ 32 :=
    Nat.mod_lt _ (by decide)
  refine (Nat.div_le_self _ _).trans (Nat.div_le_of_le_mul ?_)
  rw [show den * 2 ^ 22 = 2 ^ 32 from rfl]
  exact hlt.le

theorem usedRate_of_frac_eq_zero (hfrac : frac rxPkts rxMarked = 0) (hm : m < 2 ^ 31) :
    usedRate p dt rate rxPkts rxMarked m = m := by
  rw [usedRate, if_neg (by simpa using hfrac)]
  exact s32_of_fits (by omega) (by omega)

theorem usedRate_of_frac_ne_zero (hfrac : frac rxPkts rxMarked ≠ 0) (hrate : 3 * rate < 2 ^ 31)
    (hm : m < 2 ^ 31) :
    usedRate p dt rate rxPkts rxMarked m =
      min (s32 (m + extra p dt rxPkts rxMarked)) (3 * rate) := by
  rw [usedRate, if_pos hfrac, s32_of_fits (z := (m : ℤ)) (by omega) (by omega),
    u64_of_lt (by omega), s32_of_fits (z := ((3 * rate : ℕ) : ℤ)) (by omega) (by omega)]
  push_cast
  rfl

/-- The sum of the measured rate and the correction leaves the `int`: the load turns negative. -/
theorem usedRate_of_overflow (hfrac : frac rxPkts rxMarked ≠ 0) (hrate : 3 * rate < 2 ^ 31)
    (hm : m < 2 ^ 31) (hover : 2 ^ 31 ≤ m + extra p dt rxPkts rxMarked) :
    usedRate p dt rate rxPkts rxMarked m ≤ -(rate : ℤ) := by
  have hextra := extra_le p dt rxPkts rxMarked
  have hwrap : s32 (m + extra p dt rxPkts rxMarked) =
      (m : ℤ) + extra p dt rxPkts rxMarked - 2 ^ 32 := by
    rw [s32, Int.bmod]
    omega
  rw [usedRate_of_frac_ne_zero hfrac hrate hm, hwrap]
  omega

/-- Any smaller rate is measured for some smaller number of bytes. -/
theorem exists_bytes {bytes : ℕ} (hdt : 8 ≤ dt) (hm : m ≤ bytes * 8 / dt) :
    ∃ bytes₀ ≤ bytes, bytes₀ * 8 / dt = m := by
  have hle : m * dt ≤ bytes * 8 := (Nat.le_div_iff_mul_le (by omega)).1 hm
  refine ⟨(m * dt + 7) / 8, by omega, ?_⟩
  apply Nat.div_eq_of_lt_le
  · omega
  · rw [Nat.add_mul]
    omega

end Load

/-! ### When an update responds -/

/-- The exceptions, in terms of the measured rate `m`. -/
theorem direction_iff {p : Params} (hminpos : 0 < p.isoMinRfair) (dt rxPkts rxMarked : ℕ)
    {rate fb m : ℕ} (hpos : 0 < rate) (hge : p.isoMinRfair ≤ fb) (hrate : 3 * rate < 2 ^ 31)
    (hfb : fb < 2 ^ 32) (hm : m < 2 ^ 31) :
    let x := usedRate p dt rate rxPkts rxMarked
    let new := fun m => newRate p rate fb (x m)
    (((rate : ℤ) ≤ x m → new m ≤ fb ∨ new m = p.isoMinRfair) ∧
        (x m ≤ rate → min fb rate ≤ new m) ∧ ∀ m₀ ≤ m, new m ≤ new m₀) ↔
      rate ≤ p.isoMinRfair ∨
        if frac rxPkts rxMarked = 0 then m ≤ 3 * rate
        else m + extra p dt rxPkts rxMarked < 2 ^ 31 := by
  intro x new
  have hextra := extra_le p dt rxPkts rxMarked
  constructor
  · rintro ⟨-, -, hmono⟩
    by_contra hnot
    rw [not_or, Nat.not_le] at hnot
    obtain ⟨hmin, hnot⟩ := hnot
    -- for a smaller load of `3 * rate` the VQ stops its senders, for this one it does not
    have hstop : ∀ m₀ ≤ m, x m₀ = 3 * rate → p.isoMinRfair < new m → False := by
      intro m₀ hle hx hlt
      have h := hmono m₀ hle
      simp only [new] at h hlt
      rw [hx, newRate_three_mul hrate hfb] at h
      omega
    split_ifs at hnot with hfrac
    · -- no marks: the VQ advertises its whole target
      refine hstop (3 * rate) (by omega) ?_ ?_
      · have hx : x (3 * rate) = ((3 * rate : ℕ) : ℤ) := usedRate_of_frac_eq_zero hfrac hrate
        simpa using hx
      · have hx : x m = m := usedRate_of_frac_eq_zero hfrac hm
        simp only [new]
        rw [hx, newRate_of_lt hpos hrate hfb (by omega) hmin.le (by omega) (by omega)]
        exact hmin
    · -- marks: the load turns negative, and the VQ advertises more than before
      refine hstop (2 ^ 31 - 1 - extra p dt rxPkts rxMarked) (by omega) ?_ ?_
      · simp only [x]
        rw [usedRate_of_frac_ne_zero hfrac hrate (by omega), s32_of_fits (by omega) (by omega)]
        omega
      · exact lt_newRate_of_le_neg hpos hrate hfb hminpos hge hmin (usedRate_ge ..)
          (usedRate_of_overflow hfrac hrate hm (by omega))
  · rintro (hmin | hload)
    · have hnew : ∀ m, new m = p.isoMinRfair := fun m => newRate_of_le hmin ..
      refine ⟨fun _ => Or.inr (hnew m), fun _ => ?_, fun m₀ _ => ?_⟩
      · rw [hnew]
        exact (min_le_right _ _).trans hmin
      · rw [hnew, hnew]
    · -- the load grows with the measured rate, up to `3 * rate`
      have hx : ∀ m₀ ≤ m, x m₀ ≤ x m ∧ x m ≤ 3 * rate := by
        intro m₀ hle
        simp only [x]
        split_ifs at hload with hfrac
        · rw [usedRate_of_frac_eq_zero hfrac hm, usedRate_of_frac_eq_zero hfrac (by omega)]
          omega
        · rw [usedRate_of_frac_ne_zero hfrac hrate hm,
            usedRate_of_frac_ne_zero hfrac hrate (by omega), s32_of_fits (by omega) (by omega),
            s32_of_fits (by omega) (by omega)]
          omega
      have htop := (hx m (le_refl _)).2
      refine ⟨fun hhigh => Or.inl ?_, fun hlow => ?_, fun m₀ hle => ?_⟩
      · exact newRate_le hrate hfb hge hhigh htop
      · exact le_newRate hpos hrate hfb (usedRate_ge ..) hlow
      · exact newRate_anti hrate hfb (usedRate_ge ..) (hx m₀ hle).1 htop

theorem responds_iff_of_fits {p : Params} (hmax : p.isoVqDrainRateMbps ≤ p.isoMaxTxRate)
    (hminpos : 0 < p.isoMinRfair) {rcpRate dt bytes : ℕ} (rxPkts rxMarked : ℕ) {vq : Vq C}
    (hpos : 0 < target rcpRate vq) (hge : p.isoMinRfair ≤ vq.feedbackRate)
    (fits : Fits (target rcpRate vq) vq.feedbackRate dt bytes) :
    Responds p rcpRate dt rxPkts rxMarked vq bytes ↔
      target rcpRate vq ≤ p.isoMinRfair ∨
        if frac rxPkts rxMarked = 0 then bytes * 8 / dt ≤ 3 * target rcpRate vq
        else bytes * 8 / dt + extra p dt rxPkts rxMarked < 2 ^ 31 := by
  have hrate := fits.rate_lt
  have hdt := fits.dt_ge
  have hrate2 : 0 < u32 (target rcpRate vq * 2) := by
    rw [u32_of_lt (by omega)]
    omega
  refine (responds_iff_newRate hmax rxPkts rxMarked vq (by omega) fits.bytes_lt hrate2).trans ?_
  refine Iff.trans ?_ (direction_iff hminpos dt rxPkts rxMarked hpos hge hrate
    fits.feedbackRate_lt fits.measured_lt)
  refine and_congr Iff.rfl (and_congr Iff.rfl ⟨fun h m₀ hm₀ => ?_, fun h bytes₀ hle => ?_⟩)
  · -- every smaller rate is that of some smaller byte count, since an update covers 8 µs
    obtain ⟨bytes₀, hle, rfl⟩ := exists_bytes hdt hm₀
    exact h bytes₀ hle
  · exact h _ (Nat.div_le_div_right (Nat.mul_le_mul_right 8 hle))

/-- A VQ with nothing to control always responds. -/
theorem responds_of_target_le {p : Params} (hmax : p.isoVqDrainRateMbps ≤ p.isoMaxTxRate)
    {rcpRate dt bytes : ℕ} (rxPkts rxMarked : ℕ) {vq : Vq C} (hpos : 0 < target rcpRate vq)
    (hmin : target rcpRate vq ≤ p.isoMinRfair) (hint : p.isoMinRfair < 2 ^ 31) (hdt : 0 < dt)
    (hbytes : bytes * 8 < 2 ^ 64) : Responds p rcpRate dt rxPkts rxMarked vq bytes := by
  have hrate2 : 0 < u32 (target rcpRate vq * 2) := by
    rw [u32_of_lt (by omega)]
    omega
  refine (responds_iff_newRate hmax rxPkts rxMarked vq hdt hbytes hrate2).2 ?_
  simp only [newRate_of_le hmin]
  exact ⟨fun _ => Or.inr trivial, fun _ => (min_le_right _ _).trans hmin, fun _ _ => le_refl _⟩

/-- For an old rate of `2^63` an update with an even difference advertises the minimum. -/
theorem newRate_of_even {p : Params} {rate : ℕ} {x : ℤ} (hx : (rate : ℤ) % 2 = x % 2) :
    newRate p rate (2 ^ 63) x = p.isoMinRfair := by
  obtain ⟨t, ht⟩ : ∃ t : ℤ, (u32 (rate * 2) : ℤ) + rate - x = 2 * t := by
    refine ⟨((u32 (rate * 2) : ℤ) + rate - x) / 2, ?_⟩
    unfold u32
    omega
  have hwrap : u64OfInt (((2 ^ 63 : ℕ) : ℤ) * ((u32 (rate * 2) : ℤ) + rate - x)) = 0 := by
    rw [ht, u64OfInt]
    push_cast
    omega
  rw [newRate, rawRate, hwrap, Nat.zero_div]
  simp

/-- So it does not respond to a load of 0 or 1, which is below the target. -/
theorem not_responds_of_even {p : Params} (hmax : p.isoVqDrainRateMbps ≤ p.isoMaxTxRate)
    {rcpRate : ℕ} {vq : Vq C} (hfb : vq.feedbackRate = 2 ^ 63)
    (hmin : p.isoMinRfair < target rcpRate vq) (hlt : target rcpRate vq < 2 ^ 63) :
    ¬ Responds p rcpRate 8 1 0 vq (target rcpRate vq % 2) := by
  by_cases hrate2 : u32 (target rcpRate vq * 2) = 0
  · rintro ⟨vq', hup, -⟩
    exact update_ne_ok hmax 1 0 vq (by decide) (by omega) hrate2 vq' hup
  · intro h
    have h := (responds_iff_newRate hmax 1 0 vq (by decide) (by omega)
      (Nat.pos_of_ne_zero hrate2)).1 h
    simp only [hfb] at h
    obtain ⟨-, hlow, -⟩ := h
    have hparity : target rcpRate vq % 2 * 8 / 8 = target rcpRate vq % 2 := by omega
    have hx : usedRate p 8 (target rcpRate vq) 1 0 (target rcpRate vq % 2) =
        (target rcpRate vq % 2 : ℕ) := usedRate_of_frac_eq_zero (by decide) (by omega)
    rw [hparity, hx, newRate_of_even (by omega)] at hlow
    have h := hlow (by omega)
    omega

/-- **When the controller reacts in the right direction.**  For all old rates, loads and marks it
does so only if the target is at most `ISO_MIN_RFAIR`.  For a single update whose numbers fit their
types it does so for such a target, for a load of up to three times the target when no packet is
marked, and for a load that still fits an `int` with the correction when packets are marked. -/
theorem responds_iff {p : Params} (hminpos : 0 < p.isoMinRfair)
    (hmax : p.isoVqDrainRateMbps ≤ p.isoMaxTxRate) (hint : p.isoVqDrainRateMbps < 2 ^ 31)
    {vq : Vq C} (hvq : vq.Sound p) (rcpRate : ℕ) (hrcp : p.isoMinRfair ≤ rcpRate)
    (hrcp' : rcpRate ≤ p.isoVqDrainRateMbps) :
    ((∀ feedbackRate, p.isoMinRfair ≤ feedbackRate → feedbackRate < 2 ^ 64 →
        ∀ dt rxPkts rxMarked bytes, 0 < dt → bytes * 8 < 2 ^ 64 → bytes * 8 / dt < 2 ^ 31 →
          Responds p rcpRate dt rxPkts rxMarked { vq with feedbackRate := feedbackRate } bytes) ↔
      target rcpRate vq ≤ p.isoMinRfair) ∧
    ∀ dt rxPkts rxMarked bytes, Fits (target rcpRate vq) vq.feedbackRate dt bytes →
      (Responds p rcpRate dt rxPkts rxMarked vq bytes ↔
        target rcpRate vq ≤ p.isoMinRfair ∨
          if frac rxPkts rxMarked = 0 then bytes * 8 / dt ≤ 3 * target rcpRate vq
          else bytes * 8 / dt + extra p dt rxPkts rxMarked < 2 ^ 31) := by
  have hpos : 0 < target rcpRate vq :=
    hvq.target_pos hvq.weight_pos (hminpos.trans_le hrcp) hrcp' hint
  have hle : target rcpRate vq ≤ 1024 * p.isoVqDrainRateMbps := hvq.target_le hrcp'
  refine ⟨⟨fun hall => ?_, fun hmin => ?_⟩, fun dt rxPkts rxMarked bytes fits => ?_⟩
  · -- an old rate of `2^63` is advertised by no controller, but it is in the range of the property
    by_contra hnot
    have hsame : target rcpRate { vq with feedbackRate := 2 ^ 63 } = target rcpRate vq := rfl
    have hno : ¬ Responds p rcpRate 8 1 0 { vq with feedbackRate := 2 ^ 63 }
        (target rcpRate { vq with feedbackRate := 2 ^ 63 } % 2) :=
      not_responds_of_even hmax rfl (by rw [hsame]; omega) (by rw [hsame]; omega)
    rw [hsame] at hno
    exact hno (hall (2 ^ 63) (by omega) (by omega) 8 1 0 _ (by decide) (by omega) (by omega))
  · intro feedbackRate _ _ dt rxPkts rxMarked bytes hdt hbytes _
    exact responds_of_target_le hmax rxPkts rxMarked hpos hmin (by omega) hdt hbytes
  · exact responds_iff_of_fits hmax hminpos rxPkts rxMarked hpos hvq.feedbackRate_ge fits

/-- A VQ that is capped at 100 Mb/s and advertises 50 Mb/s. -/
def cappedVq : Vq Unit :=
  { Vq.init {} 0 true 0 with isStatic := true, rate := 100, feedbackRate := 50 }

theorem responds_iff_cappedVq : Responds {} 9000 1000 10 0 cappedVq 37500 := by
  have hvq : cappedVq.Sound {} := ⟨⟨by decide, fun _ => by decide, by decide⟩, by decide⟩
  have h := responds_iff (by decide) (by decide) (by decide) hvq 9000 (by decide) (by decide)
  refine (h.2 1000 10 0 37500 ⟨?_, ?_, ?_, ?_, ?_⟩).2 (Or.inr ?_)
  all_goals decide

/-- At ten times the cap, it advertises the whole cap: twice the old rate. -/
theorem not_responds_cappedVq :
    (update {} 9000 1000 10 0 cappedVq 125000).map storedRate = .ok 1000 ∧
      (update {} 9000 1000 10 0 cappedVq 125000).map feedbackRate = .ok 100 ∧
      ¬ Responds {} 9000 1000 10 0 cappedVq 125000 := by
  have hstored : (update {} 9000 1000 10 0 cappedVq 125000).map storedRate = .ok 1000 := by
    decide +kernel
  have hnew : (update {} 9000 1000 10 0 cappedVq 125000).map feedbackRate = .ok 100 := by
    decide +kernel
  refine ⟨hstored, hnew, ?_⟩
  rintro ⟨vq', hup, hhigh, -⟩
  rw [hup] at hstored hnew
  have hstored : vq'.storedRate = 1000 := Except.ok.inj hstored
  have hnew : vq'.feedbackRate = 100 := Except.ok.inj hnew
  rw [hstored, hnew] at hhigh
  exact absurd (hhigh (by decide)) (by decide)

end EyeQ.Vq
