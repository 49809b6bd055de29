import EyeQ.Tx.Equiv.Share
import EyeQ.Tx.Tick

/-!
# The band of a class

A class that is not static has a rate between what it is guaranteed and the rate of the link, and a
static class has a rate up to its cap (`InBand`).

The tick and the commands set rates inside the band.  The third writer is the limiter itself:
`iso_rl_clock` lowers the rate of a limiter that was idle or that has had no feedback for
`ISO_RFAIR_FEEDBACK_TIMEOUT_US`, down to 2.  That is meant for the limiters of destinations.  No
feedback ever comes for a class-level limiter, so once in each timeout its rate is halved, whatever
is guaranteed to the class, and it may even be raised to 2.  The other way out is a command whose
recompute returns early because there is no weight.

`runFrom_banded` is for the runs without these steps.
-/

namespace EyeQ

open Machine

variable {C : Type} {plat : Platform} {p : Params}

namespace TxClass

/-- The rate of the class-level limiter is inside the band of the class. -/
structure InBand (p : Params) (txc : TxClass C) : Prop where
  guaranteed : txc.isStatic = false → txc.minRate ≤ txc.rl.rate
  link : txc.isStatic = false → txc.rl.rate ≤ p.isoMaxTxRate
  cap : txc.isStatic = true → txc.rl.rate ≤ txc.maxRate

/-- The band is about these four fields. -/
theorem InBand.congr {txc txc' : TxClass C} (h : txc.InBand p)
    (hstatic : txc'.isStatic = txc.isStatic) (hmin : txc'.minRate = txc.minRate)
    (hmax : txc'.maxRate = txc.maxRate) (hrate : txc'.rl.rate = txc.rl.rate) : txc'.InBand p := by
  constructor
  · rw [hstatic, hmin, hrate]
    exact h.guaranteed
  · rw [hstatic, hrate]
    exact h.link
  · rw [hstatic, hmax, hrate]
    exact h.cap

theorem recomputeRate_inBand {total : ℤ} {txc : TxClass C}
    (hmin : (txc.recomputeRate p total).minRate ≤ p.isoMaxTxRate) :
    (txc.recomputeRate p total).InBand p := by
  constructor
  · intro (hstatic : txc.isStatic = false)
    simp [recomputeRate, hstatic]
  · intro (hstatic : txc.isStatic = false)
    simpa [recomputeRate, hstatic] using hmin
  · intro (hstatic : txc.isStatic = true)
    simp [recomputeRate, hstatic]

theorem setRate_inBand (rate : ℕ) {txc : TxClass C} (hmin : txc.minRate ≤ p.isoMaxTxRate) :
    (TxTick.setRate p rate txc).InBand p := by
  constructor
  · intro (hstatic : txc.isStatic = false)
    simp [TxTick.setRate, TxTick.classRate, hstatic]
  · intro (hstatic : txc.isStatic = false)
    simp [TxTick.setRate, TxTick.classRate, hstatic, hmin]
  · intro (hstatic : txc.isStatic = true)
    simp [TxTick.setRate, TxTick.classRate, hstatic]

end TxClass

/-- Neither of the two timeouts of `iso_rl_clock` has passed; the first matters only above
`ISO_IDLE_RATE`. -/
def Rl.Fresh (p : Params) (now : ℕ) (rl : Rl C) : Prop :=
  (u64OfInt (ktimeUsDelta now rl.lastUpdateTime) ≤ isoIdleTimeoutUs ∨ rl.rate ≤ isoIdleRate) ∧
    u64OfInt (ktimeUsDelta now rl.lastRateUpdateTime) ≤ p.isoRfairFeedbackTimeoutUs

instance (p : Params) (now : ℕ) (rl : Rl C) : Decidable (rl.Fresh p now) :=
  inferInstanceAs (Decidable (_ ∧ _))

theorem Rl.Fresh.refill_rate {now : ℕ} {rl : Rl C} (h : rl.Fresh p now) :
    (rl.refill p now).rate = rl.rate := by
  have hidle : ¬ (u64OfInt (ktimeUsDelta now rl.lastUpdateTime) > isoIdleTimeoutUs ∧
      rl.rate > isoIdleRate) := by
    have := h.1
    omega
  simp only [Rl.refill, if_neg hidle, if_neg (not_lt.2 h.2)]

namespace TxContext

variable {ctx : TxContext C}

def Banded (p : Params) (ctx : TxContext C) : Prop := ∀ k ∈ ctx.txcList, (ctx.txcs k).InBand p

/-- The classes share the link.  No class was deleted, so this is about all that are on the list. -/
structure Apportioned (plat : Platform) (p : Params) (ctx : TxContext C) : Prop where
  indexed : ctx.Indexed plat
  freed : ctx.freed = []
  shares : ctx.Shares p

/-- What a run keeps. -/
structure Held (plat : Platform) (p : Params) (ctx : TxContext C) : Prop
    extends Apportioned plat p ctx where
  banded : ctx.Banded p

/-- No class is guaranteed more than the link has. -/
theorem Apportioned.minRate_le (h : ctx.Apportioned plat p) {k : ℕ} (hk : k ∈ ctx.txcList) :
    (ctx.txcs k).minRate ≤ p.isoMaxTxRate := by
  have hchained : ctx.Hashes plat := h.indexed.chained
  have hlt : k < ctx.brk := (h.indexed.mem_list_iff k).1 hk
  have hhashed : k ∈ ctx.hashed :=
    hchained.mem_hashed.2 ((h.indexed.hashed_iff k).2 ⟨hlt, by simp [h.freed]⟩)
  have hpart : (ctx.txcs k).minRate ≤ ctx.minRateSum :=
    List.single_le_sum (fun _ _ => Nat.zero_le _) _ (List.mem_map_of_mem hhashed)
  exact hpart.trans h.shares.fits

theorem Banded.modifyTxc (h : ctx.Banded p) (k : ℕ) {f : TxClass C → TxClass C}
    (hf : k ∈ ctx.txcList → (ctx.txcs k).InBand p → (f (ctx.txcs k)).InBand p) :
    (ctx.modifyTxc k f).Banded p := by
  intro k' hk'
  simp only [TxContext.modifyTxc, Function.update_apply]
  split_ifs with heq
  · subst heq
    exact hf hk' (h k' hk')
  · exact h k' hk'

/-- Another class-level limiter for a class, with a rate inside the band. -/
theorem Held.modifyRl (h : ctx.Held plat p) (k : ℕ) {f : TxClass C → TxClass C}
    (hf : ∀ txc, ∃ rl, f txc = { txc with rl := rl })
    (hband : k ∈ ctx.txcList → (ctx.txcs k).InBand p → (f (ctx.txcs k)).InBand p) :
    (ctx.modifyTxc k f).Held plat p where
  indexed := by
    refine h.indexed.congr ((Reconfigured.refl ctx).modifyTxc k fun txc => ?_).sameIndex
    obtain ⟨rl, hrl⟩ := hf txc
    exact ⟨rl, _, _, _, _, hrl⟩
  freed := h.freed
  shares := by
    obtain ⟨rl, hrl⟩ := hf (ctx.txcs k)
    exact h.shares.modifyTxc k (by rw [hrl]) (by rw [hrl])
  banded := h.banded.modifyTxc k hband

/-! ### The commands -/

/-- The rates that are computed anew are inside the band; those that are not have to be so
already. -/
theorem banded_recompute (h : (isoTxcRecomputeRates p ctx).Apportioned plat p)
    (hzero : ctx.txcTotalWeight = 0 → ctx.Banded p) : (isoTxcRecomputeRates p ctx).Banded p := by
  have hsame : SameIndex ctx (isoTxcRecomputeRates p ctx) :=
    (SameIndex.refl ctx).isoTxcRecomputeRates
  by_cases htotal : ctx.txcTotalWeight = 0
  · rw [isoTxcRecomputeRates, if_pos htotal]
    exact hzero htotal
  · intro k hk
    have hmin := h.minRate_le hk
    have hlist : ctx.txcList.Nodup := hsame.txcList ▸ h.indexed.list_nodup
    rw [hsame.txcList] at hk
    rw [isoTxcRecomputeRates_txcs hlist htotal, if_pos hk] at hmin ⊢
    exact TxClass.recomputeRate_inBand hmin

/-- What a command has to do for the classes to stay inside their bands; the rest is known of every
command. -/
theorem Held.command (h : ctx.Held plat p) (hC : 1024 * p.isoMaxTxRate < 2 ^ 31)
    (hroom : ctx.weightSum + 1024 < 2 ^ 31) {op : Op} (hop : ∀ klass, ¬ op.Deletes klass)
    (hbanded : (step plat p ctx op).Apportioned plat p → (step plat p ctx op).Banded p) :
    (step plat p ctx op).Held plat p := by
  have hshares : (step plat p ctx op).Apportioned plat p :=
    { indexed := h.indexed.step op
      freed := (freed_step_iff ctx op).2 ⟨h.freed, fun klass hdel => absurd hdel (hop klass)⟩
      shares := h.shares.step h.indexed hC hroom op }
  exact ⟨hshares, hbanded hshares⟩

/-- A new class has a weight, so the rates are computed. -/
theorem Held.createTxc (h : ctx.Held plat p) (hC : 1024 * p.isoMaxTxRate < 2 ^ 31)
    (hroom : ctx.weightSum + 1024 < 2 ^ 31) (now : ℕ) (kmalloc : Bool) (rounds : List Bool)
    (klass : UInt32) : (step plat p ctx (.createTxc now kmalloc rounds klass)).Held plat p := by
  refine h.command hC hroom (fun _ => id) ?_
  show Apportioned plat p (isoTxcMarkInstall plat p now kmalloc rounds klass ctx).2 →
    (isoTxcMarkInstall plat p now kmalloc rounds klass ctx).2.Banded p
  unfold isoTxcMarkInstall
  split
  · exact fun _ => h.banded
  · cases kmalloc with
    | false => exact fun _ => h.banded
    | true =>
      intro hshares
      refine banded_recompute hshares fun hzero => ?_
      have hweight : (TxClass.isoTxcPrealloc p now rounds (.init p now klass : TxClass C)).weight =
          1 :=
        TxClass.isoTxcPrealloc_field TxClass.weight (fun _ => rfl) rounds _
      have hzero : s32 (ctx.txcTotalWeight + _) = 0 := hzero
      rw [h.shares.total, hweight, s32_of_fits (by omega) (by omega)] at hzero
      omega

/-- The band does not depend on the weight, so it does not matter if no weight is left. -/
theorem Held.setTxcWeight (h : ctx.Held plat p) (hC : 1024 * p.isoMaxTxRate < 2 ^ 31)
    (hroom : ctx.weightSum + 1024 < 2 ^ 31) (klass : UInt32) (weight : ℤ) :
    (step plat p ctx (.setTxcWeight klass weight)).Held plat p := by
  refine h.command hC hroom (fun _ => id) ?_
  show Apportioned plat p (isoSysSetTxcWeight plat p klass weight ctx).2 →
    (isoSysSetTxcWeight plat p klass weight ctx).2.Banded p
  unfold isoSysSetTxcWeight
  split
  · exact fun _ => h.banded
  · split_ifs
    · exact fun _ => h.banded
    · intro hshares
      refine banded_recompute hshares fun _ => ?_
      exact h.banded.modifyTxc _ fun _ hband => hband.congr rfl rfl rfl rfl

/-- The band depends on the cap, so the rates have to be computed. -/
theorem Held.setTxcRate (h : ctx.Held plat p) (hC : 1024 * p.isoMaxTxRate < 2 ^ 31)
    (hroom : ctx.weightSum + 1024 < 2 ^ 31) (hweight : ctx.txcTotalWeight ≠ 0) (klass : UInt32)
    (rate : ℤ) : (step plat p ctx (.setTxcRate klass rate)).Held plat p := by
  refine h.command hC hroom (fun _ => id) ?_
  show Apportioned plat p (isoSysSetTxcRate plat p klass rate ctx).2 →
    (isoSysSetTxcRate plat p klass rate ctx).2.Banded p
  unfold isoSysSetTxcRate
  split
  · exact fun _ => h.banded
  · split_ifs
    · exact fun _ => h.banded
    · intro hshares
      exact banded_recompute hshares fun hzero => absurd hzero hweight

theorem init_held (plat : Platform) (p : Params) : (init p : TxContext C).Held plat p :=
  ⟨⟨init_indexed plat p, rfl, init_shares p⟩, fun _ hk => absurd hk List.not_mem_nil⟩

end TxContext

namespace TxTick

variable {t : TxTick C}

/-! ### The tick -/

theorem tickClass_held (h : t.ctx.Held plat p) (online : List C) (dt k : ℕ) :
    Ends (fun t => t.ctx.Held plat p) (fun _ => True) (tickClass p online dt t k) := by
  refine (ends_true _).bind fun txRate _ => ?_
  refine h.modifyRl k (fun txc => ⟨_, rfl⟩) fun hk _ => ?_
  exact TxClass.setRate_inBand t.rate (h.minRate_le hk)

theorem tick_held (h : t.ctx.Held plat p) (online : List C) (txBytes : C → ℕ) (now dt : ℕ) :
    Ends (fun t => t.ctx.Held plat p) (fun _ => True) (tick p online txBytes now dt t) := by
  refine (ends_true _).bind fun txRate _ => (ends_true _).bind fun rate _ => ?_
  refine runE_ends (P := fun t : TxTick C => t.ctx.Held plat p) (tickClass p online dt)
    (fun t k (_ : True) ht => tickClass_held ht online dt k) ?_ fun _ _ => trivial
  exact h

theorem isoTxcTick_held (h : t.ctx.Held plat p) (online : List C) (now : ℕ) (lock : Bool)
    (txBytes : C → ℕ) :
    Ends (fun t => t.ctx.Held plat p) (fun _ => True) (isoTxcTick p online now lock txBytes t) :=
  Ends.ite (fun _ => h) fun _ => tick_held h online txBytes now _

/-! ### Runs -/

/-- The steps that leave the classes inside their bands: a limiter that is due is clocked before its
timeouts, caps change only while there is a weight, and there is always room for one more weight. -/
def Op.KeepsBand (p : Params) (t : TxTick C) : Op C → Prop
  | .clock k now now₂ =>
    ktimeUsDelta now (t.ctx.txcs k).rl.lastUpdateTime > p.isoRlUpdateIntervalUs →
      (t.ctx.txcs k).rl.Fresh p now₂
  | .setTxcRate _ _ => t.ctx.txcTotalWeight ≠ 0 ∧ t.ctx.weightSum + 1024 < 2 ^ 31
  | .createTxc _ _ _ _ | .setTxcWeight _ _ => t.ctx.weightSum + 1024 < 2 ^ 31
  | .tick _ _ _ | .queue _ _ _ => True

theorem clock_inBand {now now₂ : ℕ} {txc : TxClass C} (h : txc.InBand p)
    (hfresh : ktimeUsDelta now txc.rl.lastUpdateTime > p.isoRlUpdateIntervalUs →
      txc.rl.Fresh p now₂) :
    (clock p now now₂ txc).InBand p := by
  unfold clock
  split_ifs with hdue
  · exact h.congr rfl rfl rfl (hfresh hdue).refill_rate
  · exact h

/-- It is what `iso_rl_clock` does to a limiter of a tx context. -/
theorem isoRlClock_rl {K D : Type} [DecidableEq K] [DecidableEq D] [DecidableEq C] (kern : Kernel)
    (r : RlId K D) (s : TxState K D C) {txc : TxClass C} (hrl : s.rl r = txc.rl) :
    (Rl.isoRlClock p kern r s).rl r =
    (clock p (kern.ktime s.reads) (kern.ktime s.read.reads) txc).rl := by
  unfold Rl.isoRlClock clock
  rw [hrl]
  split_ifs
  · simp [TxState.read, TxState.modifyRl, hrl]
  · exact hrl

theorem step_held (hC : 1024 * p.isoMaxTxRate < 2 ^ 31) (online : List C) {op : Op C}
    (hop : op.KeepsBand p t) (h : t.ctx.Held plat p) :
    Ends (fun t => t.ctx.Held plat p) (fun _ => True) (step plat p online t op) := by
  cases op with
  | tick now lock txBytes => exact isoTxcTick_held h online now lock txBytes
  | clock k now now₂ =>
    refine h.modifyRl k (fun txc => ?_) fun _ hband => clock_inBand hband hop
    unfold clock
    split_ifs
    · exact ⟨_, rfl⟩
    · exact ⟨txc.rl, rfl⟩
  | queue k totalTokens queue =>
    exact h.modifyRl k (fun txc => ⟨_, rfl⟩) fun _ hband => hband.congr rfl rfl rfl rfl
  | createTxc now kmalloc rounds klass => exact h.createTxc hC hop now kmalloc rounds klass
  | setTxcWeight klass weight => exact h.setTxcWeight hC hop klass weight
  | setTxcRate klass rate => exact h.setTxcRate hC hop.2 hop.1 klass rate

/-- In a run in which no class-level limiter is clocked after a timeout, and no cap is changed while
there is no weight, every class stays inside its band. -/
theorem runFrom_banded (plat : Platform) {p : Params} (hC : 1024 * p.isoMaxTxRate < 2 ^ 31)
    (online : List C) (now : ℕ) {ops : List (Op C)}
    (hops : GuardedE (step plat p online) (fun t op => op.KeepsBand p t) (init p now) ops)
    (hrun : runFrom plat p online now ops = .ok t) : t.ctx.Banded p := by
  have hends : Ends (fun t => t.ctx.Held plat p) (fun _ => True) (runFrom plat p online now ops) :=
    hops.ends (fun _ _ hop h => step_held hC online hop h) (TxContext.init_held plat p)
  exact (hends.of_eq_ok hrun).banded

/-- A class is capped at 100 Mbit/s and clocked in time. -/
theorem runFrom_banded_capped :
    ∃ t, runFrom .x86 {} [false] 0 [.createTxc 0 true [] 1, .setTxcRate 1 100,
        .tick 300000 true fun _ => 1500, .clock 0 400000 400000] = .ok t ∧
      (t.ctx.txcs 0).rl.rate = 100 ∧ t.ctx.Banded {} := by
  have hrun := eq_ok_endOr (init {} 0) (x := runFrom .x86 {} [false] 0 [.createTxc 0 true [] 1,
    .setTxcRate 1 100, .tick 300000 true fun _ => 1500, .clock 0 400000 400000]) (by decide +kernel)
  refine ⟨_, hrun, by decide +kernel, runFrom_banded .x86 (by decide) [false] 0 ?_ hrun⟩
  refine guardedE_cons (init {} 0) (by decide +kernel : _ < _) ?_
  refine guardedE_cons (init {} 0) ⟨by decide +kernel, by decide +kernel⟩ ?_
  refine guardedE_cons (init {} 0) trivial ?_
  exact guardedE_cons (init {} 0) (fun _ => (by decide +kernel : Rl.Fresh _ _ _)) trivial

/-- The only class has the whole link.  Its limiter is clocked a little more than a second after the
class was created, and the rate is half of what is guaranteed. -/
theorem runFrom_not_banded_feedbackTimeout :
    ∃ t, runFrom .x86 {} [false] 0 [.createTxc 0 true [] 1, .clock 0 1000001000 1000001000] =
      .ok t ∧ (t.ctx.txcs 0).minRate = 9800 ∧ (t.ctx.txcs 0).rl.rate = 4900 ∧
      ¬ t.ctx.Banded {} := by
  have hrun := eq_ok_endOr (init {} 0) (x := runFrom .x86 {} [false] 0 [.createTxc 0 true [] 1,
    .clock 0 1000001000 1000001000]) (by decide +kernel)
  refine ⟨_, hrun, by decide +kernel, by decide +kernel, fun hband => ?_⟩
  have hclass := (hband 0 (by decide +kernel)).guaranteed (by decide +kernel)
  exact absurd hclass (by decide +kernel)

end TxTick

end EyeQ
