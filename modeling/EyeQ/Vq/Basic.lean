import EyeQ.Params
import EyeQ.Platform
import EyeQ.Slab.Basic

/-!
# Virtual queues: state

`Vq` is `struct iso_vq` and `RxContext` is `struct iso_rx_context`.  The VQs of a context are
objects in memory, known by their addresses: `vqs` is what is at each address, `brk` the first
address not handed out, `vqList` and `vqBucket` are the two indexes.

`percpuStats` is `none` when `alloc_percpu` failed: `iso_vq_init` then returns an error that
`iso_vq_alloc` does not look at.
-/

namespace EyeQ

/-- `struct iso_vq_stats`, of one CPU. -/
structure Vq.Stats where
  bytesQueued : ℕ := 0
  networkMarked : ℕ := 0
  rxPackets : ℕ := 0
  rxBytes : ℕ := 0
  lastFeedbackGenTime : ℕ := 0
  rxSinceLastFeedback : ℕ := 0
  rxMarkedSinceLastFeedback : ℕ := 0

/-- `struct iso_vq`. -/
structure Vq (C : Type) where
  klass : UInt32
  isStatic : Bool
  rate : ℕ
  feedbackRate : ℕ
  rxRate : ℕ
  lastRxBytes : ℕ
  weight : ℕ
  alpha : ℕ
  lastUpdateTime : ℕ
  percpuStats : Option (C → Vq.Stats)
  refcnt : ℤ

/-- `struct iso_rx_stats`. -/
structure RxStats where
  rxBytes : ℕ := 0
  rxPackets : ℕ := 0

/-- `struct iso_rx_context`. -/
structure RxContext (C : Type) where
  vqList : List ℕ
  vqBucket : UInt32 → List ℕ
  vqs : ℕ → Vq C
  brk : ℕ
  stats : C → RxStats
  globalStats : RxStats
  globalStatsLast : RxStats
  lastStatsUpdateTime : ℕ
  lastRcpTime : ℕ
  rcpRate : ℕ
  rxRate : ℕ

/-- `iso_class_hash`, as an index of the tables of classes. -/
def classHash (plat : Platform) (klass : UInt32) : UInt32 :=
  plat.jhash1word klass 0xdeadbeef &&& bucketMask

/-- `EINVAL`. -/
def einval : ℤ := 22

variable {C : Type}

/-- `iso_vq_init`, at time `now`, given whether `alloc_percpu` succeeds. -/
def Vq.init (p : Params) (now : ℕ) (percpu : Bool) (klass : UInt32) : Vq C where
  klass := klass
  isStatic := false
  rate := p.isoMinRfair
  feedbackRate := p.isoMinRfair
  rxRate := 0
  lastRxBytes := 0
  weight := 1
  alpha := 0
  lastUpdateTime := now
  percpuStats := if percpu then some fun _ => {} else none
  refcnt := 0

namespace RxContext

/-- `iso_rx_init`, with its two readings of the clock. -/
def init (p : Params) (statsNow rcpNow : ℕ) : RxContext C where
  vqList := []
  vqBucket := fun _ => []
  vqs := fun _ => Vq.init p 0 false 0
  brk := 0
  stats := fun _ => {}
  globalStats := {}
  globalStatsLast := {}
  lastStatsUpdateTime := statsNow
  lastRcpTime := rcpNow
  rcpRate := u32 p.isoVqDrainRateMbps
  rxRate := 0

def modifyVq (ctx : RxContext C) (v : ℕ) (f : Vq C → Vq C) : RxContext C :=
  { ctx with vqs := Function.update ctx.vqs v (f (ctx.vqs v)) }

/-- `iso_vq_find`. -/
def isoVqFind (plat : Platform) (ctx : RxContext C) (klass : UInt32) : Option ℕ :=
  (ctx.vqBucket (classHash plat klass)).find? fun v => (ctx.vqs v).klass = klass

/-- One round of the second loop of `iso_vq_calculate_rates`. -/
def calculateRate (p : Params) (totalWeight : ℕ) (ctx : RxContext C) (v : ℕ) :
    Except Fault (RxContext C) :=
  if (ctx.vqs v).isStatic then pure ctx
  else do
    let rate ← udiv (u64 (p.isoVqDrainRateMbps * (ctx.vqs v).weight)) totalWeight
    pure (ctx.modifyVq v fun vq => { vq with rate := rate })

/-- `iso_vq_calculate_rates`. -/
def isoVqCalculateRates (p : Params) (ctx : RxContext C) : Except Fault (RxContext C) :=
  let totalWeight := ctx.vqList.foldl (fun total v => u32 (total + (ctx.vqs v).weight)) 0
  if totalWeight > 0 then ctx.vqList.foldlM (calculateRate p totalWeight) ctx else pure ctx

/-- `iso_vq_alloc`, given whether `kmalloc` and `alloc_percpu` succeed; the first result is the VQ,
`none` for `NULL`. -/
def isoVqAlloc (plat : Platform) (p : Params) (now : ℕ) (kmalloc percpu : Bool) (klass : UInt32)
    (ctx : RxContext C) : Except Fault (Option ℕ × RxContext C) :=
  if kmalloc then do
    let v := ctx.brk
    let ctx ← isoVqCalculateRates p
      { ctx with
        vqs := Function.update ctx.vqs v (Vq.init p now percpu klass)
        brk := ctx.brk + 1
        vqList := ctx.vqList ++ [v]
        vqBucket := addHead ctx.vqBucket (classHash plat klass) v }
    pure (some v, ctx)
  else pure (none, ctx)

/-! ### The commands

A command returns `0` or `-EINVAL`.  `iso_vq_install` returns `-1`, which its caller turns into
`-EINVAL`. -/

/-- `iso_vq_install`, for the class that its argument names. -/
def isoVqInstall (plat : Platform) (p : Params) (now : ℕ) (kmalloc percpu : Bool) (klass : UInt32)
    (ctx : RxContext C) : Except Fault (ℤ × RxContext C) :=
  match isoVqFind plat ctx klass with
  | some _ => pure (-1, ctx)
  | none => do
    let (vq, ctx) ← isoVqAlloc plat p now kmalloc percpu klass ctx
    pure (if vq.isNone then -1 else 0, ctx)

/-- `iso_sys_set_vq_weight`, for the class and the weight that its argument names. -/
def isoSysSetVqWeight (plat : Platform) (p : Params) (klass : UInt32) (weight : ℤ)
    (ctx : RxContext C) : Except Fault (ℤ × RxContext C) :=
  match isoVqFind plat ctx klass with
  | none => pure (-einval, ctx)
  | some v =>
    if weight < 0 ∨ weight > 1024 then pure (-einval, ctx)
    else do
      let ctx ← isoVqCalculateRates p
        (ctx.modifyVq v fun vq => { vq with weight := u64OfInt weight })
      pure (0, ctx)

/-- `iso_sys_set_vq_rate`, for the class and the rate that its argument names. -/
def isoSysSetVqRate (plat : Platform) (p : Params) (klass : UInt32) (rate : ℤ)
    (ctx : RxContext C) : Except Fault (ℤ × RxContext C) :=
  match isoVqFind plat ctx klass with
  | none => pure (-einval, ctx)
  | some v =>
    if rate < 0 ∨ rate > p.isoVqDrainRateMbps then pure (-einval, ctx)
    else if rate > 0 then
      pure (0, ctx.modifyVq v fun vq => { vq with rate := u64OfInt rate, isStatic := true })
    else do
      let ctx ← isoVqCalculateRates p (ctx.modifyVq v fun vq => { vq with isStatic := false })
      pure (0, ctx)

end RxContext

end EyeQ
