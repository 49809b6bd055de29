import EyeQ.Host.Rx
import EyeQ.Text.Numeral

/-!
# `/proc/perfiso_stats`

The text that `iso_stats_proc_seq_show` prints: the classes of every device with their limiters, and
then the VQs of every device.  A limiter is printed by `iso_rl_show`, and before the first one of
each bucket stands `hash` and the number of the bucket.

Some of what is printed is read by nothing else in the module; the `Gauges` are these fields.  A VQ
without its per-CPU counters cannot be printed, which is a fault.
-/

namespace EyeQ

open Text

/-! ### What only the statistics read -/

/-- Of a `struct iso_rl` and its queues. -/
structure RlGauges (C : Type) where
  /-- The address of the limiter. -/
  addr : ℕ := 0
  accumXmit : ℕ := 0
  accumEnqueued : ℕ := 0
  feedbackBacklog : C → ℕ := fun _ => 0
  /-- `!list_empty(&q->active_list)`. -/
  active : C → Bool := fun _ => false
  /-- `hrtimer_active(q->cputimer)`. -/
  timer : C → Bool := fun _ => false

/-- Of a `struct iso_tx_class`. -/
structure TxcGauges (C : Type) where
  txRate : ℕ := 0
  txRateSmooth : ℕ := 0
  rl : RlGauges C := {}
  rls : ℕ → RlGauges C := fun _ => {}

/-- Of the two contexts of a device. -/
structure DevGauges (C : Type) where
  txRate : ℕ := 0
  rate : ℕ := 0
  txcs : ℕ → TxcGauges C := fun _ => {}
  vqLastUpdateTime : ℕ := 0
  vqActiveRate : ℤ := 0
  /-- `vq->enabled`. -/
  vqEnabled : ℕ → ℕ := fun _ => 1

/-- A device whose contexts are on `txctx_list` and `rxctx_list`. -/
structure StatsDev (C : Type) extends Host C where
  name : List Char
  gauges : DevGauges C

/-! ### Printing -/

namespace Stats

variable {C : Type}

/-- An address as four numbers. -/
def quad (addr : UInt32) : List Char :=
  dec ((addr &&& 0xFF000000) >>> 24).toNat ++ ".".toList ++
  dec ((addr &&& 0x00FF0000) >>> 16).toNat ++
    ".".toList ++ dec ((addr &&& 0x0000FF00) >>> 8).toNat ++ ".".toList ++
    dec (addr &&& 0x000000FF).toNat

/-- `iso_class_show`. -/
def isoClassShow (plat : Platform) (klass : UInt32) : List Char := quad (plat.ntohl klass)

/-- `%p`. -/
def ptr (addr : ℕ) : List Char := padLeft 16 '0' (hex addr)

/-- `%d` of a truth value. -/
def bit (b : Bool) : List Char := dec b.toNat

/-- The CPUs that are online, and the number of each CPU. -/
structure Cpus (C : Type) where
  online : List C
  cpu : C → ℕ

variable (plat : Platform) (cpus : Cpus C)

/-- The line for a queue. -/
def queueLine (rl : Rl C) (g : RlGauges C) (c : C) : List Char :=
  let q := rl.queue c
  if q.tokens > 0 ∨ q.list.length > 0 then
    "\t".toList ++ padLeft 3 ' ' (dec (cpus.cpu c)) ++ "   ".toList ++ padLeft 3 ' '
    (dec q.list.length) ++
      "   ".toList ++ padLeft 3 ' ' (dec q.firstPktSize) ++ "   ".toList ++
      padLeft 10 ' ' (dec q.bytesEnqueued) ++ "   ".toList ++ padLeft 6 ' '
        (dec (g.feedbackBacklog c)) ++
      "   ".toList ++ padLeft 10 ' ' (dec q.tokens) ++ "   ".toList ++
      bit (g.active c) ++ ",".toList ++
      bit (g.timer c) ++ ['\n']
  else []

/-- `iso_rl_show`. -/
def isoRlShow (rl : Rl C) (g : RlGauges C) : List Char :=
  "ip ".toList ++ hex rl.ip.toNat ++ "   rate ".toList ++ dec rl.rate ++
  "   total_tokens ".toList ++
    dec rl.totalTokens ++ "   last ".toList ++ hex rl.lastUpdateTime ++ "   ".toList ++
    ptr g.addr ++ ['\n'] ++
    (if cpus.online = [] then []
      else "\tcpu   len   first_len   queued   fbacklog   tokens  active?".toList ++ ['\n']) ++
    cpus.online.flatMap (queueLine cpus rl g)

/-- The limiters of a bucket, in `iso_txc_show`. -/
def bucketShow (txc : TxClass C) (g : TxcGauges C) (b : UInt32) : List Char :=
  (if txc.rlBucket b = [] then [] else "hash ".toList ++ dec b.toNat ++ " ".toList) ++
    (txc.rlBucket b).flatMap fun j => isoRlShow cpus (txc.rls j) (g.rls j)

/-- The indexes of `rl_bucket`; there are `ISO_MAX_RL_BUCKETS` of them. -/
def rlBuckets : List UInt32 := bucketIndexes 256

/-- What is printed for the VQ of a class. -/
def assocShow (rx : RxContext C) (txc : TxClass C) : List Char :=
  match txc.vq with
  | some v => isoClassShow plat (rx.vqs v).klass
  | none => "(none)".toList

/-- `iso_txc_show`. -/
def isoTxcShow (rx : RxContext C) (txc : TxClass C) (g : TxcGauges C) : List Char :=
  "txc class ".toList ++ isoClassShow plat txc.klass ++ "   weight ".toList ++ dec txc.weight ++
    "   assoc vq ".toList ++ assocShow plat rx txc ++ "   freelist ".toList ++
    decInt txc.freelistCount ++
    ['\n'] ++
  ("txc rl tx_rate ".toList ++ dec g.txRate ++ ",".toList ++ dec g.txRateSmooth ++
    "   rate ".toList ++
    dec txc.rl.rate ++ "   min_rate ".toList ++ dec txc.minRate ++ "   xmit ".toList ++
    dec g.rl.accumXmit ++
    "   queued ".toList ++ dec g.rl.accumEnqueued ++ ['\n']) ++
  isoRlShow cpus txc.rl g.rl ++ ['\n'] ++
  ("rate limiters:".toList ++ ['\n']) ++ rlBuckets.flatMap (bucketShow cpus txc g) ++ ['\n']

/-- The line for the counters of a CPU. -/
def vqCpuLine (stats : C → Vq.Stats) (c : C) : List Char :=
  if (stats c).bytesQueued > 0 ∨ (stats c).networkMarked > 0 then
    "\t ".toList ++ padLeft 3 ' ' (dec (cpus.cpu c)) ++ "   ".toList ++
      padLeft 8 ' ' (dec (stats c).bytesQueued) ++ "  ".toList ++ padLeft 12 ' '
        (dec (stats c).networkMarked) ++
      "   ".toList ++ dec (stats c).rxBytes ++ ['\n']
  else []

/-- The line for a VQ. -/
def vqLine (enabled : ℕ) (vq : Vq C) : List Char :=
  "vq class ".toList ++ isoClassShow plat vq.klass ++ "   flags ".toList ++
  dec enabled ++ ",".toList ++
    bit vq.isStatic ++ "   rate ".toList ++ dec vq.rate ++ "  rx_rate ".toList ++ dec vq.rxRate ++
    "  fb_rate ".toList ++ dec vq.feedbackRate ++ "  alpha ".toList ++ dec vq.alpha ++
    "/".toList ++ dec 1024 ++
    "   backlog -   weight ".toList ++ dec vq.weight ++ "   refcnt ".toList ++
    decInt vq.refcnt ++ ['\n']

/-- `iso_vq_show`. -/
def isoVqShow (enabled : ℕ) (vq : Vq C) : Except Fault (List Char) :=
  match cpus.online, vq.percpuStats with
  | [], _ => pure (vqLine plat enabled vq)
  | _ :: _, none => .error .wild
  | c :: online, some stats =>
    pure (vqLine plat enabled vq ++ ("\t cpu   enqueued   network-mark   rx".toList ++ ['\n']) ++
      (c :: online).flatMap (vqCpuLine cpus stats))

/-- The part for a tx context. -/
def txShow (d : StatsDev C) : List Char :=
  "tx->dev ".toList ++ d.name ++ ", tx_rate ".toList ++ dec d.gauges.txRate ++ ", rate ".toList ++
    dec d.gauges.rate ++ ['\n'] ++
  d.tx.hashed.flatMap fun k => isoTxcShow plat cpus d.rx (d.tx.txcs k) (d.gauges.txcs k)

/-- The part for an rx context. -/
def rxShow (d : StatsDev C) : Except Fault (List Char) := do
  let vqs ← d.rx.vqList.mapM fun v => isoVqShow plat cpus (d.gauges.vqEnabled v) (d.rx.vqs v)
  pure (['\n'] ++ ("vqs->dev ".toList ++ d.name ++ "   last_update ".toList ++
    hex d.gauges.vqLastUpdateTime ++
    "   active_rate ".toList ++ decInt d.gauges.vqActiveRate ++ "   rx_rate ".toList ++
    decInt (s32 d.rx.rxRate) ++
    "   rcp_rate ".toList ++ decInt (s32 d.rx.rcpRate) ++ ['\n']) ++ vqs.flatten)

/-- `iso_stats_proc_seq_show`. -/
def isoStatsProcSeqShow (devs : List (StatsDev C)) : Except Fault (List Char) := do
  let rx ← devs.mapM (rxShow plat cpus)
  pure (devs.flatMap (txShow plat cpus) ++ rx.flatten)

end Stats

end EyeQ
