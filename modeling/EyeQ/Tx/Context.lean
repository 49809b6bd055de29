import EyeQ.Slab.Reuse
import EyeQ.Tx.Class
import EyeQ.Vq.Basic

/-!
# The tx context: the registry of classes

`TxContext` is `struct iso_tx_context` as far as the registry goes.  Classes are objects in memory,
known by their addresses: `txcs` is what is at each address and `brk` the first address not handed
out.  There are two indexes of them, the list `txcList` that `for_each_txc` walks and the hash table
`isoTxBucket` that `iso_txc_find` looks into.

`freed` is a history variable: the addresses given to `kfree`, which are not handed out again.
(What comes of memory that is handed out again is the subject of `Dev`.)  `hashed` is what a walk
over the hash table meets.
-/

namespace EyeQ

namespace TxClass

variable {C : Type}

def setWeight (weight : ℕ) (txc : TxClass C) : TxClass C := { txc with weight := weight }

/-- Cap the class at a rate, or lift the cap. -/
def setCap (p : Params) (rate : ℤ) (txc : TxClass C) : TxClass C :=
  if rate = 0 then { txc with isStatic := false, maxRate := p.isoMaxTxRate }
  else { txc with isStatic := true, maxRate := rate.toNat }

def setVq (v : ℕ) (txc : TxClass C) : TxClass C := { txc with vq := some v }

/-- The rates of a class, in `iso_txc_recompute_rates`. -/
def recomputeRate (p : Params) (totalWeight : ℤ) (txc : TxClass C) : TxClass C :=
  let minRate := u32OfInt ((s32 (txc.weight * p.isoMaxTxRate)).tdiv totalWeight)
  let rate := if txc.isStatic then min txc.maxRate minRate else minRate
  { txc with minRate := minRate, rl := { txc.rl with rate := rate } }

end TxClass

/-- `struct iso_tx_context`. -/
structure TxContext (C : Type) where
  txcList : List ℕ
  isoTxBucket : UInt32 → List ℕ
  txcs : ℕ → TxClass C
  brk : ℕ
  txcTotalWeight : ℤ
  freed : List ℕ

namespace TxContext

variable {C : Type}

/-- `iso_tx_init`. -/
def init (p : Params) : TxContext C where
  txcList := []
  isoTxBucket := fun _ => []
  txcs := fun _ => TxClass.init p 0 0
  brk := 0
  txcTotalWeight := 0
  freed := []

def modifyTxc (ctx : TxContext C) (k : ℕ) (f : TxClass C → TxClass C) : TxContext C :=
  { ctx with txcs := Function.update ctx.txcs k (f (ctx.txcs k)) }

/-- `iso_txc_find`. -/
def isoTxcFind (plat : Platform) (ctx : TxContext C) (klass : UInt32) : Option ℕ :=
  (ctx.isoTxBucket (classHash plat klass)).find? fun k => (ctx.txcs k).klass = klass

/-- The buckets of the table, in order; there are `ISO_MAX_TX_BUCKETS` of them. -/
def txBuckets : List UInt32 := bucketIndexes 256

/-- The classes in the hash table, in the order in which `iso_tx_exit` walks it. -/
def hashed (ctx : TxContext C) : List ℕ := entries txBuckets ctx.isoTxBucket

/-- `iso_txc_recompute_rates`. -/
def isoTxcRecomputeRates (p : Params) (ctx : TxContext C) : TxContext C :=
  if ctx.txcTotalWeight = 0 then ctx
  else
    let totalWeight := ctx.txcTotalWeight
    ctx.txcList.foldl (fun ctx k => ctx.modifyTxc k (TxClass.recomputeRate p totalWeight)) ctx

/-- `iso_txc_alloc`, with the rounds of `iso_txc_prealloc` and given whether `kmalloc` succeeds; the
first result is the class, `none` for `NULL`. -/
def isoTxcAlloc (plat : Platform) (p : Params) (now : ℕ) (kmalloc : Bool) (rounds : List Bool)
    (klass : UInt32) (ctx : TxContext C) : Option ℕ × TxContext C :=
  if kmalloc then
    let k := ctx.brk
    let txc := TxClass.isoTxcPrealloc p now rounds (TxClass.init p now klass)
    (some k, isoTxcRecomputeRates p
      { ctx with
        txcs := Function.update ctx.txcs k txc
        brk := ctx.brk + 1
        isoTxBucket := addHead ctx.isoTxBucket (classHash plat klass) k
        txcList := ctx.txcList ++ [k]
        txcTotalWeight := s32 (ctx.txcTotalWeight + txc.weight) })
  else (none, ctx)

/-- `iso_txc_free`: the class and all that belongs to it.  It takes the class off neither index. -/
def isoTxcFree (k : ℕ) (ctx : TxContext C) : TxContext C := { ctx with freed := k :: ctx.freed }

/-! ### The commands -/

/-- `iso_txc_mark_install`, for the class that its argument names. -/
def isoTxcMarkInstall (plat : Platform) (p : Params) (now : ℕ) (kmalloc : Bool)
    (rounds : List Bool) (klass : UInt32) (ctx : TxContext C) : ℤ × TxContext C :=
  match isoTxcFind plat ctx klass with
  | some _ => (-1, ctx)
  | none =>
    let (txc, ctx) := isoTxcAlloc plat p now kmalloc rounds klass ctx
    (if txc.isNone then -1 else 0, ctx)

/-- `iso_sys_delete_txc`, for the class that its argument names. -/
def isoSysDeleteTxc (plat : Platform) (p : Params) (klass : UInt32) (ctx : TxContext C) :
    ℤ × TxContext C :=
  match isoTxcFind plat ctx klass with
  | none => (-einval, ctx)
  | some k =>
    let ctx := { ctx with
      isoTxBucket := unlink ctx.isoTxBucket k
      txcTotalWeight := s32 (ctx.txcTotalWeight - (ctx.txcs k).weight) }
    (0, isoTxcFree k (isoTxcRecomputeRates p ctx))

/-- `iso_sys_set_txc_weight`, for the class and the weight that its argument names. -/
def isoSysSetTxcWeight (plat : Platform) (p : Params) (klass : UInt32) (weight : ℤ)
    (ctx : TxContext C) : ℤ × TxContext C :=
  match isoTxcFind plat ctx klass with
  | none => (-einval, ctx)
  | some k =>
    if weight < 0 ∨ weight > 1024 then (-einval, ctx)
    else
      let total := s32 (s32 (ctx.txcTotalWeight - (ctx.txcs k).weight) + weight)
      let ctx := ctx.modifyTxc k (TxClass.setWeight weight.toNat)
      (0, isoTxcRecomputeRates p { ctx with txcTotalWeight := total })

/-- `iso_sys_set_txc_rate`, for the class and the rate that its argument names. -/
def isoSysSetTxcRate (plat : Platform) (p : Params) (klass : UInt32) (rate : ℤ)
    (ctx : TxContext C) : ℤ × TxContext C :=
  match isoTxcFind plat ctx klass with
  | none => (-einval, ctx)
  | some k =>
    if rate < 0 ∨ rate > 1024 then (-einval, ctx)
    else (0, isoTxcRecomputeRates p (ctx.modifyTxc k (TxClass.setCap p rate)))

/-- The association of a class with the VQ at `vq`, in `iso_sys_assoc_txc_vq`. -/
def assoc (plat : Platform) (klass : UInt32) (vq : Option ℕ) (ctx : TxContext C) : TxContext C :=
  match isoTxcFind plat ctx klass, vq with
  | some k, some v => ctx.modifyTxc k (TxClass.setVq v)
  | _, _ => ctx

/-! ### Runs of the registry -/

/-- The commands that change a tx context.  `vq` is the VQ that `assocTxcVq` names, if it exists. -/
inductive Op where
  | createTxc (now : ℕ) (kmalloc : Bool) (rounds : List Bool) (klass : UInt32)
  | deleteTxc (klass : UInt32)
  | setTxcWeight (klass : UInt32) (weight : ℤ)
  | setTxcRate (klass : UInt32) (rate : ℤ)
  | assocTxcVq (klass : UInt32) (vq : Option ℕ)
  | recomputeDev
deriving DecidableEq

def step (plat : Platform) (p : Params) (ctx : TxContext C) : Op → TxContext C
  | .createTxc now kmalloc rounds klass =>
    (isoTxcMarkInstall plat p now kmalloc rounds klass ctx).2
  | .deleteTxc klass => (isoSysDeleteTxc plat p klass ctx).2
  | .setTxcWeight klass weight => (isoSysSetTxcWeight plat p klass weight ctx).2
  | .setTxcRate klass rate => (isoSysSetTxcRate plat p klass rate ctx).2
  | .assocTxcVq klass vq => assoc plat klass vq ctx
  | .recomputeDev => isoTxcRecomputeRates p ctx

/-- The context after `ops`, from `iso_tx_init` on. -/
def runFrom (C : Type) (plat : Platform) (p : Params) (ops : List Op) : TxContext C :=
  Machine.run (step plat p) (init p) ops

end TxContext

end EyeQ
