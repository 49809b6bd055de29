import EyeQ.Host.Rx

/-!
# A device under its configuration commands

`Dev` is the state of a device as the handlers of `params.c` see it: the two contexts of a `Host`,
and the memory of its VQs and classes.  Objects are created and deleted, and `kmalloc` may hand out
the memory of a deleted object again (`Alloc.again`).

Both ways to delete leave a link behind.  `iso_vq_free` takes a VQ off `vq_list` and not off its
hash chain; `iso_sys_delete_txc` takes a class off its hash chain and nobody takes it off
`txc_list`.  So once the memory is used again, a chain of VQs may lead into another one or into
itself (`vqLoop`), and `txc_list` may end early or never (`txcLoop`).  A call that walks along links
that never end does not return; neither does one that faults.  `Halt` is the reason.

`Dev.Op` is the ten commands of `params.c`, with what they have read from their argument, and
`Dev.exec` is what each returns.  `isoTxExit` and `isoVqsExit` are the teardown of a device.
-/

namespace EyeQ

/-- Why a call does not return. -/
inductive Halt where
  | fault (f : Fault)
  /-- A walk along links that lead back to where it came from. -/
  | loop
deriving DecidableEq

structure Dev (C : Type) extends Host C where
  /-- The addresses of VQs given to `kfree` and not handed out again. -/
  vqFreed : List ℕ
  /-- The chains of `vqBucket` that lead back into themselves. -/
  vqLoop : UInt32 → Bool
  /-- The last class on `txcList` is linked to itself. -/
  txcLoop : Bool

namespace Dev

variable {C : Type}

/-- A device after `iso_tx_init` and `iso_rx_init`. -/
def init (p : Params) (statsNow rcpNow : ℕ) : Dev C where
  toHost := Host.init p statsNow rcpNow
  vqFreed := []
  vqLoop := fun _ => false
  txcLoop := false

def lift {α : Type} (x : Except Fault α) : Except Halt α := x.mapError Halt.fault

/-! ### VQs -/

/-- `iso_vq_find`. -/
def isoVqFind (plat : Platform) (d : Dev C) (klass : UInt32) : Except Halt (Option ℕ) :=
  match d.rx.isoVqFind plat klass with
  | some v => .ok (some v)
  | none => if d.vqLoop (classHash plat klass) then .error .loop else .ok none

/-- `iso_vq_alloc`, once `kmalloc` has returned the memory at `v`.  If `alloc_percpu` fails,
`iso_vq_init` returns early and leaves in `refcnt` what was in the memory, which is `stale`. -/
def isoVqAlloc (plat : Platform) (p : Params) (now v : ℕ) (percpu : Bool) (stale : ℤ)
    (klass : UInt32) (d : Dev C) : Except Halt (Dev C) := do
  let vq : Vq C := Vq.init p now percpu klass
  let b := classHash plat klass
  let rx ← lift <| RxContext.isoVqCalculateRates p
    { d.rx with
      vqs := Function.update d.rx.vqs v { vq with refcnt := if percpu then 0 else stale }
      brk := max d.rx.brk (v + 1)
      vqList := d.rx.vqList ++ [v]
      vqBucket := relinkHead d.rx.vqBucket b v }
  pure { d with
    rx := rx
    vqFreed := d.vqFreed.erase v
    vqLoop := reloop d.rx.vqBucket d.vqLoop b v }

/-- `iso_vq_install`, for the class that its argument names. -/
def isoVqInstall (plat : Platform) (p : Params) (now : ℕ) (kmalloc : Alloc) (percpu : Bool)
    (stale : ℤ) (klass : UInt32) (d : Dev C) : Except Halt (ℤ × Dev C) := do
  match ← d.isoVqFind plat klass, kmalloc.addr d.rx.brk d.vqFreed with
  | none, some v => do
    let d ← isoVqAlloc plat p now v percpu stale klass d
    pure (0, d)
  | _, _ => pure (-1, d)

/-- `iso_vq_free`.  The VQ stays on its hash chain. -/
def isoVqFree (v : ℕ) (d : Dev C) : Except Halt (Dev C) :=
  if (d.rx.vqs v).refcnt > 0 then pure d
  -- the links of a VQ that `list_del` has taken off the list lead to no object
  else if v ∈ d.rx.vqList then
    pure { d with rx := { d.rx with vqList := d.rx.vqList.erase v }, vqFreed := v :: d.vqFreed }
  else .error (.fault .wild)

/-- `iso_sys_delete_vq`, for the class that its argument names. -/
def isoSysDeleteVq (plat : Platform) (klass : UInt32) (d : Dev C) : Except Halt (ℤ × Dev C) := do
  match ← d.isoVqFind plat klass with
  | none => pure (-einval, d)
  | some v =>
    if (d.rx.vqs v).refcnt > 0 then pure (-einval, d)
    else do
      let d ← d.isoVqFree v
      pure (0, d)

/-- A command that looks up a VQ, as it is on a context whose chains end. -/
def onVq (plat : Platform) (klass : UInt32)
    (f : RxContext C → Except Fault (ℤ × RxContext C)) (d : Dev C) : Except Halt (ℤ × Dev C) := do
  let _ ← d.isoVqFind plat klass
  let (ret, rx) ← lift (f d.rx)
  pure (ret, { d with rx := rx })

/-! ### Classes -/

/-- The walk of `iso_txc_recompute_rates` along `txc_list`, which a command on the classes makes if
it returns `0` and the weights do not add up to zero.  `tx` is the context if the walk ends. -/
def walked (d : Dev C) (ret : ℤ) (tx : TxContext C) : Except Halt (ℤ × Dev C) :=
  if ret = 0 ∧ d.txcLoop ∧ tx.txcTotalWeight ≠ 0 then .error .loop
  else .ok (ret, { d with tx := tx })

/-- `iso_txc_alloc`, once `kmalloc` has returned the memory at `k`. -/
def isoTxcAlloc (plat : Platform) (p : Params) (now k : ℕ) (rounds : List Bool) (klass : UInt32)
    (d : Dev C) : Except Halt (ℤ × Dev C) :=
  let txc := TxClass.isoTxcPrealloc p now rounds (TxClass.init p now klass)
  let tx := { d.tx with
    txcs := Function.update d.tx.txcs k txc
    brk := max d.tx.brk (k + 1)
    isoTxBucket := addHead d.tx.isoTxBucket (classHash plat klass) k
    txcList := relinkTail d.tx.txcList k
    txcTotalWeight := s32 (d.tx.txcTotalWeight + txc.weight)
    freed := d.tx.freed.erase k }
  -- a link of the last class to itself is overwritten when another is linked behind it
  let d := { d with txcLoop := d.tx.txcList.getLast? = some k }
  d.walked 0 (tx.isoTxcRecomputeRates p)

/-- `iso_txc_mark_install`, for the class that its argument names. -/
def isoTxcMarkInstall (plat : Platform) (p : Params) (now : ℕ) (kmalloc : Alloc)
    (rounds : List Bool) (klass : UInt32) (d : Dev C) : Except Halt (ℤ × Dev C) :=
  match d.tx.isoTxcFind plat klass, kmalloc.addr d.tx.brk d.tx.freed with
  | none, some k => isoTxcAlloc plat p now k rounds klass d
  | _, _ => pure (-1, d)

/-- `atomic_dec` of the reference count of the VQ that a class points to. -/
def release (vq : Option ℕ) (d : Dev C) : Dev C :=
  match vq with
  | none => d
  | some v => { d with rx := d.rx.modifyVq v fun vq => { vq with refcnt := vq.refcnt - 1 } }

/-- `iso_sys_delete_txc`, for the class that its argument names. -/
def isoSysDeleteTxc (plat : Platform) (p : Params) (klass : UInt32) (d : Dev C) :
    Except Halt (ℤ × Dev C) :=
  match d.tx.isoTxcFind plat klass with
  | none => pure (-einval, d)
  | some k => do
    let (ret, tx) := d.tx.isoSysDeleteTxc plat p klass
    let (ret, d') ← d.walked ret tx
    -- the end of `iso_txc_free`
    pure (ret, d'.release (d.tx.txcs k).vq)

/-- `iso_sys_assoc_txc_vq`, for the two classes that its argument names. -/
def isoSysAssocTxcVq (plat : Platform) (txclass vqclass : UInt32) (d : Dev C) :
    Except Halt (ℤ × Dev C) :=
  match d.tx.isoTxcFind plat txclass with
  | none => pure (-einval, d)
  | some _ => do
    let _ ← d.isoVqFind plat vqclass
    let (ret, h) := d.toHost.isoSysAssocTxcVq plat txclass vqclass
    pure (ret, { d with toHost := h })

/-- `iso_sys_recompute_dev`, for a device that is found. -/
def isoSysRecomputeDev (p : Params) (d : Dev C) : Except Halt (ℤ × Dev C) := do
  let (ret, d) ← d.walked 0 (d.tx.isoTxcRecomputeRates p)
  let rx ← lift (d.rx.isoVqCalculateRates p)
  pure (ret, { d with rx := rx })

/-! ### Teardown -/

/-- One class in the walk of `iso_tx_exit`. -/
def exitTxc (d : Dev C) (k : ℕ) : Dev C :=
  let tx := { d.tx with isoTxBucket := unlink d.tx.isoTxBucket k }
  { d with tx := tx.isoTxcFree k }.release (d.tx.txcs k).vq

/-- `iso_tx_exit`. -/
def isoTxExit (d : Dev C) : Dev C := d.tx.hashed.foldl exitTxc d

/-- `iso_vqs_exit`. -/
def isoVqsExit (d : Dev C) : Except Halt (Dev C) := d.rx.vqList.foldlM (fun d v => d.isoVqFree v) d

/-! ### Runs of commands -/

/-- The commands of `params.c`. -/
inductive Op where
  | createTxc (now : ℕ) (kmalloc : Alloc) (rounds : List Bool) (klass : UInt32)
  | createVq (now : ℕ) (kmalloc : Alloc) (percpu : Bool) (stale : ℤ) (klass : UInt32)
  | assocTxcVq (txclass vqclass : UInt32)
  | setTxcWeight (klass : UInt32) (weight : ℤ)
  | setTxcRate (klass : UInt32) (rate : ℤ)
  | setVqWeight (klass : UInt32) (weight : ℤ)
  | setVqRate (klass : UInt32) (rate : ℤ)
  | deleteTxc (klass : UInt32)
  | deleteVq (klass : UInt32)
  | recomputeDev
deriving DecidableEq

/-- One command: what it returns, and the device after it. -/
def exec (plat : Platform) (p : Params) (d : Dev C) : Op → Except Halt (ℤ × Dev C)
  | .createTxc now kmalloc rounds klass => d.isoTxcMarkInstall plat p now kmalloc rounds klass
  | .createVq now kmalloc percpu stale klass =>
    d.isoVqInstall plat p now kmalloc percpu stale klass
  | .assocTxcVq txclass vqclass => d.isoSysAssocTxcVq plat txclass vqclass
  | .setTxcWeight klass weight =>
    let (ret, tx) := d.tx.isoSysSetTxcWeight plat p klass weight
    d.walked ret tx
  | .setTxcRate klass rate =>
    let (ret, tx) := d.tx.isoSysSetTxcRate plat p klass rate
    d.walked ret tx
  | .setVqWeight klass weight => d.onVq plat klass (RxContext.isoSysSetVqWeight plat p klass weight)
  | .setVqRate klass rate => d.onVq plat klass (RxContext.isoSysSetVqRate plat p klass rate)
  | .deleteTxc klass => d.isoSysDeleteTxc plat p klass
  | .deleteVq klass => d.isoSysDeleteVq plat klass
  | .recomputeDev => d.isoSysRecomputeDev p

def step (plat : Platform) (p : Params) (d : Dev C) (op : Op) : Except Halt (Dev C) :=
  Prod.snd <$> d.exec plat p op

/-- The device after `ops`, from its initialisation on, or why the run does not get there. -/
def runFrom (C : Type) (plat : Platform) (p : Params) (statsNow rcpNow : ℕ) (ops : List Op) :
    Except Halt (Dev C) :=
  Machine.runE (step plat p) (init p statsNow rcpNow) ops

end Dev

end EyeQ
