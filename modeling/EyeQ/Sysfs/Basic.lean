import EyeQ.Dev.Basic
import EyeQ.Scanf.Basic

/-!
# The handlers of the module's parameters

A command is a string written to a file under `/sys/module/perfiso/parameters`.  Its handler takes
`config_mutex`, reads the string with `sscanf`, looks the device up, and does what `Dev.exec` does
for the command.  `Sysfs` is the mutex and the devices, each with its contexts if EyeQ is its qdisc.

A handler does not return when it finds the mutex taken (`Stop.blocked`), or when it faults or never
ends (`Stop.halt`).  `%s` stores into buffers of 128 characters without a limit, so a longer word is
written over whatever is behind the buffer; the handlers that cut their argument to 127 characters
first are safe from that.

Nine handlers end at `up(&config_mutex)` whatever happens in between; they are `locked`.
`iso_sys_recompute_dev` has its label `out` behind the `up`, and is written out.
-/

namespace EyeQ

open Scanf

/-! ### Reading an argument -/

/-- The size of the buffers of the handlers. -/
def buffSize : ℕ := 128

/-- `min(127, strlen(val))` characters of the argument. -/
def truncated (val : List Char) : List Char := val.take (buffSize - 1)

/-- A stored word fits its buffer. -/
def Scanf.Value.fits : Value → Bool
  | .str s => s.length < buffSize
  | _ => true

/-- `sscanf` into buffers of `buffSize` characters. -/
def scanArgs (fmt : String) (val : List Char) : Except Halt (List Value) :=
  let values := sscanf (format fmt.toList) val
  if values.all Value.fits then .ok values else .error (.fault .wild)

/-- `iso_class_parse`.  `htonl` is the function `ntohl`. -/
def isoClassParse (plat : Platform) (ipaddr : List Char) : UInt32 :=
  match sscanf (format "%u.%u.%u.%u".toList) ipaddr with
  | [.uint a, .uint b, .uint c, .uint d] => plat.ntohl (a <<< 24 ||| b <<< 16 ||| c <<< 8 ||| d)
  | _ => plat.ntohl 0

/-! ### Devices -/

structure Netdev (C : Type) where
  name : List Char
  /-- `qdisc->flags & TCQ_F_EYEQ`. -/
  enabled : Bool
  dev : Dev C

structure Sysfs (C : Type) where
  /-- `config_mutex` is taken. -/
  configMutex : Bool
  netdevs : List (Netdev C)

/-- Why a write does not return. -/
inductive Stop where
  | blocked
  | halt (h : Halt)
deriving DecidableEq

namespace Sysfs

variable {C : Type}

/-- `IFNAMSIZ`. -/
def ifnamsiz : ℕ := 16

/-- `iso_search_netdev`, as an index. -/
def isoSearchNetdev (name : List Char) (s : Sysfs C) : Option ℕ :=
  s.netdevs.findIdx? fun dev => dev.name.take ifnamsiz = name.take ifnamsiz

/-- A command on the device of a name, if there is one and it is enabled; `missing` is returned
otherwise. -/
def onDev (plat : Platform) (p : Params) (name : List Char) (missing : ℤ) (op : Dev.Op)
    (s : Sysfs C) : Except Halt (ℤ × Sysfs C) :=
  match s.isoSearchNetdev name with
  | none => pure (missing, s)
  | some i =>
    match s.netdevs[i]? with
    | none => pure (missing, s)
    | some n =>
      if n.enabled then do
        let (ret, dev) ← n.dev.exec plat p op
        pure (ret, { s with netdevs := s.netdevs.set i { n with dev := dev } })
      else pure (missing, s)

/-! ### The mutex -/

/-- `down_interruptible(&config_mutex)`, not interrupted. -/
def down (s : Sysfs C) : Except Stop (Sysfs C) :=
  if s.configMutex then .error .blocked else .ok { s with configMutex := true }

/-- `up(&config_mutex)`. -/
def up (s : Sysfs C) : Sysfs C := { s with configMutex := false }

/-- Take the mutex, do `body`, release the mutex. -/
def locked (body : Sysfs C → Except Halt (ℤ × Sysfs C)) (s : Sysfs C) :
    Except Stop (ℤ × Sysfs C) := do
  let s ← s.down
  let (ret, s) ← (body s).mapError Stop.halt
  pure (ret, s.up)

/-! ### The handlers -/

section

variable (plat : Platform) (p : Params)

/-- What the handlers that create something return. -/
def created (result : ℤ × Sysfs C) : ℤ × Sysfs C :=
  (if result.1 = 0 then 0 else -einval, result.2)

/-- What a buffer holds after `sscanf`: the value stored, or what the stack held before. -/
def buffer (stack : List Char) : Option Value → List Char
  | some (.str s) => s
  | _ => stack

/-- `iso_sys_create_txc`, which does not ask how much `sscanf` has stored. -/
def isoSysCreateTxc (now : ℕ) (kmalloc : Alloc) (rounds : List Bool) (stack : List Char × List Char)
    (val : List Char) (s : Sysfs C) : Except Stop (ℤ × Sysfs C) :=
  created <$> s.locked fun s => do
    let values ← scanArgs "dev %s %s" (truncated val)
    let klass := isoClassParse plat (buffer stack.2 values[1]?)
    s.onDev plat p (buffer stack.1 values[0]?) (-einval) (.createTxc now kmalloc rounds klass)

/-- `iso_sys_create_vq`. -/
def isoSysCreateVq (now : ℕ) (kmalloc : Alloc) (percpu : Bool) (stale : ℤ)
    (stack : List Char × List Char) (val : List Char) (s : Sysfs C) :
    Except Stop (ℤ × Sysfs C) :=
  created <$> s.locked fun s => do
    let values ← scanArgs "dev %s %s" (truncated val)
    let klass := isoClassParse plat (buffer stack.2 values[1]?)
    s.onDev plat p (buffer stack.1 values[0]?) (-einval)
      (.createVq now kmalloc percpu stale klass)

/-- `iso_sys_assoc_txc_vq`, which reads its argument before it takes the mutex, and returns `0` when
there is no such device. -/
def isoSysAssocTxcVq (val : List Char) (s : Sysfs C) : Except Stop (ℤ × Sysfs C) := do
  let values ← (scanArgs "dev %s associate txc %s vq %s" val).mapError Stop.halt
  s.locked fun s =>
    match values with
    | [.str devname, .str txc, .str vqc] =>
      s.onDev plat p devname 0 (.assocTxcVq (isoClassParse plat txc) (isoClassParse plat vqc))
    | _ => pure (-einval, s)

/-- A handler for a device, a class and a number. -/
def setNumber (fmt : String) (op : UInt32 → ℤ → Dev.Op) (val : List Char) (s : Sysfs C) :
    Except Stop (ℤ × Sysfs C) :=
  s.locked fun s => do
    match ← scanArgs fmt val with
    | [.str devname, .str klass, .int n] =>
      s.onDev plat p devname (-einval) (op (isoClassParse plat klass) n)
    | _ => pure (-einval, s)

/-- `iso_sys_set_txc_weight`. -/
def isoSysSetTxcWeight : List Char → Sysfs C → Except Stop (ℤ × Sysfs C) :=
  setNumber plat p "dev %s %s weight %d" .setTxcWeight

/-- `iso_sys_set_txc_rate`. -/
def isoSysSetTxcRate : List Char → Sysfs C → Except Stop (ℤ × Sysfs C) :=
  setNumber plat p "dev %s %s rate %d" .setTxcRate

/-- `iso_sys_set_vq_weight`. -/
def isoSysSetVqWeight : List Char → Sysfs C → Except Stop (ℤ × Sysfs C) :=
  setNumber plat p "dev %s %s weight %d" .setVqWeight

/-- `iso_sys_set_vq_rate`. -/
def isoSysSetVqRate : List Char → Sysfs C → Except Stop (ℤ × Sysfs C) :=
  setNumber plat p "dev %s %s rate %d" .setVqRate

/-- A handler for a device and a class. -/
def deleteClass (fmt : String) (op : UInt32 → Dev.Op) (val : List Char) (s : Sysfs C) :
    Except Stop (ℤ × Sysfs C) :=
  s.locked fun s => do
    match ← scanArgs fmt val with
    | [.str devname, .str klass] =>
      s.onDev plat p devname (-einval) (op (isoClassParse plat klass))
    | _ => pure (-einval, s)

/-- `iso_sys_delete_txc`. -/
def isoSysDeleteTxc : List Char → Sysfs C → Except Stop (ℤ × Sysfs C) :=
  deleteClass plat p "dev %s txc %s" .deleteTxc

/-- `iso_sys_delete_vq`. -/
def isoSysDeleteVq : List Char → Sysfs C → Except Stop (ℤ × Sysfs C) :=
  deleteClass plat p "dev %s vq %s" .deleteVq

/-- `iso_sys_recompute_dev`. -/
def isoSysRecomputeDev (val : List Char) (s : Sysfs C) : Except Stop (ℤ × Sysfs C) := do
  let s ← s.down
  match ← (scanArgs "dev %s" (truncated val)).mapError Stop.halt with
  | [.str devname] =>
    let (ret, s) ← (s.onDev plat p devname (-einval) .recomputeDev).mapError Stop.halt
    pure (created (ret, s.up))
  -- `goto out`, past the `up`
  | _ => pure (-einval, s)

end

/-! ### Writes -/

/-- A write to one of the files.  A handler that creates something depends on the clock, on the
allocations, and on what the stack holds where its two buffers are. -/
inductive Write where
  | createTxc (now : ℕ) (kmalloc : Alloc) (rounds : List Bool) (stack : List Char × List Char)
      (val : List Char)
  | createVq (now : ℕ) (kmalloc : Alloc) (percpu : Bool) (stale : ℤ)
      (stack : List Char × List Char) (val : List Char)
  | assocTxcVq (val : List Char)
  | setTxcWeight (val : List Char)
  | setTxcRate (val : List Char)
  | setVqWeight (val : List Char)
  | setVqRate (val : List Char)
  | deleteTxc (val : List Char)
  | deleteVq (val : List Char)
  | recomputeDev (val : List Char)

/-- What a write returns, and the state after it. -/
def exec (plat : Platform) (p : Params) (s : Sysfs C) : Write → Except Stop (ℤ × Sysfs C)
  | .createTxc now kmalloc rounds stack val => s.isoSysCreateTxc plat p now kmalloc rounds stack val
  | .createVq now kmalloc percpu stale stack val =>
    s.isoSysCreateVq plat p now kmalloc percpu stale stack val
  | .assocTxcVq val => s.isoSysAssocTxcVq plat p val
  | .setTxcWeight val => s.isoSysSetTxcWeight plat p val
  | .setTxcRate val => s.isoSysSetTxcRate plat p val
  | .setVqWeight val => s.isoSysSetVqWeight plat p val
  | .setVqRate val => s.isoSysSetVqRate plat p val
  | .deleteTxc val => s.isoSysDeleteTxc plat p val
  | .deleteVq val => s.isoSysDeleteVq plat p val
  | .recomputeDev val => s.isoSysRecomputeDev plat p val

def step (plat : Platform) (p : Params) (s : Sysfs C) (w : Write) : Except Stop (Sysfs C) :=
  Prod.snd <$> s.exec plat p w

end Sysfs

end EyeQ
