import EyeQ.Perfiso.Stats
import EyeQ.Scanf.Exact
import EyeQ.Sysfs.Basic

/-!
# `save` and `load_config` of `perfiso.py`

`save` writes the parameters and, for each device that `stats` returns, its classes and VQs.
`load_config` reads the file back, sets the parameters, and creates the VQs and then the classes
with `echo` commands that a shell runs (`Shell`).  Whatever fails ends the program, which is `none`;
that a class or a VQ is already there is only logged.

`World` is the module: its parameters, its devices, and what the handlers that are called next will
find (`Env`).  The module is loaded all the time, so `install` does not come to `insmod`.  A file of
JSON is known by what is in it (`Config`): dictionaries keep their entries, but not their order.
-/

namespace EyeQ

/-- A write that has to return `0`. -/
def Sysfs.attempt {C : Type} (plat : Platform) (p : Params) (w : Sysfs.Write) (s : Sysfs C) :
    Option (Sysfs C) :=
  match s.exec plat p w with
  | .ok (ret, s') => if ret = 0 then some s' else none
  | .error _ => none

namespace Perfiso

open Text Scanf

variable {C : Type}

/-! ### The module -/

/-- The names in `iso_params`. -/
def isoParams : List (List Char) :=
  ["ISO_MAX_TX_RATE", "ISO_VQ_DRAIN_RATE_MBPS", "ISO_MAX_BURST_TIME_US", "ISO_MIN_BURST_BYTES",
    "ISO_RATEMEASURE_INTERVAL_US", "ISO_TOKENBUCKET_TIMEOUT_NS",
    "ISO_TOKENBUCKET_MARK_THRESH_BYTES",
    "ISO_TOKENBUCKET_DROP_THRESH_BYTES", "ISO_VQ_MARK_THRESH_BYTES", "ISO_VQ_MAX_BYTES",
    "ISO_RFAIR_INITIAL",
    "ISO_MIN_RFAIR", "ISO_RFAIR_FEEDBACK_TIMEOUT", "ISO_RFAIR_FEEDBACK_TIMEOUT_DEFAULT_RATE",
    "IsoGlobalEnabled",
    "IsoAutoGenerateFeedback", "ISO_FEEDBACK_PACKET_IPPROTO", "ISO_FEEDBACK_INTERVAL_US",
    "ISO_FEEDBACK_INTERVAL_BYTES", "ISO_RL_UPDATE_INTERVAL_US", "ISO_VQ_UPDATE_INTERVAL_US",
    "ISO_TXC_UPDATE_INTERVAL_US", "ISO_VQ_REFRESH_INTERVAL_US", "ISO_MAX_QUEUE_LEN_BYTES",
    "ISO_TX_MARK_THRESH",
    "ISO_ECN_MARK_THRESH_BYTES", "ISO_VQ_HRCP_US"].map String.toList

/-- The files under `ISO_SYSCTL_DIR`, with the variables they stand for, each an `int`. -/
structure Sysctl where
  files : List (List Char × ℤ)
  names : files.map Prod.fst = isoParams
  ints : ∀ f ∈ files, s32 f.2 = f.2

namespace Sysctl

/-- What is read from the files. -/
def read (s : Sysctl) : List (List Char × List Char) := s.files.map fun f => (f.1, decInt f.2)

/-- Set a variable. -/
def set (s : Sysctl) (name : List Char) (n : ℤ) (hn : s32 n = n) : Sysctl where
  files := s.files.map fun f => if f.1 = name then (f.1, n) else f
  names := by
    have hfst : ∀ f : List Char × ℤ, (if f.1 = name then (f.1, n) else f).1 = f.1 := fun f => by
      split_ifs <;> rfl
    simp only [List.map_map, Function.comp_def, hfst, s.names]
  ints := by
    intro f hf
    obtain ⟨g, hg, rfl⟩ := List.mem_map.mp hf
    split_ifs
    · exact hn
    · exact s.ints g hg

/-- `proc_dointvec`, for a text that is a number and nothing else. -/
def write (s : Sysctl) (name value : List Char) : Option Sysctl :=
  if name ∈ isoParams then
    (numeral value).bind fun n => if hn : s32 n = n then some (s.set name n hn) else none
  else none

end Sysctl

/-- What a handler finds when it is called. -/
structure Env where
  now : ℕ
  kmalloc : Alloc
  rounds : List Bool
  percpu : Bool
  stale : ℤ
  stack : List Char × List Char

structure World (C : Type) where
  sysctl : Sysctl
  sysfs : Sysfs C
  /-- What the handlers that are called next will find, one after the other. -/
  env : ℕ → Env

/-- `ISO_SYSFS`. -/
def isoSysfs : List Char := "/sys/module/perfiso/parameters".toList

/-- The files under `ISO_SYSFS`, with what a write to them is. -/
def sysfsFiles (env : Env) (val : List Char) : List (List Char × Sysfs.Write) :=
  [(isoSysfs ++ "/create_txc".toList, .createTxc env.now env.kmalloc env.rounds env.stack val),
    (isoSysfs ++ "/create_vq".toList,
      .createVq env.now env.kmalloc env.percpu env.stale env.stack val),
    (isoSysfs ++ "/assoc_txc_vq".toList, .assocTxcVq val),
    (isoSysfs ++ "/set_txc_weight".toList, .setTxcWeight val),
    (isoSysfs ++ "/set_txc_rate".toList, .setTxcRate val),
    (isoSysfs ++ "/set_vq_weight".toList, .setVqWeight val),
    (isoSysfs ++ "/set_vq_rate".toList, .setVqRate val),
    (isoSysfs ++ "/delete_txc".toList, .deleteTxc val),
    (isoSysfs ++ "/delete_vq".toList, .deleteVq val),
    (isoSysfs ++ "/recompute_dev".toList, .recomputeDev val)]

/-- A write to a file under `ISO_SYSFS` that succeeds.  `tunables` are the values of the variables
that the parameters stand for. -/
def World.write (plat : Platform) (tunables : Sysctl → Params)
    (file val : List Char) (w : World C) :
    Option (World C) := do
  let write ← (sysfsFiles (w.env 0) val).lookup file
  let s ← w.sysfs.attempt plat (tunables w.sysctl) write
  some { w with sysfs := s, env := fun i => w.env (i + 1) }

/-! ### `save` -/

structure TxcConfig where
  klass : List Char
  weight : List Char
  assoc : List Char
deriving DecidableEq

structure VqConfig where
  klass : List Char
  weight : List Char
deriving DecidableEq

structure DevConfig where
  txcs : List TxcConfig
  vqs : List VqConfig
deriving DecidableEq

/-- What is in a file of `save`. -/
structure Config where
  config : List (List Char × DevConfig)
  params : List (List Char × List Char)

/-- `Txc.get`. -/
def TxcData.get (txc : TxcData) : TxcConfig := ⟨txc.klass, txc.weight, txc.assoc⟩

/-- `Vq.get`. -/
def VqData.get (vq : VqData) : VqConfig := ⟨vq.klass, vq.weight⟩

/-- `d[key] = value`, for a dictionary. -/
def setItem {α : Type} (d : List (List Char × α)) (key : List Char) (value : α) :
    List (List Char × α) :=
  if key ∈ d.map Prod.fst then d.map fun e => if e.1 = key then (key, value) else e else
    d ++ [(key, value)]

/-- `save`, when the module shows `text`. -/
def save (params : List (List Char × List Char)) (text : List Char) : Option Config := do
  let data ← stats none text
  some { config := data.foldl (fun config dev => setItem config dev.dev ⟨dev.txcs.map TxcData.get,
    dev.vqs.map VqData.get⟩) [], params := params }

/-- What `json.load` makes of what `json.dump` has written. -/
structure Config.Reloaded (written read : Config) : Prop where
  config : read.config.Perm written.config
  params : read.params.Perm written.params

/-! ### `load_config` -/

/-- A shell: what becomes of the module when a command line is run, if its status is `0`. -/
abbrev Shell (C : Type) := List Char → World C → Option (World C)

/-- The variables of the program, and the module. -/
structure Tool (C : Type) where
  /-- The keys of `ISO_CREATED` that are set. -/
  isoCreated : List (List Char)
  txcsDev : List Char → List (List Char)
  vqsDev : List Char → List (List Char)
  world : World C

/-- The program when it starts: `TxClass()` and then `VQ()` read what the module shows. -/
def start (text text' : List Char) (w : World C) : Option (Tool C) := do
  let st ← readStats none text
  let devs ← stats none text
  let st' ← readStats none text'
  let devs' ← stats none text'
  some {
    isoCreated := st'.isoCreated ++ st.isoCreated
    txcsDev := fun name => (devs.filter (·.dev = name)).flatMap fun dev =>
      dev.txcs.map TxcData.klass
    vqsDev := fun name => (devs'.filter (·.dev = name)).flatMap fun dev => dev.vqs.map VqData.klass
    world := w }

namespace Tool

/-- The name of a parameter; one that begins with a digit is a place in `params_list`. -/
def paramName (params : List (List Char × List Char)) (name : List Char) : Option (List Char) :=
  if name.head?.any Char.isDigit then
    -- the place before the first is the last one
    (numeral name).bind fun n => (if n = 0 then params.getLast? else params[n.toNat - 1]?).map
      Prod.fst
  else some name

/-- `Parameters.set`. -/
def paramsSet (tool : Tool C) (param : List Char × List Char) : Option (Tool C) := do
  let name ← paramName tool.world.sysctl.read param.1
  let sysctl ← tool.world.sysctl.write name param.2
  some { tool with world := { tool.world with sysctl := sysctl } }

/-- `Parameters.load`. -/
def paramsLoad (params : List (List Char × List Char)) (tool : Tool C) : Option (Tool C) :=
  params.foldlM paramsSet tool

variable (sh : Shell C)

/-- `cmd`. -/
def cmd (s : List Char) (tool : Tool C) : Option (Tool C) :=
  (sh s tool.world).map fun w => { tool with world := w }

/-- `install`. -/
def install (dev : List Char) (tool : Tool C) : Option (Tool C) :=
  if dev ∈ tool.isoCreated then some tool
  else do
    let tool ← tool.cmd sh ("tc qdisc add dev ".toList ++ dev ++ " root handle 1: htb".toList)
    some { tool with isoCreated := dev :: tool.isoCreated }

/-- `TxClass.create`. -/
def txcCreate (dev klass : List Char) (tool : Tool C) : Option (Tool C) := do
  let tool ← tool.install sh dev
  if klass ∈ tool.txcsDev dev then some tool
  else tool.cmd sh ("echo dev ".toList ++ dev ++ " ".toList ++ klass ++ " > ".toList ++ isoSysfs ++
    "/create_txc".toList)

/-- `TxClass.set_weight`. -/
def txcSetWeight (dev klass w : List Char) : Tool C → Option (Tool C) :=
  cmd sh ("echo dev ".toList ++ dev ++ " ".toList ++ klass ++ " weight ".toList ++ w ++
    " > ".toList ++ isoSysfs ++
    "/set_txc_weight".toList)

/-- `TxClass.associate`. -/
def associate (dev klass vq : List Char) : Tool C → Option (Tool C) :=
  cmd sh ("echo dev ".toList ++ dev ++ " associate txc ".toList ++ klass ++ " vq ".toList ++
    vq ++ " > ".toList ++
    isoSysfs ++ "/assoc_txc_vq".toList)

/-- `TxClass.load`. -/
def txcsLoad (config : List (List Char × DevConfig)) (tool : Tool C) : Option (Tool C) :=
  config.foldlM (fun tool (dev, conf) => do
    let tool ← tool.install sh dev
    conf.txcs.foldlM (fun tool val => do
      let tool ← tool.txcCreate sh dev val.klass
      let tool ← tool.txcSetWeight sh dev val.klass val.weight
      tool.associate sh dev val.klass val.assoc) tool) tool

/-- `VQ.create`. -/
def vqCreate (dev klass : List Char) (tool : Tool C) : Option (Tool C) := do
  let tool ← tool.install sh dev
  if klass ∈ tool.vqsDev dev then some tool
  else tool.cmd sh ("echo dev ".toList ++ dev ++ " ".toList ++ klass ++ " > ".toList ++ isoSysfs ++
    "/create_vq".toList)

/-- `VQ.set_weight`. -/
def vqSetWeight (dev klass w : List Char) : Tool C → Option (Tool C) :=
  cmd sh ("echo dev ".toList ++ dev ++ " ".toList ++ klass ++ " weight ".toList ++ w ++
    " > ".toList ++ isoSysfs ++
    "/set_vq_weight".toList)

/-- `VQ.load`. -/
def vqsLoad (config : List (List Char × DevConfig)) (tool : Tool C) : Option (Tool C) :=
  config.foldlM (fun tool (dev, conf) => do
    let tool ← tool.install sh dev
    conf.vqs.foldlM (fun tool val => do
      let tool ← tool.vqCreate sh dev val.klass
      tool.vqSetWeight sh dev val.klass val.weight) tool) tool

/-- `load_config`. -/
def loadConfig (file : Config) (tool : Tool C) : Option (Tool C) := do
  let tool ← tool.paramsLoad file.params
  let tool ← tool.vqsLoad sh file.config
  tool.txcsLoad sh file.config

end Tool

end Perfiso

end EyeQ
