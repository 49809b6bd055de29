import EyeQ.Stats.Show
import EyeQ.Text.Lines

/-!
# `stats` of `perfiso.py`

The function that reads `/proc/perfiso_stats` back, line by line.  Objects of the classes `Dev` and
`Txc` are shared between variables, lists and a dictionary, and are changed after they have been
shared; so they are kept in two lists (`devObjs`, `txcObjs`) and known by their indexes.  A step is
`none` if it raises an exception.

Between lines the function remembers the device and the class it is in, whether limiters are to be
read, and the name of the device whose VQs follow.  A device goes into `devs` and into `dev_by_name`
when the *next* device begins, and the last one goes into `devs` after the last line.
-/

namespace EyeQ.Perfiso

open Text Stats

/-! ### Python -/

/-- `\s`. -/
def isSpace (c : Char) : Bool := c ∈ [' ', '\t', '\n', '\r', '\x0b', '\x0c']

/-- `re_spaces.split`. -/
def reSpacesSplit (line : List Char) : List (List Char) := splitRuns isSpace false line

/-- `line.startswith`. -/
def startswith (start : String) (line : List Char) : Bool := start.toList.isPrefixOf line

/-- `IP`, for digits without sign and prefix. -/
def ip (hex : List Char) : Option (List Char) :=
  (hexValue hex).bind fun n => if n < 2 ^ 32 then some (quad (.ofNat n)) else none

/-! ### Objects -/

structure RlData where
  dst : List Char
  rate : List Char
deriving DecidableEq

structure TxcData where
  klass : List Char
  weight : List Char
  assoc : List Char
  rate : List Char
  txRate : List Char
  minRate : List Char
  rls : List RlData
deriving DecidableEq

structure VqData where
  klass : List Char
  rate : List Char
  rxRate : List Char
  fbRate : List Char
  alpha : List Char
  weight : List Char
deriving DecidableEq

/-- A `Dev`, with its classes. -/
structure DevData where
  dev : List Char
  txcs : List TxcData
  vqs : List VqData
deriving DecidableEq

/-- A `Dev` as an object, with references to its classes. -/
structure DevObj where
  dev : List Char
  txcs : List ℕ := []
  vqs : List VqData := []

/-- The variables of `stats`. -/
structure Reader where
  devObjs : List DevObj := []
  txcObjs : List TxcData := []
  dev : Option ℕ := none
  txc : Option ℕ := none
  rlParse : Bool := false
  vqDev : Option (List Char) := none
  /-- `dev_by_name`, the newest entry of a name first. -/
  devByName : List (List Char × ℕ) := []
  devs : List ℕ := []
  /-- The keys of `ISO_CREATED` that are set. -/
  isoCreated : List (List Char) := []

/-- `filterdev is None or filterdev == name`. -/
def selects (filterdev : Option (List Char)) (name : List Char) : Bool := filterdev.all (· == name)

namespace Reader

/-- What is done with `dev` when the next one begins. -/
def register (filterdev : Option (List Char)) (st : Reader) : Option Reader :=
  match st.dev with
  | none => some st
  | some i => do
    let d ← st.devObjs[i]?
    if selects filterdev d.dev then
      some { st with devs := st.devs ++ [i], devByName := (d.dev, i) :: st.devByName }
    else some st

/-- `tx->dev`. -/
def txDev (filterdev : Option (List Char)) (line : List Char) (st : Reader) : Option Reader := do
  let st ← st.register filterdev
  let devname ← ((line.splitOn ',')[0]?).bind fun s => (s.splitOn ' ')[1]?
  some { st with
    isoCreated := devname :: st.isoCreated
    devObjs := st.devObjs ++ [{ dev := devname }]
    dev := some st.devObjs.length
    rlParse := false }

/-- `txc class`. -/
def txcClass (line : List Char) (st : Reader) : Option Reader := do
  let data := reSpacesSplit line
  let klass ← data[2]?
  let weight ← data[4]?
  let assoc ← data[7]?
  some { st with
    txcObjs := st.txcObjs ++ [⟨klass, weight, assoc, [], [], [], []⟩]
    txc := some st.txcObjs.length
    rlParse := false }

/-- `txc rl`. -/
def txcRl (line : List Char) (st : Reader) : Option Reader := do
  let data := reSpacesSplit line
  let t ← st.txc
  let minRate ← data[7]?
  let rate ← data[5]?
  let txRate ← (data[3]?).bind fun s => (s.splitOn ',')[1]?
  let i ← st.dev
  some { st with
    txcObjs := st.txcObjs.modify t fun txc =>
      { txc with minRate := minRate, rate := rate, txRate := txRate }
    devObjs := st.devObjs.modify i fun d => { d with txcs := d.txcs ++ [t] } }

/-- `hash`, when limiters are read. -/
def hash (line : List Char) (st : Reader) : Option Reader := do
  let data := reSpacesSplit line
  let dst ← (data[3]?).bind ip
  let rate ← data[5]?
  let t ← st.txc
  some { st with txcObjs := st.txcObjs.modify t fun txc =>
    { txc with rls := txc.rls ++ [⟨dst, rate⟩] } }

/-- `vqs`. -/
def vqs (line : List Char) (st : Reader) : Option Reader := do
  let name ← (line.splitOn ' ')[1]?
  some { st with vqDev := some name }

/-- `dev_by_name.get(vq_dev, None)`, or else `dev`. -/
def whichdev (st : Reader) : Option ℕ :=
  match st.vqDev.bind fun name => st.devByName.lookup name with
  | some i => some i
  | none => st.dev

/-- `vq class`. -/
def vqClass (line : List Char) (st : Reader) : Option Reader := do
  let data := reSpacesSplit line
  let klass ← data[2]?
  let rate ← data[6]?
  let rxRate ← data[8]?
  let fbRate ← data[10]?
  let alpha ← data[12]?
  let weight ← data[16]?
  let i ← st.whichdev
  some { st with devObjs := st.devObjs.modify i fun d =>
    { d with vqs := d.vqs ++ [⟨klass, rate, rxRate, fbRate, alpha, weight⟩] } }

/-- One line. -/
def readLine (filterdev : Option (List Char)) (st : Reader) (line : List Char) : Option Reader := do
  let st ← if startswith "tx->dev" line then st.txDev filterdev line else some st
  let st ← if startswith "txc class" line then st.txcClass line else some st
  let st ← if startswith "txc rl" line then st.txcRl line else some st
  let st := if startswith "rate limiters:" line then { st with rlParse := true } else st
  let st ← if st.rlParse && startswith "hash" line then st.hash line else some st
  let st ← if startswith "vqs" line then st.vqs line else some st
  if startswith "vq class" line then st.vqClass line else some st

/-- A `Dev` with its classes. -/
def resolve (st : Reader) (i : ℕ) : Option DevData := do
  let d ← st.devObjs[i]?
  let txcs ← d.txcs.mapM fun t => st.txcObjs[t]?
  some ⟨d.dev, txcs, d.vqs⟩

end Reader

/-- The variables after the last line. -/
def readStats (filterdev : Option (List Char)) (text : List Char) : Option Reader :=
  (readlines text).foldlM (Reader.readLine filterdev) {}

/-- `stats`. -/
def stats (filterdev : Option (List Char)) (text : List Char) : Option (List DevData) := do
  let st ← readStats filterdev text
  let st ← st.register filterdev
  st.devs.mapM st.resolve

end EyeQ.Perfiso
