import EyeQ.Perfiso.Config

/-!
# Tenants in `pi.py`

A tenant is a class of a device and a VQ of the same class.  `pi.py` creates tenants, and it changes
their weights and rates, with one `echo` command after the other for the class and for the VQ.  The
first command that fails ends the program, with what the commands before it have done; so the
program ends with an `Except`, and `.error` is the program when it dies.
-/

namespace EyeQ.Perfiso

variable {C : Type}

/-! ### `ip link show` -/

/-- `s.strip()`. -/
def strip (s : List Char) : List Char := ((s.dropWhile isSpace).reverse.dropWhile isSpace).reverse

/-- The name in a line, which has to have three parts. -/
def linkName (line : List Char) : Option (List Char) :=
  match line.splitOn ':' with
  | _ :: d :: _ :: _ => some (strip d)
  | _ => none

/-- `is_netdev`, for the lines of `ip link show`. -/
def isNetdev (dev : List Char) : List (List Char) → Option Bool
  | [] => some false
  | line :: lines =>
    if line.head?.any Char.isDigit then
      (linkName line).bind fun name => if dev = name then some true else isNetdev dev lines
    else isNetdev dev lines

/-! ### Commands -/

/-- The arguments of `pi.py`.  The default of `--rate` is a number, and less than `0`; what is given
is a string, and a string is not less than `0`.  So `rate` is `none` if it is not given. -/
structure TenantArgs where
  create : Bool
  tid : List Char
  dev : List Char
  weight : List Char
  rate : Option (List Char)

namespace Tool

/-- A call that ends the program if it fails. -/
def orDie (f : Tool C → Option (Tool C)) (tool : Tool C) : Except (Tool C) (Tool C) :=
  match f tool with
  | some tool => .ok tool
  | none => .error tool

variable (sh : Shell C)

/-- `TxClass.set_rate`. -/
def txcSetRate (dev klass rate : List Char) : Tool C → Option (Tool C) :=
  cmd sh ("echo dev ".toList ++ dev ++ " ".toList ++ klass ++ " rate ".toList ++ rate ++
    " > ".toList ++ isoSysfs ++
    "/set_txc_rate".toList)

/-- `VQ.set_rate`. -/
def vqSetRate (dev klass rate : List Char) : Tool C → Option (Tool C) :=
  cmd sh ("echo dev ".toList ++ dev ++ " ".toList ++ klass ++ " rate ".toList ++ rate ++
    " > ".toList ++ isoSysfs ++
    "/set_vq_rate".toList)

/-- What is done for `--create-tenant` only. -/
def createTenant (dev tid : List Char) (tool : Tool C) : Except (Tool C) (Tool C) := do
  -- the `install` in `TxClass.create` comes first, and stays if the creation fails
  let tool ← tool.orDie (install sh dev)
  let tool ← tool.orDie (txcCreate sh dev tid)
  let tool ← tool.orDie (vqCreate sh dev tid)
  tool.orDie (associate sh dev tid tid)

/-- `--create-tenant` and `--change-tenant`, when `ip link show` prints `links`. -/
def tenant (links : List Char) (args : TenantArgs) (tool : Tool C) : Except (Tool C) (Tool C) :=
  if isNetdev args.dev (links.splitOn '\n') = some true then do
    let tool ← if args.create then tool.createTenant sh args.dev args.tid else .ok tool
    let tool ← tool.orDie (txcSetWeight sh args.dev args.tid args.weight)
    let tool ← tool.orDie (vqSetWeight sh args.dev args.tid args.weight)
    match args.rate with
    | none => .ok tool
    | some rate => do
      let tool ← tool.orDie (txcSetRate sh args.dev args.tid rate)
      tool.orDie (vqSetRate sh args.dev args.tid rate)
  else .error tool

end Tool

end EyeQ.Perfiso
