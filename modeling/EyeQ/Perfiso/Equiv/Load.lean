import EyeQ.Perfiso.Equiv.Command
import EyeQ.Qdisc.Setup

/-!
# What `load_config` does

`load_config` against a module in which nothing has been created yet does for each device what
`Setup.loadVqs` and then `Setup.loadTxcs` do for its configuration: it dies if one of these is
refused, and leads to their results otherwise (`loadConfig_sim`).  `Sim` relates the program and the
module to the configurations of the devices.

The shell is outside of the source; `Documented` is what its documentation says about the command
lines of `perfiso.py`, and nothing else is known of it.  `Echoes` is the part about single commands.
-/

namespace EyeQ.Perfiso

open Text Stats Scanf Sysfs Machine
open Setup (Command)

variable {C : Type} {plat : Platform} {tunables : Sysctl → Params} {sh : Shell C}

/-! ### The shell -/

/-- The command line with which `install` makes EyeQ the qdisc of a device. -/
def tcLine (name : List Char) : List Char :=
  "tc qdisc add dev ".toList ++ name ++ " root handle 1: htb".toList

/-- The module after `mq_init` for the device `n`. -/
def attach (p : Params) (statsNow rcpNow i : ℕ) (n : Netdev C) (w : World C) : World C :=
  let n := { n with enabled := true, dev := .init p statsNow rcpNow }
  { w with sysfs := { w.sysfs with netdevs := w.sysfs.netdevs.set i n } }

/-- What a call of `mq_init` finds: the device, the lists of the contexts and the answers of the
kernel. -/
structure MqCall where
  env : MqEnv
  dev : NetDev
  txctxList : List ℕ
  rxctxList : List ℕ

/-- `mq_init` returns `0`. -/
def MqCall.Succeeds (c : MqCall) : Prop :=
  ∃ s, MqSched.mqInit c.env (.start c.dev c.txctxList c.rxctxList) = .ok (0, s)

/-- What the shell does with the `echo` lines of `perfiso.py`. -/
structure Echoes (plat : Platform) (tunables : Sysctl → Params) (sh : Shell C) : Prop where
  /-- The words after `echo` are written at once to one of the files under `ISO_SYSFS`, with blanks
  in between and a newline at the end, and the status is `0` if the write succeeds. -/
  echo : ∀ (ws : List (List Char)) (file : List Char) (w : World C), (∀ x ∈ ws, Literal x) →
    file ∈ (sysfsFiles (w.env 0) (line ("dev".toList :: ws) ++ ['\n'])).map Prod.fst →
    sh ("echo ".toList ++ line ("dev".toList :: ws) ++ " > ".toList ++ file) w =
      w.write plat tunables file (line ("dev".toList :: ws) ++ ['\n'])
  /-- A parenthesis behind a word is a syntax error. -/
  parenthesis : ∀ (ws : List (List Char)) (rest : List Char) (w : World C), (∀ x ∈ ws, Literal x) →
    sh ("echo ".toList ++ line ("dev".toList :: ws) ++ " (".toList ++ rest) w = none

/-- What the shell does with the command lines of `perfiso.py`.  `mq` are the calls of `mq_init`
that `tc` leads to. -/
structure Documented (plat : Platform) (tunables : Sysctl → Params)
    (mq : World C → List Char → MqCall) (sh : Shell C) : Prop extends Echoes plat tunables sh where
  /-- `tc` calls `mq_init` for the device, and EyeQ is its qdisc if that succeeds. -/
  tc : ∀ (i : ℕ) (n : Netdev C) (w : World C), Literal n.name →
    w.sysfs.isoSearchNetdev n.name = some i → w.sysfs.netdevs[i]? = some n → n.enabled = false →
    (mq w n.name).Succeeds → ∃ statsNow rcpNow,
      sh (tcLine n.name) w = some (attach (tunables w.sysctl) statsNow rcpNow i n w)

variable {mq : World C → List Char → MqCall}

/-- A file for which there is a handler is one of them. -/
theorem mem_sysfsFiles {env : Env} {file val : List Char} {write : Sysfs.Write}
    (h : (sysfsFiles env val).lookup file = some write) :
    file ∈ (sysfsFiles env val).map Prod.fst := by
  obtain ⟨before, after, heq, -⟩ := List.lookup_eq_some_iff.mp h
  rw [heq]
  simp

/-! ### Devices -/

/-- The names of the devices, whether EyeQ is their qdisc or not. -/
def devices (s : Sysfs C) : List (List Char) := s.netdevs.map Netdev.name

/-- Names as the kernel has them; `saved` are some of them, and plain words for the shell. -/
structure Named (names saved : List (List Char)) : Prop where
  short : ∀ name ∈ names, name.length < Sysfs.ifnamsiz
  distinct : names.Nodup
  there : ∀ name ∈ saved, name ∈ names
  literal : ∀ name ∈ saved, Literal name

variable {saved : List (List Char)}

theorem Named.index_eq {s : Sysfs C} (h : Named (devices s) saved) {i j : ℕ} {n n' : Netdev C}
    (hn : s.netdevs[i]? = some n) (hn' : s.netdevs[j]? = some n') (hname : n.name = n'.name) :
    i = j := by
  have hi : (devices s)[i]? = some n.name := by rw [devices, List.getElem?_map, hn, Option.map_some]
  have hj : (devices s)[j]? = some n.name := by
    rw [devices, List.getElem?_map, hn', Option.map_some, hname]
  have hlt := (List.getElem?_eq_some_iff.mp hi).1
  exact (List.getElem?_inj hlt h.distinct).mp (hi.trans hj.symm)

/-- A device is found under its name. -/
theorem Named.isoSearchNetdev {s : Sysfs C} (h : Named (devices s) saved) {name : List Char}
    (hname : name ∈ saved) :
    ∃ i n, s.netdevs[i]? = some n ∧ n.name = name ∧ s.isoSearchNetdev name = some i := by
  obtain ⟨n, hn, rfl⟩ := List.mem_map.mp (h.there name hname)
  have htake : ∀ n' ∈ s.netdevs, n'.name.take Sysfs.ifnamsiz = n'.name := by
    intro n' hn'
    exact List.take_of_length_le (h.short _ (List.mem_map_of_mem hn')).le
  obtain ⟨i, hi⟩ : ∃ i, s.isoSearchNetdev n.name = some i := by
    rw [← Option.isSome_iff_exists, Sysfs.isoSearchNetdev, List.findIdx?_isSome, List.any_eq_true]
    exact ⟨n, hn, by simp⟩
  have hfound := hi
  rw [Sysfs.isoSearchNetdev, List.findIdx?_eq_some_iff_getElem] at hfound
  obtain ⟨hlt, hmatch, -⟩ := hfound
  have hget : s.netdevs[i]? = some s.netdevs[i] := List.getElem?_eq_getElem hlt
  rw [decide_eq_true_eq, htake _ (List.getElem_mem hlt), htake n hn] at hmatch
  obtain ⟨j, hj⟩ := List.mem_iff_getElem?.mp hn
  obtain rfl := h.index_eq hget hj hmatch
  exact ⟨i, n, hj, rfl, hi⟩

/-- What is true of all devices stays true when one of them changes, if it is true of the new one,
and of the others under the change of `m` at its name. -/
theorem Named.forall_set {s : Sysfs C} (h : Named (devices s) saved) {i : ℕ} {n n₁ : Netdev C}
    (hn : s.netdevs[i]? = some n) {P : Netdev C → Prop} (hn₁ : P n₁)
    (hother : ∀ n' ∈ s.netdevs, n'.name ≠ n.name → P n') : ∀ n' ∈ s.netdevs.set i n₁, P n' := by
  intro n' hn'
  obtain ⟨j, hj⟩ := List.mem_iff_getElem?.mp hn'
  rcases eq_or_ne i j with rfl | hne
  · rw [List.getElem?_set_self (List.getElem?_eq_some_iff.mp hn).1] at hj
    obtain rfl := Option.some.inj hj
    exact hn₁
  · -- another device has another name
    rw [List.getElem?_set_ne hne] at hj
    exact hother n' (List.mem_of_getElem? hj) fun heq => hne (h.index_eq hn hj heq.symm)

theorem devices_set {s : Sysfs C} {i : ℕ} {n n₁ : Netdev C} (hn : s.netdevs[i]? = some n)
    (hname : n₁.name = n.name) :
    (s.netdevs.set i n₁).map Netdev.name = devices s := by
  obtain ⟨hlt, rfl⟩ := List.getElem?_eq_some_iff.mp hn
  have hlt' : i < (s.netdevs.map Netdev.name).length := by rwa [List.length_map]
  have hset : (s.netdevs.set i n₁).map Netdev.name =
      (s.netdevs.map Netdev.name).set i ((s.netdevs.map Netdev.name)[i]) := by
    rw [List.map_set, hname, List.getElem_map]
  rw [hset, List.set_getElem_self]
  rfl

/-! ### The simulation -/

/-- A device and what the program knows of it, for the configuration `s`. -/
structure Matches (plat : Platform) (created : List (List Char)) (s : Setup) (n : Netdev C) :
    Prop where
  created : n.name ∈ created ↔ n.enabled = true
  holds : n.enabled = true → n.dev.Holds plat s
  vacant : n.enabled = false → s = {}

/-- The devices have the configurations `m`, and the program has found nothing when it started.
EyeQ is the qdisc of the devices `opened`. -/
structure Sim (plat : Platform) (names opened : List (List Char)) (tool : Tool C)
    (m : List Char → Setup) : Prop where
  names : devices tool.world.sysfs = names
  opened : ∀ name ∈ opened, name ∈ tool.isoCreated
  txcsDev : ∀ name, tool.txcsDev name = []
  vqsDev : ∀ name, tool.vqsDev name = []
  mutex : tool.world.sysfs.configMutex = false
  alloc : ∀ i, (tool.world.env i).kmalloc ≠ .fail
  netdevs : ∀ n ∈ tool.world.sysfs.netdevs, Matches plat tool.isoCreated (m n.name) n

variable {names opened : List (List Char)} {tool : Tool C} {m : List Char → Setup}
  {name : List Char}

theorem Sim.mono {opened' : List (List Char)} (h : Sim plat names opened tool m)
    (hsub : opened' ⊆ opened) :
    Sim plat names opened' tool m :=
  { h with opened := fun name hname => h.opened name (hsub hname) }

/-- The command line for a command. -/
def cmdLine (plat : Platform) (name : List Char) (c : Command) : List Char :=
  "echo ".toList ++ line ("dev".toList :: c.args plat name) ++ " > ".toList ++ c.file

theorem cmdLine_eq (plat : Platform) (name : List Char) (c : Command) :
    cmdLine plat name c = "echo ".toList ++ line ("dev".toList :: c.args plat name) ++
    " > ".toList ++ c.file := by
  -- no equation lemma: to make one, Lean would look into the strings
  delta cmdLine
  rfl

/-- A command does with the configuration of the device what it is for. -/
theorem cmd_sim (hntohl : Function.Involutive plat.ntohl) (hsh : Echoes plat tunables sh)
    (hnamed : Named names saved) (h : Sim plat names opened tool m) (hname : name ∈ saved)
    (hopen : name ∈ opened) (c : Command) :
    Option.Rel (Sim plat names opened) (tool.cmd sh (cmdLine plat name c))
      (atKey name (fun s => s.exec c.cut) m) := by
  have hnames := h.names
  subst hnames
  obtain ⟨i, n, hn, rfl, hfind⟩ := hnamed.isoSearchNetdev hname
  have hmatch := h.netdevs n (List.mem_of_getElem? hn)
  have henabled : n.enabled = true := hmatch.created.mp (h.opened _ hopen)
  have hdev : tool.world.sysfs.enabledDev n.name = some (i, n) := by
    rw [Sysfs.enabledDev, hfind, Option.bind_some, hn, Option.bind_some, if_pos henabled]
  have hliteral := hnamed.literal _ hname
  have hlen : n.name.length ≤ 15 := Nat.le_of_lt_succ (hnamed.short _ (hnamed.there _ hname))
  have hline : sh (cmdLine plat n.name c) tool.world = tool.world.write plat tunables c.file
      (c.text plat n.name) :=
    hsh.echo _ _ _ (literal_args hliteral c) (mem_sysfsFiles (lookup_file _ _ c))
  have hwrite : tool.world.write plat tunables c.file (c.text plat n.name) =
      (n.dev.attempt plat (tunables tool.world.sysctl) (c.cut.op (tool.world.env 0))).map fun dev =>
        { tool.world with
          sysfs := setDev tool.world.sysfs i n dev, env := fun i => tool.world.env (i + 1) } := by
    rw [World.write, lookup_file, Option.bind_eq_bind, Option.bind_some,
      attempt_write hntohl hliteral hlen h.mutex hdev]
    cases n.dev.attempt plat (tunables tool.world.sysctl) (c.cut.op (tool.world.env 0)) <;> rfl
  rw [Tool.cmd, hline, hwrite, Option.map_map, atKey]
  refine rel_map ((hmatch.holds henabled).refines (op_does (h.alloc 0) c.cut)) fun dev s hdev' => ?_
  refine ⟨devices_set hn rfl, h.opened, h.txcsDev, h.vqsDev, h.mutex, fun i => h.alloc (i + 1), ?_⟩
  refine hnamed.forall_set hn ?_ fun n' hn' hne => ?_
  · rw [Function.update_self]
    exact ⟨hmatch.created, fun _ => hdev',
      fun hoff => absurd (henabled.symm.trans hoff) (by decide)⟩
  · rw [Function.update_of_ne hne]
    exact h.netdevs n' hn'

/-- `install` makes EyeQ the qdisc of the device if it is not, and changes no configuration. -/
theorem install_sim (hsh : Documented plat tunables mq sh) (hnamed : Named names saved)
    (hmq : ∀ w, ∀ name ∈ saved, (mq w name).Succeeds) (h : Sim plat names opened tool m)
    (hname : name ∈ saved) :
    Option.Rel (Sim plat names (name :: opened)) (tool.install sh name) (some m) := by
  have hnames := h.names
  subst hnames
  unfold Tool.install
  split_ifs with hcreated
  · exact .some { h with opened := List.forall_mem_cons.mpr ⟨hcreated, h.opened⟩ }
  · obtain ⟨i, n, hn, rfl, hfind⟩ := hnamed.isoSearchNetdev hname
    have hmatch := h.netdevs n (List.mem_of_getElem? hn)
    have hdisabled : n.enabled = false := by
      rw [← Bool.not_eq_true, ← hmatch.created]
      exact hcreated
    obtain ⟨statsNow, rcpNow, hrun⟩ :=
      hsh.tc i n tool.world (hnamed.literal _ hname) hfind hn hdisabled (hmq _ _ hname)
    have hcmd : tool.cmd sh (tcLine n.name) =
        some { tool with
          world := attach (tunables tool.world.sysctl) statsNow rcpNow i n tool.world } := by
      rw [Tool.cmd, hrun, Option.map_some]
    unfold tcLine at hcmd
    rw [hcmd]
    refine .some ⟨devices_set hn rfl, ?_, h.txcsDev, h.vqsDev, h.mutex, h.alloc, ?_⟩
    · refine List.forall_mem_cons.mpr ⟨List.mem_cons_self, fun other hother => ?_⟩
      exact List.mem_cons_of_mem _ (h.opened other hother)
    · refine hnamed.forall_set hn ?_ fun n' hn' hne => ?_
      · refine ⟨⟨fun _ => rfl, fun _ => List.mem_cons_self⟩, fun _ => ?_, fun hoff => nomatch hoff⟩
        rw [hmatch.vacant hdisabled]
        exact Dev.init_holds plat _ statsNow rcpNow
      · have hmatch' := h.netdevs n' hn'
        refine ⟨?_, hmatch'.holds, hmatch'.vacant⟩
        rw [List.mem_cons, or_iff_right hne]
        exact hmatch'.created

/-! ### What is in the file -/

/-- What `iso_txc_show` prints for the VQ of a class. -/
def assocText (plat : Platform) : Option UInt32 → List Char
  | some vqclass => isoClassShow plat vqclass
  | none => "(none)".toList

def vqConfig (plat : Platform) (vq : VqSetup) : VqConfig :=
  ⟨isoClassShow plat vq.klass, dec vq.weight⟩

def txcConfig (plat : Platform) (txc : TxcSetup) : TxcConfig :=
  ⟨isoClassShow plat txc.klass, dec txc.weight, assocText plat txc.assoc⟩

/-- The entry of a device in the file. -/
def devConfig (plat : Platform) (e : List Char × Setup) : List Char × DevConfig :=
  (e.1, ⟨e.2.txcs.map (txcConfig plat), e.2.vqs.map (vqConfig plat)⟩)

/-! ### Command lines -/

theorem cmdLine_create {c : Command} {klass : UInt32}
    (hargs : c.args plat name = [name, isoClassShow plat klass]) :
    cmdLine plat name c = "echo dev ".toList ++ name ++ " ".toList ++
    isoClassShow plat klass ++ " > ".toList ++
      c.file := by
  have hdev : "echo dev ".toList = "echo ".toList ++ ("dev".toList ++ [' ']) := rfl
  have hblank : " ".toList = [' '] := rfl
  rw [cmdLine_eq, hargs, hdev, hblank]
  generalize "echo ".toList = echo
  generalize "dev".toList = dev
  simp [line, List.intercalate]

/-- The command line of a call that sets a number. -/
theorem numberLine_eq (name klass word text file : List Char) :
    "echo dev ".toList ++ name ++ " ".toList ++ klass ++ ([' '] ++ word ++ [' ']) ++ text ++
    " > ".toList ++ file =
      "echo ".toList ++ line ["dev".toList, name, klass, word, text] ++ " > ".toList ++ file := by
  have hdev : "echo dev ".toList = "echo ".toList ++ ("dev".toList ++ [' ']) := rfl
  have hblank : " ".toList = [' '] := rfl
  rw [hdev, hblank]
  generalize "echo ".toList = echo
  generalize "dev".toList = dev
  simp [line, List.intercalate]

theorem cmdLine_weight {c : Command} {klass : UInt32} {weight : ℕ}
    (hargs : c.args plat name = [name, isoClassShow plat klass, "weight".toList, dec weight]) :
    cmdLine plat name c = "echo dev ".toList ++ name ++ " ".toList ++ isoClassShow plat klass ++
    " weight ".toList ++
      dec weight ++ " > ".toList ++ c.file := by
  have hweight : " weight ".toList = [' '] ++ "weight".toList ++ [' '] := rfl
  rw [cmdLine_eq, hargs, hweight, numberLine_eq]

/-- The words of `associate`, before the VQ. -/
def assocWords (plat : Platform) (name : List Char) (klass : UInt32) : List (List Char) :=
  [name, "associate".toList, "txc".toList, isoClassShow plat klass, "vq".toList]

theorem associate_line (klass : UInt32) (vq rest : List Char) :
    "echo dev ".toList ++ name ++ " associate txc ".toList ++ isoClassShow plat klass ++
    " vq ".toList ++ vq ++ rest =
      "echo ".toList ++ line ("dev".toList :: assocWords plat name klass) ++
      " ".toList ++ vq ++ rest := by
  have hdev : "echo dev ".toList = "echo ".toList ++ ("dev".toList ++ [' ']) := rfl
  have hblank : " ".toList = [' '] := rfl
  have hassociate : " associate txc ".toList =
      [' '] ++ "associate".toList ++ [' '] ++ "txc".toList ++ [' '] := rfl
  have hvq : " vq ".toList = [' '] ++ "vq".toList ++ [' '] := rfl
  rw [assocWords, hdev, hblank, hassociate, hvq]
  generalize "echo ".toList = echo
  generalize "dev".toList = dev
  generalize "associate".toList = associate
  generalize "txc".toList = txc
  generalize "vq".toList = word
  simp [line, List.intercalate]

theorem cmdLine_assoc (klass vqclass : UInt32) :
    cmdLine plat name (.assocTxcVq klass vqclass) = "echo dev ".toList ++ name ++
    " associate txc ".toList ++
      isoClassShow plat klass ++ " vq ".toList ++ isoClassShow plat vqclass ++
      (" > ".toList ++ isoSysfs ++ "/assoc_txc_vq".toList) := by
  have hblank : " ".toList = [' '] := rfl
  have hargs : Command.args plat name (.assocTxcVq klass vqclass) =
      assocWords plat name klass ++ [isoClassShow plat vqclass] := rfl
  have hfile : Command.file (.assocTxcVq klass vqclass) = isoSysfs ++ "/assoc_txc_vq".toList := rfl
  rw [associate_line, cmdLine_eq, hargs, hfile, hblank, ← List.cons_append,
    line_concat (List.cons_ne_nil _ _)]
  simp only [List.append_assoc, List.cons_append, List.nil_append]

/-! ### The loops -/

section

variable (hntohl : Function.Involutive plat.ntohl) (hsh : Echoes plat tunables sh)
  (hnamed : Named names saved)

include hntohl hsh hnamed

theorem vqCreate_sim (h : Sim plat names opened tool m) (hname : name ∈ saved)
    (hopen : name ∈ opened) (klass : UInt32) :
    Option.Rel (Sim plat names opened) (tool.vqCreate sh name (isoClassShow plat klass))
      (atKey name (Setup.createVq klass) m) := by
  have hline := @cmdLine_create plat name (.createVq klass) klass rfl
  have hfile : Command.file (.createVq klass) = isoSysfs ++ "/create_vq".toList := rfl
  have hcmd := cmd_sim hntohl hsh hnamed h hname hopen (.createVq klass)
  rw [hline, hfile, ← List.append_assoc] at hcmd
  unfold Tool.vqCreate Tool.install
  rw [if_pos (h.opened name hopen), Option.bind_eq_bind, Option.bind_some, h.vqsDev,
    if_neg List.not_mem_nil]
  exact hcmd

theorem vqSetWeight_sim (h : Sim plat names opened tool m) (hname : name ∈ saved)
    (hopen : name ∈ opened) (klass : UInt32) (weight : ℕ) :
    Option.Rel (Sim plat names opened)
      (tool.vqSetWeight sh name (isoClassShow plat klass) (dec weight))
      (atKey name (Setup.setVqWeight klass (s32 weight)) m) := by
  have hline := @cmdLine_weight plat name (.setVqWeight klass weight) klass weight rfl
  have hfile : Command.file (.setVqWeight klass weight) = isoSysfs ++ "/set_vq_weight".toList := rfl
  have hcmd := cmd_sim hntohl hsh hnamed h hname hopen (.setVqWeight klass weight)
  rw [hline, hfile, ← List.append_assoc] at hcmd
  exact hcmd

/-- One VQ of the file. -/
theorem loadVq_sim (h : Sim plat names opened tool m) (hname : name ∈ saved)
    (hopen : name ∈ opened) (vq : VqSetup) :
    Option.Rel (Sim plat names opened)
      ((tool.vqCreate sh name (vqConfig plat vq).klass).bind fun tool =>
        tool.vqSetWeight sh name (vqConfig plat vq).klass (vqConfig plat vq).weight)
      (atKey name (fun s => s.loadVq vq.entry) m) := by
  have hload : (fun s : Setup => s.loadVq vq.entry) = fun s =>
      (s.createVq vq.klass).bind (Setup.setVqWeight vq.klass (s32 vq.weight)) := by
    simp only [Setup.loadVq, VqSetup.entry]
  rw [hload, ← atKey_bind]
  refine rel_bind (vqCreate_sim hntohl hsh hnamed h hname hopen vq.klass) fun tool' m' h' => ?_
  exact vqSetWeight_sim hntohl hsh hnamed h' hname hopen vq.klass vq.weight

theorem txcCreate_sim (h : Sim plat names opened tool m) (hname : name ∈ saved)
    (hopen : name ∈ opened) (klass : UInt32) :
    Option.Rel (Sim plat names opened) (tool.txcCreate sh name (isoClassShow plat klass))
      (atKey name (Setup.createTxc klass) m) := by
  have hline := @cmdLine_create plat name (.createTxc klass) klass rfl
  have hfile : Command.file (.createTxc klass) = isoSysfs ++ "/create_txc".toList := rfl
  have hcmd := cmd_sim hntohl hsh hnamed h hname hopen (.createTxc klass)
  rw [hline, hfile, ← List.append_assoc] at hcmd
  unfold Tool.txcCreate Tool.install
  rw [if_pos (h.opened name hopen), Option.bind_eq_bind, Option.bind_some, h.txcsDev,
    if_neg List.not_mem_nil]
  exact hcmd

theorem txcSetWeight_sim (h : Sim plat names opened tool m) (hname : name ∈ saved)
    (hopen : name ∈ opened) (klass : UInt32) (weight : ℕ) :
    Option.Rel (Sim plat names opened)
      (tool.txcSetWeight sh name (isoClassShow plat klass) (dec weight))
      (atKey name (Setup.setTxcWeight klass (s32 weight)) m) := by
  have hline := @cmdLine_weight plat name (.setTxcWeight klass weight) klass weight rfl
  have hfile : Command.file (.setTxcWeight klass weight) = isoSysfs ++ "/set_txc_weight".toList :=
    rfl
  have hcmd := cmd_sim hntohl hsh hnamed h hname hopen (.setTxcWeight klass weight)
  rw [hline, hfile, ← List.append_assoc] at hcmd
  exact hcmd

/-- A class without a VQ is associated with `(none)`, which the shell does not take. -/
theorem associate_sim (h : Sim plat names opened tool m) (hname : name ∈ saved)
    (hopen : name ∈ opened) (klass : UInt32) (assoc : Option UInt32) :
    Option.Rel (Sim plat names opened) (tool.associate sh name (isoClassShow plat klass)
      (assocText plat assoc)) (atKey name
      (fun s => assoc.bind fun vqclass => s.assocTxcVq klass vqclass) m) := by
  cases assoc with
  | some vqclass =>
    have hcmd := cmd_sim hntohl hsh hnamed h hname hopen (.assocTxcVq klass vqclass)
    rw [cmdLine_assoc, ← List.append_assoc, ← List.append_assoc] at hcmd
    exact hcmd
  | none =>
    have hsplit : "(none)".toList = "(".toList ++ "none)".toList := rfl
    have hopen : " (".toList = " ".toList ++ "(".toList := rfl
    have hwords : ∀ w ∈ assocWords plat name klass, Literal w := by
      intro w hw
      exact literal_args (hnamed.literal name hname) (.assocTxcVq klass 0) w
        (List.mem_append_left [_] hw)
    have hfails := hsh.parenthesis _
      ("none)".toList ++ (" > ".toList ++ isoSysfs ++ "/assoc_txc_vq".toList)) tool.world hwords
    have hcmd : tool.associate sh name (isoClassShow plat klass) (assocText plat none) = none := by
      unfold Tool.associate Tool.cmd assocText
      dsimp only
      rw [List.append_assoc _ " > ".toList, List.append_assoc _ (" > ".toList ++ isoSysfs),
        associate_line, hsplit]
      rw [hopen] at hfails
      simp only [List.append_assoc] at hfails ⊢
      rw [hfails, Option.map_none]
    rw [hcmd]
    exact .none

/-- One class of the file. -/
theorem loadTxc_sim (h : Sim plat names opened tool m) (hname : name ∈ saved)
    (hopen : name ∈ opened) (txc : TxcSetup) :
    Option.Rel (Sim plat names opened)
      ((tool.txcCreate sh name (txcConfig plat txc).klass).bind fun tool =>
        (tool.txcSetWeight sh name (txcConfig plat txc).klass (txcConfig plat txc).weight).bind
          fun tool => tool.associate sh name (txcConfig plat txc).klass (txcConfig plat txc).assoc)
      (atKey name (fun s => s.loadTxc txc.entry) m) := by
  have hload : (fun s : Setup => s.loadTxc txc.entry) =
      fun s => (s.createTxc txc.klass).bind fun s =>
      (s.setTxcWeight txc.klass (s32 txc.weight)).bind fun s =>
        txc.assoc.bind fun vqclass => s.assocTxcVq txc.klass vqclass := by
    funext s
    simp only [Setup.loadTxc, TxcSetup.entry, Option.bind_assoc]
  rw [hload, ← atKey_bind]
  refine rel_bind (txcCreate_sim hntohl hsh hnamed h hname hopen txc.klass) fun tool m h => ?_
  rw [← atKey_bind]
  refine rel_bind (txcSetWeight_sim hntohl hsh hnamed h hname hopen txc.klass txc.weight)
    fun tool m h => ?_
  exact associate_sim hntohl hsh hnamed h hname hopen txc.klass txc.assoc

end

section

variable (hntohl : Function.Involutive plat.ntohl) (hsh : Documented plat tunables mq sh)
  (hnamed : Named names saved) (hmq : ∀ w, ∀ name ∈ saved, (mq w name).Succeeds)

include hntohl hsh hnamed hmq

/-- The VQs of one device. -/
theorem vqsOf_sim (h : Sim plat names opened tool m) (hname : name ∈ saved) (s : Setup) :
    Option.Rel (Sim plat names (name :: opened))
      ((tool.install sh name).bind fun tool => (s.vqs.map (vqConfig plat)).foldlM (fun tool val =>
        (tool.vqCreate sh name val.klass).bind fun tool =>
        tool.vqSetWeight sh name val.klass val.weight) tool)
      (atKey name s.loadVqs m) := by
  have hload : atKey name s.loadVqs m =
      s.vqs.foldlM (fun m vq => atKey name (fun s => s.loadVq vq.entry) m) m := by
    rw [foldlM_atKey]
    unfold Setup.loadVqs
    simp only [List.foldlM_map]
  rw [hload, ← Option.bind_some m fun m => s.vqs.foldlM _ m]
  refine rel_bind (install_sim hsh hnamed hmq h hname) fun tool' m' h' => ?_
  rw [List.foldlM_map]
  refine rel_foldlM (fun vq _ tool m h => ?_) h'
  exact loadVq_sim hntohl hsh.toEchoes hnamed h hname List.mem_cons_self vq

/-- The classes of one device. -/
theorem txcsOf_sim (h : Sim plat names opened tool m) (hname : name ∈ saved) (s : Setup) :
    Option.Rel (Sim plat names (name :: opened))
      ((tool.install sh name).bind fun tool => (s.txcs.map (txcConfig plat)).foldlM (fun tool val =>
        (tool.txcCreate sh name val.klass).bind fun tool =>
          (tool.txcSetWeight sh name val.klass val.weight).bind fun tool =>
            tool.associate sh name val.klass val.assoc) tool)
      (atKey name s.loadTxcs m) := by
  have hload : atKey name s.loadTxcs m =
      s.txcs.foldlM (fun m txc => atKey name (fun s => s.loadTxc txc.entry) m) m := by
    rw [foldlM_atKey]
    unfold Setup.loadTxcs
    simp only [List.foldlM_map]
  rw [hload, ← Option.bind_some m fun m => s.txcs.foldlM _ m]
  refine rel_bind (install_sim hsh hnamed hmq h hname) fun tool' m' h' => ?_
  rw [List.foldlM_map]
  refine rel_foldlM (fun txc _ tool m h => ?_) h'
  exact loadTxc_sim hntohl hsh.toEchoes hnamed h hname List.mem_cons_self txc

/-- The VQs of the file. -/
theorem vqsLoad_sim (h : Sim plat names [] tool m) {l : List (List Char × Setup)}
    (hl : ∀ e ∈ l, e.1 ∈ saved) :
    Option.Rel (Sim plat names []) (tool.vqsLoad sh (l.map (devConfig plat)))
      (l.foldlM (updateAt Setup.loadVqs) m) := by
  unfold Tool.vqsLoad
  rw [List.foldlM_map]
  refine rel_foldlM (fun e he tool m h => ?_) h
  have hdev := vqsOf_sim hntohl hsh hnamed hmq h (hl e he) e.2
  exact rel_mono hdev fun _ _ h => h.mono (List.nil_subset _)

/-- The classes of the file. -/
theorem txcsLoad_sim (h : Sim plat names [] tool m) {l : List (List Char × Setup)}
    (hl : ∀ e ∈ l, e.1 ∈ saved) :
    Option.Rel (Sim plat names (l.map Prod.fst)) (tool.txcsLoad sh (l.map (devConfig plat)))
      (l.foldlM (updateAt Setup.loadTxcs) m) := by
  unfold Tool.txcsLoad
  rw [List.foldlM_map]
  have hloop := @rel_foldlM_done (List Char × Setup) _ _
    (fun done => Sim plat names (done.map Prod.fst)) _ _ l
    (fun e he done tool m h => txcsOf_sim hntohl hsh hnamed hmq h (hl e he) e.2) [] tool m h
  refine rel_mono hloop fun _ _ h => h.mono fun name hname => ?_
  simpa using hname

end

end EyeQ.Perfiso
