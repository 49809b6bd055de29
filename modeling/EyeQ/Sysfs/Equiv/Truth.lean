import EyeQ.Dev.Equiv.Effect
import EyeQ.Scanf.Exact
import EyeQ.Sysfs.Equiv.Mutex

/-!
# What a return value says

The eight handlers that create nothing (`Handler`) return `0` or not, and whoever wrote the command
takes `0` to mean that it was well-formed, that its device is there and enabled, that what it names
exists, and that what it asks for is in effect; and takes anything else to mean that nothing has
changed (`Truthful`).

`request` is what the command asks for, by its words; `read` is what the handler reads.
`exec_truthful_iff` says exactly when the return value is right.  A handler that refuses has changed
nothing, always.  `0` is wrong if the device is missing and the handler is `assoc_txc_vq`, if what
was read is not what was written, and if what is found in a hash table is not on its list, as after
every deletion.
-/

namespace EyeQ.Sysfs

open Machine Scanf Text

variable {C : Type} {plat : Platform} {p : Params} {s s' : Sysfs C}

/-! ### Handlers -/

/-- The handlers that create nothing. -/
inductive Handler where
  | assocTxcVq
  | setTxcWeight
  | setTxcRate
  | setVqWeight
  | setVqRate
  | deleteTxc
  | deleteVq
  | recomputeDev
deriving DecidableEq

namespace Handler

/-- The write that calls the handler. -/
def write (val : List Char) : Handler → Write
  | .assocTxcVq => .assocTxcVq val
  | .setTxcWeight => .setTxcWeight val
  | .setTxcRate => .setTxcRate val
  | .setVqWeight => .setVqWeight val
  | .setVqRate => .setVqRate val
  | .deleteTxc => .deleteTxc val
  | .deleteVq => .deleteVq val
  | .recomputeDev => .recomputeDev val

/-- The words of a command. -/
def pieces : Handler → List Piece
  | .assocTxcVq => [.word "dev".toList, .str, .word "associate".toList, .word "txc".toList, .str,
      .word "vq".toList, .str]
  | .setTxcWeight | .setVqWeight => [.word "dev".toList, .str, .str, .word "weight".toList, .int]
  | .setTxcRate | .setVqRate => [.word "dev".toList, .str, .str, .word "rate".toList, .int]
  | .deleteTxc => [.word "dev".toList, .str, .word "txc".toList, .str]
  | .deleteVq => [.word "dev".toList, .str, .word "vq".toList, .str]
  | .recomputeDev => [.word "dev".toList, .str]

/-- A device and the two classes of `assoc_txc_vq`. -/
def classesOp (klass : List Char → Option UInt32) : List Value → Option (List Char × Dev.Op)
  | [.str devname, .str txc, .str vqc] =>
    (klass txc).bind fun txclass => (klass vqc).map fun vqclass =>
    (devname, .assocTxcVq txclass vqclass)
  | _ => none

/-- A device, a class and a number. -/
def numberOp (klass : List Char → Option UInt32) (op : UInt32 → ℤ → Dev.Op) :
    List Value → Option (List Char × Dev.Op)
  | [.str devname, .str word, .int n] => (klass word).map fun c => (devname, op c n)
  | _ => none

/-- A device and a class. -/
def classOp (klass : List Char → Option UInt32) (op : UInt32 → Dev.Op) :
    List Value → Option (List Char × Dev.Op)
  | [.str devname, .str word] => (klass word).map fun c => (devname, op c)
  | _ => none

/-- A device. -/
def devOp : List Value → Option (List Char × Dev.Op)
  | [.str devname] => some (devname, .recomputeDev)
  | _ => none

section

variable {klass : List Char → Option UInt32} {values : List Value}

theorem classesOp_of_ne (h : ∀ devname tx vq, values ≠ [.str devname, .str tx, .str vq]) :
    classesOp klass values = none := by
  unfold classesOp
  split
  · exact absurd rfl (h _ _ _)
  · rfl

theorem numberOp_of_ne {op : UInt32 → ℤ → Dev.Op}
    (h : ∀ devname word n, values ≠ [.str devname, .str word, .int n]) :
    numberOp klass op values = none := by
  unfold numberOp
  split
  · exact absurd rfl (h _ _ _)
  · rfl

theorem classOp_of_ne {op : UInt32 → Dev.Op}
    (h : ∀ devname word, values ≠ [.str devname, .str word]) :
    classOp klass op values = none := by
  unfold classOp
  split
  · exact absurd rfl (h _ _)
  · rfl

theorem devOp_of_ne (h : ∀ devname, values ≠ [.str devname]) : devOp values = none := by
  unfold devOp
  split
  · exact absurd rfl (h _)
  · rfl

end

/-- The device and the command that the values name, if `klass` says which class a word names. -/
def op (klass : List Char → Option UInt32) : Handler → List Value → Option (List Char × Dev.Op)
  | .assocTxcVq => classesOp klass
  | .setTxcWeight => numberOp klass .setTxcWeight
  | .setTxcRate => numberOp klass .setTxcRate
  | .setVqWeight => numberOp klass .setVqWeight
  | .setVqRate => numberOp klass .setVqRate
  | .deleteTxc => classOp klass .deleteTxc
  | .deleteVq => classOp klass .deleteVq
  | .recomputeDev => devOp

/-- What a command asks for, if it is well-formed. -/
def request (plat : Platform) (h : Handler) (val : List Char) : Option (List Char × Dev.Op) :=
  (matchWords h.pieces (words isSpace val)).bind (h.op fun word => (dottedQuad word).map plat.ntohl)

/-- The characters that a handler looks at. -/
def arg (val : List Char) : Handler → List Char
  | .recomputeDev => truncated val
  | _ => val

/-- The format with which a handler reads them. -/
def fmt : Handler → String
  | .assocTxcVq => "dev %s associate txc %s vq %s"
  | .setTxcWeight | .setVqWeight => "dev %s %s weight %d"
  | .setTxcRate | .setVqRate => "dev %s %s rate %d"
  | .deleteTxc => "dev %s txc %s"
  | .deleteVq => "dev %s vq %s"
  | .recomputeDev => "dev %s"

/-- What a handler reads. -/
def read (plat : Platform) (h : Handler) (val : List Char) : Option (List Char × Dev.Op) :=
  h.op (fun word => some (isoClassParse plat word)) (sscanf (format h.fmt.toList) (h.arg val))

/-- What is returned when there is no such device. -/
def missing : Handler → ℤ
  | .assocTxcVq => 0
  | _ => -einval

end Handler

/-! ### What is read -/

theorem Handler.format_fmt (h : Handler) : format h.fmt.toList = (directives h.pieces).tail := by
  cases h <;> rfl

theorem isoClassParse_of_dottedQuad {word : List Char} {addr : UInt32}
    (h : dottedQuad word = some addr) :
    isoClassParse plat word = plat.ntohl addr := by
  obtain ⟨a, b, c, d, rfl, hscan⟩ := sscanf_dottedQuad h
  rw [isoClassParse, hscan]
  rfl

theorem isoClassParse_of_written {word : List Char} {klass : UInt32}
    (h : (dottedQuad word).map plat.ntohl = some klass) : isoClassParse plat word = klass := by
  obtain ⟨addr, haddr, rfl⟩ := Option.map_eq_some_iff.mp h
  exact isoClassParse_of_dottedQuad haddr

theorem Handler.numberOp_cut {f : UInt32 → ℤ → Dev.Op}
    (hf : ∀ klass n, (f klass n).cut = f klass (s32 n)) {values : List Value}
    {name : List Char} {op : Dev.Op}
    (hop : numberOp (fun word => (dottedQuad word).map plat.ntohl) f values = some (name, op)) :
    numberOp (fun word => some (isoClassParse plat word)) f (values.map Value.cut)
      = some (name, op.cut) := by
  unfold numberOp at hop
  split at hop
  · obtain ⟨klass, hword, hop⟩ := Option.map_eq_some_iff.mp hop
    obtain ⟨rfl, rfl⟩ := Prod.mk.inj hop
    rw [hf, ← isoClassParse_of_written hword]
    rfl
  · exact nomatch hop

theorem Handler.classOp_cut {f : UInt32 → Dev.Op} (hf : ∀ klass, (f klass).cut = f klass)
    {values : List Value} {name : List Char} {op : Dev.Op}
    (hop : classOp (fun word => (dottedQuad word).map plat.ntohl) f values = some (name, op)) :
    classOp (fun word => some (isoClassParse plat word)) f (values.map Value.cut)
      = some (name, op.cut) := by
  unfold classOp at hop
  split at hop
  · obtain ⟨klass, hword, hop⟩ := Option.map_eq_some_iff.mp hop
    obtain ⟨rfl, rfl⟩ := Prod.mk.inj hop
    rw [hf, ← isoClassParse_of_written hword]
    rfl
  · exact nomatch hop

theorem Handler.classesOp_cut {values : List Value} {name : List Char} {op : Dev.Op}
    (hop : classesOp (fun word => (dottedQuad word).map plat.ntohl) values = some (name, op)) :
    classesOp (fun word => some (isoClassParse plat word)) (values.map Value.cut)
      = some (name, op.cut) := by
  unfold classesOp at hop
  split at hop
  · obtain ⟨txclass, htxc, hop⟩ := Option.bind_eq_some_iff.mp hop
    obtain ⟨vqclass, hvqc, hop⟩ := Option.map_eq_some_iff.mp hop
    obtain ⟨rfl, rfl⟩ := Prod.mk.inj hop
    rw [← isoClassParse_of_written htxc, ← isoClassParse_of_written hvqc]
    rfl
  · exact nomatch hop

theorem Handler.devOp_eq {values : List Value} {name : List Char} {op : Dev.Op}
    (hop : devOp values = some (name, op)) : values = [.str name] ∧ op = .recomputeDev := by
  unfold devOp at hop
  split at hop
  · obtain ⟨rfl, rfl⟩ := Prod.mk.inj (Option.some.inj hop)
    exact ⟨rfl, rfl⟩
  · exact nomatch hop

/-- A class that is written is the class that is read, and a number is read cut. -/
theorem Handler.op_cut {h : Handler} {values : List Value} {name : List Char} {op : Dev.Op}
    (hop : h.op (fun word => (dottedQuad word).map plat.ntohl) values = some (name, op)) :
    h.op (fun word => some (isoClassParse plat word)) (values.map Value.cut) =
    some (name, op.cut) := by
  cases h with
  | assocTxcVq => exact classesOp_cut hop
  | setTxcWeight => exact numberOp_cut (fun _ _ => rfl) hop
  | setTxcRate => exact numberOp_cut (fun _ _ => rfl) hop
  | setVqWeight => exact numberOp_cut (fun _ _ => rfl) hop
  | setVqRate => exact numberOp_cut (fun _ _ => rfl) hop
  | deleteTxc => exact classOp_cut (fun _ => rfl) hop
  | deleteVq => exact classOp_cut (fun _ => rfl) hop
  | recomputeDev =>
    obtain ⟨rfl, rfl⟩ := devOp_eq hop
    rfl

/-- What a handler reads of a well-formed command is what is written, with its number cut.  Only
`recompute_dev` may have cut the name as well. -/
theorem Handler.read_of_request {h : Handler} {val name name' : List Char} {op op' : Dev.Op}
    (hread : h.read plat val = some (name, op))
    (hrequest : h.request plat val = some (name', op')) :
    op = op'.cut ∧ (h = .recomputeDev ∨ name = name') := by
  obtain ⟨values, hvalues, hop'⟩ := Option.bind_eq_some_iff.mp hrequest
  by_cases hh : h = .recomputeDev
  · subst hh
    obtain ⟨-, rfl⟩ := Handler.devOp_eq hread
    obtain ⟨-, rfl⟩ := Handler.devOp_eq hop'
    exact ⟨rfl, Or.inl rfl⟩
  · have harg : h.arg val = val := by
      cases h with
      | recomputeDev => exact absurd rfl hh
      | _ => rfl
    have hscan : sscanf (directives h.pieces).tail val = [] ∨
        sscanf (directives h.pieces).tail val = sscanf (directives h.pieces) val := by
      cases h <;> exact sscanf_tail_directives (c := 'd') (by decide) _ _ _
    rw [Handler.read, harg, Handler.format_fmt] at hread
    rcases hscan with hscan | hscan
    · rw [hscan] at hread
      cases h <;> exact nomatch hread
    · rw [hscan, sscanf_directives hvalues, Handler.op_cut hop'] at hread
      obtain ⟨rfl, rfl⟩ := Prod.mk.inj (Option.some.inj hread)
      exact ⟨rfl, Or.inr rfl⟩

/-- The number that a handler reads is an `int`. -/
theorem Handler.read_answerable {h : Handler} {val name : List Char} {op : Dev.Op}
    (hread : h.read plat val = some (name, op)) : op.Answerable := by
  have hint : ∀ n, .int n ∈ sscanf (format h.fmt.toList) (h.arg val) → n < 2 ^ 31 :=
    fun n hn => sscanf_int_lt hn
  unfold Handler.read at hread
  generalize sscanf (format h.fmt.toList) (h.arg val) = values at hread hint
  cases h with
  | recomputeDev =>
    obtain ⟨-, rfl⟩ := devOp_eq hread
    trivial
  | assocTxcVq =>
    unfold Handler.op classesOp at hread
    dsimp only at hread
    split at hread
    · cases hread
      trivial
    · exact nomatch hread
  | deleteTxc | deleteVq =>
    unfold Handler.op classOp at hread
    dsimp only at hread
    split at hread
    · cases hread
      trivial
    · exact nomatch hread
  | setTxcWeight | setTxcRate | setVqWeight =>
    unfold Handler.op numberOp at hread
    dsimp only at hread
    split at hread
    · cases hread
      trivial
    · exact nomatch hread
  | setVqRate =>
    unfold Handler.op numberOp at hread
    dsimp only at hread
    split at hread
    · cases hread
      exact hint _ (by simp)
    · exact nomatch hread

/-! ### What is done -/

/-- The device of a name and its index, if EyeQ is its qdisc. -/
def enabledDev (name : List Char) (s : Sysfs C) : Option (ℕ × Netdev C) :=
  (s.isoSearchNetdev name).bind fun i =>
    (s.netdevs[i]?).bind fun n => if n.enabled then some (i, n) else none

/-- The command was well-formed, its device exists and is enabled, what it names exists, and what it
asks for is in effect. -/
def Fulfilled (plat : Platform) (p : Params) (h : Handler) (val : List Char) (s s' : Sysfs C) :
    Prop :=
  ∃ name op i n n', h.request plat val = some (name, op) ∧ s.enabledDev name = some (i, n) ∧
    s'.netdevs[i]? = some n' ∧ Dev.Done plat p op n.dev n'.dev

/-- The value returned is right: `0` for a command that is fulfilled, and another one if nothing has
changed. -/
structure Truthful (plat : Platform) (p : Params) (h : Handler) (val : List Char) (s : Sysfs C)
    (r : ℤ × Sysfs C) : Prop where
  fulfilled : r.1 = 0 → Fulfilled plat p h val s r.2
  unchanged : r.1 ≠ 0 → r.2.netdevs = s.netdevs

/-- The device is there, or the handler is not `assoc_txc_vq`; and if the device takes the command,
this is what was written, for objects that are on both indexes.  (`recompute_dev` may have cut the
name of another device, whose rates happen to be current.) -/
structure Sound (plat : Platform) (p : Params) (h : Handler) (val : List Char) (s : Sysfs C) :
    Prop where
  found : ∀ name op, h.read plat val = some (name, op) → s.enabledDev name = none → h ≠ .assocTxcVq
  accepted : ∀ name op i n, h.read plat val = some (name, op) → s.enabledDev name = some (i, n) →
    Dev.Accepts plat p op n.dev → ∃ name', h.request plat val = some (name', op) ∧
      (s.enabledDev name' = some (i, n) ∧ Dev.Intact plat op n.dev ∨
        ∃ i' n', i' ≠ i ∧ s.enabledDev name' = some (i', n') ∧ Dev.Done plat p op n'.dev n'.dev)

/-- What has become of the devices, and whether `0` is returned, after a handler that has read
`request`. -/
def Handled (plat : Platform) (p : Params) (missing : ℤ) (s : Sysfs C) (r : ℤ × Sysfs C) :
    Option (List Char × Dev.Op) → Prop
  | none => r.1 ≠ 0 ∧ r.2.netdevs = s.netdevs
  | some (name, op) =>
    match s.enabledDev name with
    | none => (r.1 = 0 ↔ missing = 0) ∧ r.2.netdevs = s.netdevs
    | some (i, n) => ∃ ret dev, n.dev.exec plat p op = .ok (ret, dev) ∧ (r.1 = 0 ↔ ret = 0) ∧
        r.2.netdevs = s.netdevs.set i { n with dev := dev }

section

variable {missing : ℤ} {r : ℤ × Sysfs C} {name : List Char} {op : Dev.Op}

theorem Handled.of_missing (h : Handled plat p missing s r (some (name, op)))
    (hdev : s.enabledDev name = none) : (r.1 = 0 ↔ missing = 0) ∧ r.2.netdevs = s.netdevs := by
  unfold Handled at h
  dsimp only at h
  rwa [hdev] at h

theorem Handled.of_enabled {i : ℕ} {n : Netdev C} (h : Handled plat p missing s r (some (name, op)))
    (hdev : s.enabledDev name = some (i, n)) :
    ∃ ret dev, n.dev.exec plat p op = .ok (ret, dev) ∧ (r.1 = 0 ↔ ret = 0) ∧
      r.2.netdevs = s.netdevs.set i { n with dev := dev } := by
  unfold Handled at h
  dsimp only at h
  rwa [hdev] at h

end

theorem onDev_eq (name : List Char) (missing : ℤ) (op : Dev.Op) (s : Sysfs C) :
    s.onDev plat p name missing op = (match s.enabledDev name with
      | none => pure (missing, s)
      | some (i, n) => do
        let (ret, dev) ← n.dev.exec plat p op
        pure (ret, { s with netdevs := s.netdevs.set i { n with dev := dev } })) := by
  unfold onDev enabledDev
  cases s.isoSearchNetdev name with
  | none => rfl
  | some i =>
    rw [Option.bind_some]
    dsimp only
    cases s.netdevs[i]? with
    | none => rfl
    | some n =>
      rw [Option.bind_some]
      dsimp only
      split_ifs
      · rfl
      · rfl

theorem enabledDev_congr (h : s.netdevs = s'.netdevs) (name : List Char) :
    s.enabledDev name = s'.enabledDev name := by
  unfold enabledDev isoSearchNetdev
  rw [h]

theorem onDev_handled {name : List Char} {missing : ℤ} {op : Dev.Op} {r : ℤ × Sysfs C}
    (h : s'.onDev plat p name missing op = .ok r) (hs : s'.netdevs = s.netdevs) :
    Handled plat p missing s r (some (name, op)) := by
  rw [onDev_eq, enabledDev_congr hs] at h
  unfold Handled
  dsimp only
  cases hdev : s.enabledDev name with
  | none =>
    rw [hdev] at h
    rw [← Except.ok.inj h]
    exact ⟨Iff.rfl, hs⟩
  | some found =>
    rw [hdev] at h
    obtain ⟨⟨ret, dev⟩, hexec, h⟩ := bind_eq_ok h
    rw [← Except.ok.inj h]
    exact ⟨ret, dev, hexec, Iff.rfl, by rw [hs]⟩

/-- The mutex does not count. -/
theorem Handled.congr {missing : ℤ} {r r' : ℤ × Sysfs C} {request : Option (List Char × Dev.Op)}
    (h : Handled plat p missing s r request) (hret : r'.1 = 0 ↔ r.1 = 0)
    (hr : r'.2.netdevs = r.2.netdevs) :
    Handled plat p missing s r' request := by
  unfold Handled at h ⊢
  split at h
  · exact ⟨fun hzero => h.1 (hret.mp hzero), hr.trans h.2⟩
  · split at h
    · exact ⟨hret.trans h.1, hr.trans h.2⟩
    · obtain ⟨ret, dev, hexec, hzero, hset⟩ := h
      exact ⟨ret, dev, hexec, hret.trans hzero, hr.trans hset⟩

theorem refused_handled {missing : ℤ} {r : ℤ × Sysfs C}
    (h : (pure (-einval, s') : Except Halt (ℤ × Sysfs C)) = .ok r) (hs : s'.netdevs = s.netdevs) :
    Handled plat p missing s r none := by
  rw [← Except.ok.inj h]
  exact ⟨show -einval ≠ 0 by decide, hs⟩

theorem mapError_eq_ok {α : Type} {x : Except Halt α} {a : α} (h : x.mapError Stop.halt = .ok a) :
    x = .ok a := by
  cases x with
  | ok a' => exact congrArg Except.ok (Except.ok.inj h)
  | error e => exact nomatch h

theorem down_eq_ok {s' : Sysfs C} (h : s.down = .ok s') : s'.netdevs = s.netdevs := by
  unfold down at h
  split_ifs at h
  rw [← Except.ok.inj h]

/-- What the body of a handler does is what the handler does. -/
theorem locked_handled {body : Sysfs C → Except Halt (ℤ × Sysfs C)} {r : ℤ × Sysfs C}
    (h : s.locked body = .ok r) {missing : ℤ} {request : Option (List Char × Dev.Op)}
    (hbody : ∀ s₁ r₁, s₁.netdevs = s.netdevs → body s₁ = .ok r₁ →
      Handled plat p missing s r₁ request) :
    Handled plat p missing s r request := by
  obtain ⟨s₁, hdown, h⟩ := bind_eq_ok h
  obtain ⟨r₁, hr₁, h⟩ := bind_eq_ok h
  refine (hbody s₁ r₁ (down_eq_ok hdown) (mapError_eq_ok hr₁)).congr ?_ ?_
  · rw [← Except.ok.inj h]
  · rw [← Except.ok.inj h]
    rfl

section

variable {val : List Char} {r : ℤ × Sysfs C}

theorem setNumber_handled {fmt : String} {op : UInt32 → ℤ → Dev.Op}
    (h : s.setNumber plat p fmt op val = .ok r) :
    Handled plat p (-einval) s r (Handler.numberOp (fun word => some (isoClassParse plat word)) op
      (sscanf (format fmt.toList) val)) := by
  refine locked_handled h fun s₁ r₁ hs₁ hbody => ?_
  obtain ⟨values, hvalues, hbody⟩ := bind_eq_ok hbody
  rw [← scanArgs_eq_ok hvalues]
  split at hbody
  · exact onDev_handled hbody hs₁
  · rename_i hother
    rw [Handler.numberOp_of_ne hother]
    exact refused_handled hbody hs₁

theorem deleteClass_handled {fmt : String} {op : UInt32 → Dev.Op}
    (h : s.deleteClass plat p fmt op val = .ok r) :
    Handled plat p (-einval) s r (Handler.classOp (fun word => some (isoClassParse plat word)) op
      (sscanf (format fmt.toList) val)) := by
  refine locked_handled h fun s₁ r₁ hs₁ hbody => ?_
  obtain ⟨values, hvalues, hbody⟩ := bind_eq_ok hbody
  rw [← scanArgs_eq_ok hvalues]
  split at hbody
  · exact onDev_handled hbody hs₁
  · rename_i hother
    rw [Handler.classOp_of_ne hother]
    exact refused_handled hbody hs₁

theorem isoSysAssocTxcVq_handled (h : s.isoSysAssocTxcVq plat p val = .ok r) :
    Handled plat p 0 s r (Handler.classesOp (fun word => some (isoClassParse plat word))
      (sscanf (format "dev %s associate txc %s vq %s".toList) val)) := by
  obtain ⟨values, hvalues, h⟩ := bind_eq_ok h
  rw [← scanArgs_eq_ok (mapError_eq_ok hvalues)]
  refine locked_handled h fun s₁ r₁ hs₁ hbody => ?_
  split at hbody
  · exact onDev_handled hbody hs₁
  · rename_i hother
    rw [Handler.classesOp_of_ne hother]
    exact refused_handled hbody hs₁

theorem isoSysRecomputeDev_handled (h : s.isoSysRecomputeDev plat p val = .ok r) :
    Handled plat p (-einval) s r (Handler.devOp
      (sscanf (format "dev %s".toList) (truncated val))) := by
  obtain ⟨s₁, hdown, h⟩ := bind_eq_ok h
  have hs₁ := down_eq_ok hdown
  obtain ⟨values, hvalues, h⟩ := bind_eq_ok h
  rw [← scanArgs_eq_ok (mapError_eq_ok hvalues)]
  split at h
  · obtain ⟨⟨ret, s₂⟩, hdev, h⟩ := bind_eq_ok h
    refine (onDev_handled (mapError_eq_ok hdev) hs₁).congr ?_ ?_
    · rw [← Except.ok.inj h]
      dsimp only [created]
      split_ifs with hzero
      · simp [hzero]
      · exact iff_of_false (by decide) hzero
    · rw [← Except.ok.inj h]
      rfl
  · rename_i hother
    rw [Handler.devOp_of_ne hother, ← Except.ok.inj h]
    exact ⟨show -einval ≠ 0 by decide, hs₁⟩

/-- What a handler does is determined by what it reads. -/
theorem exec_handled {h : Handler} (hexec : s.exec plat p (h.write val) = .ok r) :
    Handled plat p h.missing s r (h.read plat val) := by
  unfold Handler.read
  cases h with
  | assocTxcVq => exact isoSysAssocTxcVq_handled hexec
  | setTxcWeight =>
    exact @setNumber_handled C plat p s val r "dev %s %s weight %d" .setTxcWeight hexec
  | setTxcRate => exact @setNumber_handled C plat p s val r "dev %s %s rate %d" .setTxcRate hexec
  | setVqWeight =>
    exact @setNumber_handled C plat p s val r "dev %s %s weight %d" .setVqWeight hexec
  | setVqRate => exact @setNumber_handled C plat p s val r "dev %s %s rate %d" .setVqRate hexec
  | deleteTxc => exact @deleteClass_handled C plat p s val r "dev %s txc %s" .deleteTxc hexec
  | deleteVq => exact @deleteClass_handled C plat p s val r "dev %s vq %s" .deleteVq hexec
  | recomputeDev => exact isoSysRecomputeDev_handled hexec

end

/-! ### Whether it is true -/

theorem enabledDev_getElem? {name : List Char} {i : ℕ} {n : Netdev C}
    (h : s.enabledDev name = some (i, n)) :
    s.netdevs[i]? = some n := by
  obtain ⟨i', -, h⟩ := Option.bind_eq_some_iff.mp h
  obtain ⟨n', hn', h⟩ := Option.bind_eq_some_iff.mp h
  split_ifs at h
  obtain ⟨rfl, rfl⟩ := Prod.mk.inj (Option.some.inj h)
  exact hn'

/-- A handler that refuses has changed nothing. -/
theorem Handled.unchanged {h : Handler} {val : List Char} {r : ℤ × Sysfs C}
    (hr : Handled plat p h.missing s r (h.read plat val)) (hret : r.1 ≠ 0) :
    r.2.netdevs = s.netdevs := by
  cases hread : h.read plat val with
  | none =>
    rw [hread] at hr
    exact hr.2
  | some request =>
    obtain ⟨name, op⟩ := request
    rw [hread] at hr
    cases hdev : s.enabledDev name with
    | none => exact (hr.of_missing hdev).2
    | some found =>
      obtain ⟨i, n⟩ := found
      obtain ⟨ret, dev, hrun, hzero, hset⟩ := hr.of_enabled hdev
      have hsame := (Dev.exec_answers (Handler.read_answerable hread) hrun).refused
        (hzero.not.mp hret)
      obtain ⟨hi, hn⟩ := List.getElem?_eq_some_iff.mp (enabledDev_getElem? hdev)
      rw [hset, show dev = n.dev from hsame]
      show s.netdevs.set i n = s.netdevs
      rw [← hn, List.set_getElem_self]

/-- A device is found again after another one has been written, and reads what was written to it. -/
theorem getElem?_set_of_enabledDev {name : List Char} {i j : ℕ} {n m : Netdev C}
    (h : s.enabledDev name = some (i, n)) :
    (s.netdevs.set j m)[i]? = some (if j = i then m else n) := by
  have hi := enabledDev_getElem? h
  rw [List.getElem?_set]
  split_ifs with hj hlt
  · rfl
  · subst hj
    rw [List.getElem?_eq_none (by omega)] at hi
    exact nomatch hi
  · exact hi

/-- A true `0` means that the device was there, and took what was written. -/
theorem Handled.sound {h : Handler} {val : List Char} {r : ℤ × Sysfs C}
    (hr : Handled plat p h.missing s r (h.read plat val)) (htrue : Truthful plat p h val s r) :
    Sound plat p h val s := by
  constructor
  · -- `assoc_txc_vq` returns `0` for a device that is missing
    rintro name op hread hdev rfl
    rw [hread] at hr
    obtain ⟨name', op', i, n, n', hrequest, hdev', -⟩ :=
      htrue.fulfilled ((hr.of_missing hdev).1.mpr rfl)
    obtain ⟨-, hname⟩ := Handler.read_of_request hread hrequest
    obtain rfl := hname.resolve_left Handler.noConfusion
    rw [hdev] at hdev'
    exact nomatch hdev'
  · intro name op i n hread hdev haccepts
    rw [hread] at hr
    obtain ⟨ret, dev, hrun, hzero, hset⟩ := hr.of_enabled hdev
    have hanswers := Dev.exec_answers (Handler.read_answerable hread) hrun
    obtain rfl : ret = 0 := hanswers.accepts.mpr haccepts
    obtain ⟨name', op', i', m, n', hrequest, hdev', hn', hdone⟩ := htrue.fulfilled (hzero.mpr rfl)
    obtain ⟨hcut, hname⟩ := Handler.read_of_request hread hrequest
    rw [hset, getElem?_set_of_enabledDev hdev'] at hn'
    obtain rfl := Option.some.inj hn'
    by_cases hi : i = i'
    · -- the device that was meant: what is in effect is what was written
      subst hi
      obtain rfl : m = n :=
        Option.some.inj ((enabledDev_getElem? hdev').symm.trans (enabledDev_getElem? hdev))
      rw [if_pos rfl] at hdone
      subst hcut
      have hop := hanswers.cut_eq_of_done hdone
      rw [hop] at hanswers ⊢
      exact ⟨name', hrequest, Or.inl ⟨hdev', (hanswers.done rfl).mp hdone⟩⟩
    · -- another device: its name has been cut, and it is as it was
      rw [if_neg hi] at hdone
      have hrecompute : h = .recomputeDev := by
        refine hname.resolve_right ?_
        rintro rfl
        rw [hdev] at hdev'
        exact hi (congrArg Prod.fst (Option.some.inj hdev'))
      subst hrecompute
      obtain ⟨-, rfl⟩ := Handler.devOp_eq hread
      obtain ⟨values, -, hop'⟩ := Option.bind_eq_some_iff.mp hrequest
      obtain ⟨-, rfl⟩ := Handler.devOp_eq hop'
      exact ⟨name', hrequest, Or.inr ⟨i', m, Ne.symm hi, hdev', hdone⟩⟩

/-- A `0` is true if the device was there, and took what was written. -/
theorem Handled.fulfilled {h : Handler} {val : List Char} {r : ℤ × Sysfs C}
    (hr : Handled plat p h.missing s r (h.read plat val)) (hsound : Sound plat p h val s)
    (hret : r.1 = 0) :
    Fulfilled plat p h val s r.2 := by
  cases hread : h.read plat val with
  | none =>
    rw [hread] at hr
    exact absurd hret hr.1
  | some request =>
    obtain ⟨name, op⟩ := request
    rw [hread] at hr
    cases hdev : s.enabledDev name with
    | none =>
      have hne := hsound.found name op hread hdev
      have hmissing := (hr.of_missing hdev).1.mp hret
      cases h with
      | assocTxcVq => exact absurd rfl hne
      | _ => exact absurd hmissing (by decide)
    | some found =>
      obtain ⟨i, n⟩ := found
      obtain ⟨ret, dev, hrun, hzero, hset⟩ := hr.of_enabled hdev
      have hanswers := Dev.exec_answers (Handler.read_answerable hread) hrun
      obtain rfl : ret = 0 := hzero.mp hret
      obtain ⟨name', hrequest, hmeant⟩ :=
        hsound.accepted name op i n hread hdev (hanswers.accepts.mp rfl)
      rcases hmeant with ⟨hdev', hintact⟩ | ⟨i', n', hi, hdev', hdone⟩
      · refine ⟨name', op, i, n, { n with dev := dev }, hrequest, hdev', ?_,
          (hanswers.done rfl).mpr hintact⟩
        rw [hset, getElem?_set_of_enabledDev hdev', if_pos rfl]
      · refine ⟨name', op, i', n', n', hrequest, hdev', ?_, hdone⟩
        rw [hset, getElem?_set_of_enabledDev hdev', if_neg hi.symm]

/-- **A return value tells the truth.**  When a handler returns, the value is right exactly if the
device is there (or the handler is not `assoc_txc_vq`), and what the device takes is what was
written, for objects that are on both indexes. -/
theorem exec_truthful_iff (plat : Platform) (p : Params) (h : Handler)
    (val : List Char) (s : Sysfs C) {r : ℤ × Sysfs C}
    (hexec : s.exec plat p (h.write val) = .ok r) :
    Truthful plat p h val s r ↔ Sound plat p h val s := by
  have hhandled := exec_handled hexec
  constructor
  · exact hhandled.sound
  · exact fun hsound => ⟨hhandled.fulfilled hsound, hhandled.unchanged⟩

/-- A device with one class, `11.0.1.1`. -/
def oneTxc : Sysfs Unit :=
  ⟨false, [⟨"eth0".toList, true, endOr (Dev.init {} 0 0)
    (Dev.runFrom Unit .x86 {} 0 0 [.createTxc 0 .fresh [] (Platform.x86.ntohl 0x0b000101)])⟩]⟩

/-- The weight of the class is set, and `0` is returned. -/
theorem exec_truthful_weight :
    ∃ r, oneTxc.exec .x86 {} (Handler.setTxcWeight.write "dev eth0 11.0.1.1 weight 512".toList) =
      .ok r ∧ r.1 = 0 ∧
      Truthful .x86 {} .setTxcWeight "dev eth0 11.0.1.1 weight 512".toList oneTxc r := by
  have hexec := eq_ok_endOr (0, oneTxc) (x := oneTxc.exec .x86 {}
    (Handler.setTxcWeight.write "dev eth0 11.0.1.1 weight 512".toList)) (by decide +kernel)
  refine ⟨_, hexec, by decide +kernel,
    (exec_truthful_iff .x86 {} .setTxcWeight _ oneTxc hexec).mpr ?_⟩
  have hread : Handler.setTxcWeight.read .x86 "dev eth0 11.0.1.1 weight 512".toList
      = some ("eth0".toList, .setTxcWeight (Platform.x86.ntohl 0x0b000101) 512) := by decide +kernel
  refine ⟨fun _ _ _ _ => Handler.noConfusion, fun name op i n hread' hdev _ => ?_⟩
  obtain ⟨rfl, rfl⟩ := Prod.mk.inj (Option.some.inj (hread.symm.trans hread'))
  have hi : n = oneTxc.netdevs[0] := (congrArg Prod.snd (Option.some.inj hdev)).symm
  refine ⟨"eth0".toList, by decide +kernel, Or.inl ⟨hdev, 0, ?_⟩⟩
  rw [hi]
  exact ⟨by decide +kernel, by decide +kernel⟩

/-- `assoc_txc_vq` for a device that does not exist returns `0`. -/
theorem exec_not_truthful_missing :
    ∃ r, oneTxc.exec .x86 {}
        (Handler.assocTxcVq.write "dev eth9 associate txc 11.0.1.1 vq 11.0.1.1".toList) = .ok r ∧
      r.1 = 0 ∧ ¬ Truthful .x86 {} .assocTxcVq
        "dev eth9 associate txc 11.0.1.1 vq 11.0.1.1".toList oneTxc r := by
  have hexec := eq_ok_endOr (0, oneTxc) (x := oneTxc.exec .x86 {}
    (Handler.assocTxcVq.write "dev eth9 associate txc 11.0.1.1 vq 11.0.1.1".toList))
    (by decide +kernel)
  refine ⟨_, hexec, by decide +kernel, fun htrue => ?_⟩
  obtain ⟨name, op, i, n, n', hrequest, hdev, -⟩ := htrue.fulfilled (by decide +kernel)
  have hname : (Handler.assocTxcVq.request .x86
      "dev eth9 associate txc 11.0.1.1 vq 11.0.1.1".toList).map Prod.fst
      = some "eth9".toList := by decide +kernel
  rw [hrequest] at hname
  obtain rfl : name = "eth9".toList := Option.some.inj hname
  have hnone : (oneTxc.enabledDev "eth9".toList).isNone := by decide +kernel
  rw [hdev] at hnone
  exact nomatch hnone

end EyeQ.Sysfs
