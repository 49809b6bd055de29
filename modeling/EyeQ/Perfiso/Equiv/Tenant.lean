import EyeQ.Perfiso.Equiv.Config
import EyeQ.Perfiso.Tenant
import EyeQ.Sysfs.Equiv.Mutex

/-!
# The rate of a tenant

`iso_sys_set_txc_rate` refuses rates above `1024`, though its message names `ISO_MAX_TX_RATE`;
`iso_sys_set_vq_rate` takes all rates up to `ISO_VQ_DRAIN_RATE_MBPS`.  So the rates that a tenant
can have are those up to `1024`.  For a higher one `pi.py` dies at the third of its four commands,
when it has set both weights and no rate (`tenant_dies`); `tenant_rates_iff` says when everything is
as it should be.

The four commands that set a number are `Setter`s.  A call of one does with the device what the
device does with its command (`call_eq`), so a change of a tenant is a run of the device
(`calls_iff`).
-/

namespace EyeQ

open Machine

variable {C : Type} {plat : Platform} {p : Params}

/-! ### The commands -/

theorem RxContext.SameIndex.isoVqFind_eq {ctx ctx' : RxContext C}
    (h : SameIndex ctx ctx') (plat : Platform) (klass : UInt32) : isoVqFind plat ctx' klass =
    isoVqFind plat ctx klass := by
  simp only [isoVqFind, h.vqBucket, h.klass]

namespace Dev

variable {d d' : Dev C} {klass : UInt32} {k v : ℕ}

/-- A walk along `txc_list` ends, if the weights add up to `total`. -/
def Walks (d : Dev C) (total : ℤ) : Prop := d.txcLoop = false ∨ total = 0

instance (d : Dev C) (total : ℤ) : Decidable (d.Walks total) := inferInstanceAs (Decidable (_ ∨ _))

theorem attempt_eq_some_iff {op : Op} : d.attempt plat p op = some d' ↔
    d.exec plat p op = .ok (0, d') := by
  unfold attempt
  cases d.exec plat p op with
  | error e => simp
  | ok r =>
    obtain ⟨ret, d₁⟩ := r
    dsimp only
    split_ifs with hret
    · simp [hret]
    · simp [hret]

theorem walked_eq_zero_iff {ret : ℤ} {tx : TxContext C} :
    d.walked ret tx = .ok (0, d') ↔
    ret = 0 ∧ d.Walks tx.txcTotalWeight ∧ d' = { d with tx := tx } := by
  unfold walked Walks
  split_ifs with hloop
  · obtain ⟨-, hloop, htotal⟩ := hloop
    simp [hloop, htotal]
  · rw [Except.ok.injEq, Prod.mk.injEq, eq_comm (b := d')]
    refine and_congr_right fun hret => ?_
    have hwalks : d.txcLoop = false ∨ tx.txcTotalWeight = 0 := by
      by_contra hnot
      rw [not_or, Bool.not_eq_false] at hnot
      exact hloop ⟨hret, hnot.1, hnot.2⟩
    simp [hwalks]

/-- A handler that refuses what is out of range, and then computes the rates. -/
theorem walked_of_range {refused : Prop} [Decidable refused] {ret total : ℤ} {tx : TxContext C}
    (hret : ret = if refused then -einval else 0) (htotal : ¬ refused → tx.txcTotalWeight = total) :
    d.walked ret tx = .ok (0, d') ↔ ¬ refused ∧ d.Walks total ∧ d' = { d with tx := tx } := by
  rw [walked_eq_zero_iff, hret]
  split_ifs with hrefused
  · exact iff_of_false (fun h => absurd h.1 (show -einval ≠ 0 by decide)) fun h => h.1 hrefused
  · rw [htotal hrefused]
    exact and_congr_left fun _ => iff_of_true rfl hrefused

/-- The sum of the weights after `weight` has been set for the class at `k`. -/
def totalAfter (d : Dev C) (k : ℕ) (weight : ℤ) : ℤ :=
  s32 (s32 (d.tx.txcTotalWeight - (d.tx.txcs k).weight) + weight)

theorem isoSysSetTxcWeight_total (hk : d.tx.isoTxcFind plat klass = some k) {weight : ℤ}
    (hrange : ¬ (weight < 0 ∨ weight > 1024)) :
    (d.tx.isoSysSetTxcWeight plat p klass weight).2.txcTotalWeight = d.totalAfter k weight := by
  rw [TxContext.isoSysSetTxcWeight, hk]
  dsimp only
  rw [if_neg hrange, TxContext.isoTxcRecomputeRates_total]
  rfl

theorem attempt_setTxcWeight_iff (hk : d.tx.isoTxcFind plat klass = some k) {weight : ℤ} :
    d.attempt plat p (.setTxcWeight klass weight) = some d' ↔
      (0 ≤ weight ∧ weight ≤ 1024) ∧ d.Walks (d.totalAfter k weight) ∧
        d' = { d with tx := (d.tx.isoSysSetTxcWeight plat p klass weight).2 } := by
  have hret : (d.tx.isoSysSetTxcWeight plat p klass weight).1 =
      if weight < 0 ∨ weight > 1024 then -einval else 0 := by
    rw [TxContext.isoSysSetTxcWeight, hk]
    exact apply_ite Prod.fst ..
  have hrange : (0 ≤ weight ∧ weight ≤ 1024) ↔ ¬ (weight < 0 ∨ weight > 1024) := by omega
  rw [attempt_eq_some_iff, hrange]
  exact walked_of_range hret (isoSysSetTxcWeight_total hk)

theorem attempt_setTxcRate_iff (hk : d.tx.isoTxcFind plat klass = some k) {rate : ℤ} :
    d.attempt plat p (.setTxcRate klass rate) = some d' ↔
      (0 ≤ rate ∧ rate ≤ 1024) ∧ d.Walks d.tx.txcTotalWeight ∧
        d' = { d with tx := (d.tx.isoSysSetTxcRate plat p klass rate).2 } := by
  have hret : (d.tx.isoSysSetTxcRate plat p klass rate).1 = if rate < 0 ∨ rate > 1024 then
      -einval else 0 := by
    rw [TxContext.isoSysSetTxcRate, hk]
    exact apply_ite Prod.fst ..
  have htotal : ¬ (rate < 0 ∨ rate > 1024) →
      (d.tx.isoSysSetTxcRate plat p klass rate).2.txcTotalWeight = d.tx.txcTotalWeight := by
    intro hrange
    rw [TxContext.isoSysSetTxcRate, hk]
    dsimp only
    rw [if_neg hrange, TxContext.isoTxcRecomputeRates_total]
    rfl
  have hrange : (0 ≤ rate ∧ rate ≤ 1024) ↔ ¬ (rate < 0 ∨ rate > 1024) := by omega
  rw [attempt_eq_some_iff, hrange]
  exact walked_of_range hret htotal

/-- The cap of the class that is named. -/
theorem isoSysSetTxcRate_cap (hk : d.tx.isoTxcFind plat klass = some k) {rate : ℤ}
    (hrange : 0 < rate ∧ rate ≤ 1024) :
    ((d.tx.isoSysSetTxcRate plat p klass rate).2.txcs k).isStatic = true ∧
      (((d.tx.isoSysSetTxcRate plat p klass rate).2.txcs k).maxRate : ℤ) = rate := by
  rw [TxContext.isoSysSetTxcRate, hk]
  dsimp only
  rw [if_neg (by omega), TxContext.isoTxcRecomputeRates_field TxClass.isStatic fun _ _ => rfl,
    TxContext.isoTxcRecomputeRates_field TxClass.maxRate fun _ _ => rfl]
  simp only [TxContext.modifyTxc, Function.update_self, TxClass.setCap,
    if_neg (show rate ≠ 0 by omega), true_and]
  omega

theorem onVq_of_find (hv : d.rx.isoVqFind plat klass = some v)
    (f : RxContext C → Except Fault (ℤ × RxContext C)) :
    d.onVq plat klass f = (lift (f d.rx)).map fun r => (r.1, { d with rx := r.2 }) := by
  have hfind : d.isoVqFind plat klass = .ok (some v) := by rw [isoVqFind, hv]
  rw [onVq, hfind]
  show (lift (f d.rx)).bind _ = _
  cases lift (f d.rx) <;> rfl

theorem attempt_setVqWeight_iff (hv : d.rx.isoVqFind plat klass = some v) {weight : ℤ} :
    (∃ d', d.attempt plat p (.setVqWeight klass weight) = some d') ↔
    0 ≤ weight ∧ weight ≤ 1024 := by
  simp only [attempt_eq_some_iff]
  constructor
  · rintro ⟨d', h⟩
    exact ((setVqWeight_answers h).accepts.mp rfl).2
  · intro hrange
    obtain ⟨rx, hrx, -⟩ := RxContext.isoVqCalculateRates_eq p
      (d.rx.modifyVq v fun vq => { vq with weight := u64OfInt weight })
    refine ⟨{ d with rx := rx }, ?_⟩
    rw [exec, onVq_of_find hv, RxContext.isoSysSetVqWeight, hv]
    dsimp only
    rw [if_neg (by omega), hrx]
    rfl

theorem attempt_setVqRate_iff (hv : d.rx.isoVqFind plat klass = some v) {rate : ℤ} :
    (∃ d', d.attempt plat p (.setVqRate klass rate) = some d') ↔
    0 ≤ rate ∧ rate ≤ p.isoVqDrainRateMbps := by
  simp only [attempt_eq_some_iff, exec, onVq_of_find hv, RxContext.isoSysSetVqRate, hv]
  split_ifs with hrange hpos
  · refine iff_of_false ?_ (by omega)
    rintro ⟨d', h⟩
    exact absurd (congrArg Prod.fst (Except.ok.inj h)) (show -einval ≠ 0 by decide)
  · exact iff_of_true ⟨_, rfl⟩ (by omega)
  · obtain ⟨rx, hrx, -⟩ := RxContext.isoVqCalculateRates_eq p
      (d.rx.modifyVq v fun vq => { vq with isStatic := false })
    rw [hrx]
    exact iff_of_true ⟨_, rfl⟩ (by omega)

/-- The tenant of a class has its cap on both sides. -/
structure BothCapped (d : Dev C) (k v : ℕ) (rate : ℤ) : Prop where
  txcStatic : (d.tx.txcs k).isStatic = true
  txcRate : ((d.tx.txcs k).maxRate : ℤ) = rate
  vqStatic : (d.rx.vqs v).isStatic = true
  vqRate : ((d.rx.vqs v).rate : ℤ) = rate

theorem setVqWeight_frame {weight : ℤ}
    (h : d.attempt plat p (.setVqWeight klass weight) = some d') :
    ∃ rx, d' = { d with rx := rx } ∧ RxContext.SameIndex d.rx rx := by
  obtain ⟨rx, hrx, hd'⟩ := onVq_eq_ok (attempt_eq_some_iff.mp h)
  have hsame := (RxContext.isoSysSetVqWeight_reconfigured klass weight).of_eq_ok hrx
  exact ⟨rx, hd', hsame.sameVqs.toSameIndex⟩

theorem setVqRate_cap (hv : d.rx.isoVqFind plat klass = some v) {rate : ℤ} (hpos : 0 < rate)
    (hfits : rate < 2 ^ 31) (h : d.attempt plat p (.setVqRate klass rate) = some d') :
    d'.tx = d.tx ∧ (d'.rx.vqs v).isStatic = true ∧ ((d'.rx.vqs v).rate : ℤ) = rate := by
  obtain ⟨rx, hrx, hd'⟩ := onVq_eq_ok (attempt_eq_some_iff.mp h)
  rw [RxContext.isoSysSetVqRate, hv] at hrx
  dsimp only at hrx
  split_ifs at hrx with hrange
  · exact absurd (congrArg Prod.fst (Except.ok.inj hrx)) (show -einval ≠ 0 by decide)
  · obtain ⟨-, rfl⟩ := Prod.mk.inj (Except.ok.inj hrx)
    rw [show d' = _ from hd']
    refine ⟨rfl, ?_⟩
    simp only [RxContext.modifyVq, Function.update_self, true_and, u64OfInt]
    omega

/-! ### A change -/

/-- The commands for a change of the tenant of a class. -/
def change (klass : UInt32) (weight rate : ℤ) : List Op :=
  [.setTxcWeight klass weight, .setVqWeight klass weight, .setTxcRate klass rate,
    .setVqRate klass rate]

/-- Commands that all have to return `0`. -/
def attemptAll (plat : Platform) (p : Params) (ops : List Op) (d : Dev C) : Option (Dev C) :=
  ops.foldlM (fun d op => d.attempt plat p op) d

theorem attemptAll_change {weight rate : ℤ} :
    d.attemptAll plat p (change klass weight rate) = some d' ↔
    ∃ d₁ d₂ d₃, d.attempt plat p (.setTxcWeight klass weight) = some d₁ ∧
      d₁.attempt plat p (.setVqWeight klass weight) = some d₂ ∧
      d₂.attempt plat p (.setTxcRate klass rate) = some d₃ ∧
      d₃.attempt plat p (.setVqRate klass rate) = some d' := by
  simp only [attemptAll, change, List.foldlM_cons, List.foldlM_nil, Option.bind_eq_bind,
    Option.bind_eq_some_iff, Option.pure_def, Option.some.injEq, exists_eq_right]
  constructor
  · rintro ⟨d₁, h₁, d₂, h₂, d₃, h₃, h₄⟩
    exact ⟨d₁, d₂, d₃, h₁, h₂, h₃, h₄⟩
  · rintro ⟨d₁, d₂, d₃, h₁, h₂, h₃, h₄⟩
    exact ⟨d₁, h₁, d₂, h₂, d₃, h₃, h₄⟩

/-- The weight that was set is in the sum, and nothing else has moved that a rate depends on. -/
theorem setTxcWeight_frame (hk : d.tx.isoTxcFind plat klass = some k) {weight : ℤ}
    (h : d.attempt plat p (.setTxcWeight klass weight) = some d') :
    d'.rx = d.rx ∧ d'.txcLoop = d.txcLoop ∧ d'.tx.isoTxcFind plat klass = some k ∧
      d'.tx.txcTotalWeight = d.totalAfter k weight := by
  obtain ⟨hrange, -, rfl⟩ := (attempt_setTxcWeight_iff hk).mp h
  refine ⟨rfl, rfl, ?_, ?_⟩
  · have hsame : TxContext.Reconfigured d.tx (d.tx.isoSysSetTxcWeight plat p klass weight).2 :=
      TxContext.isoSysSetTxcWeight_reconfigured klass weight
    exact (hsame.sameIndex.isoTxcFind_eq plat klass).trans hk
  · exact isoSysSetTxcWeight_total hk (by omega)

theorem change_iff (hk : d.tx.isoTxcFind plat klass = some k)
    (hv : d.rx.isoVqFind plat klass = some v) {weight rate : ℤ} (hpos : 0 < rate)
    (hdrain : rate ≤ p.isoVqDrainRateMbps) (hfits : rate < 2 ^ 31) :
    (∃ d', d.attemptAll plat p (change klass weight rate) = some d' ∧ d'.BothCapped k v rate) ↔
      (0 ≤ weight ∧ weight ≤ 1024) ∧ rate ≤ 1024 ∧ d.Walks (d.totalAfter k weight) := by
  simp only [attemptAll_change]
  constructor
  · rintro ⟨d', ⟨d₁, d₂, d₃, h₁, h₂, h₃, -⟩, -⟩
    obtain ⟨-, -, hk₁, -⟩ := setTxcWeight_frame hk h₁
    obtain ⟨rx, rfl, -⟩ := setVqWeight_frame h₂
    obtain ⟨hrange, hwalks, -⟩ := (attempt_setTxcWeight_iff hk).mp h₁
    exact ⟨hrange, ((attempt_setTxcRate_iff (d := { d₁ with rx := rx }) hk₁).mp h₃).1.2, hwalks⟩
  · rintro ⟨hrange, hsmall, hwalks⟩
    have h₁ := (attempt_setTxcWeight_iff (p := p) hk).mpr ⟨hrange, hwalks, rfl⟩
    obtain ⟨hrx, hloop, hk₁, htotal⟩ := setTxcWeight_frame hk h₁
    generalize ({ d with tx := (d.tx.isoSysSetTxcWeight plat p klass weight).2 } : Dev C) = d₁
      at h₁ hrx hloop hk₁ htotal
    have hv₁ : d₁.rx.isoVqFind plat klass = some v := by rw [hrx, hv]
    obtain ⟨d₂, h₂⟩ := (attempt_setVqWeight_iff (p := p) hv₁).mpr hrange
    obtain ⟨rx, rfl, hsame⟩ := setVqWeight_frame h₂
    -- the sum of the weights is what it was when the first walk ended
    have hwalks₂ : d₁.Walks d₁.tx.txcTotalWeight := by
      rw [Walks, hloop, htotal]
      exact hwalks
    have h₃ := (attempt_setTxcRate_iff (d := { d₁ with rx := rx }) (p := p) hk₁).mpr
      ⟨⟨hpos.le, hsmall⟩, hwalks₂, rfl⟩
    have hv₃ : rx.isoVqFind plat klass = some v := (hsame.isoVqFind_eq plat klass).trans hv₁
    obtain ⟨d₄, h₄⟩ := (attempt_setVqRate_iff (d := { d₁ with
      rx := rx
      tx := (d₁.tx.isoSysSetTxcRate plat p klass rate).2 }) (p := p) hv₃).mpr ⟨hpos.le, hdrain⟩
    refine ⟨d₄, ⟨d₁, _, _, h₁, h₂, h₃, h₄⟩, ?_⟩
    obtain ⟨htx, hvqStatic, hvqRate⟩ := setVqRate_cap hv₃ hpos hfits h₄
    obtain ⟨htxcStatic, htxcRate⟩ := isoSysSetTxcRate_cap (p := p) hk₁ ⟨hpos, hsmall⟩
    refine ⟨?_, ?_, hvqStatic, hvqRate⟩
    · rw [htx]
      exact htxcStatic
    · rw [htx]
      exact htxcRate

end Dev

/-! ### The program -/

namespace Perfiso

open Text Stats Scanf Sysfs

/-- The commands of `pi.py` that set a number. -/
inductive Setter where
  | txcWeight
  | vqWeight
  | txcRate
  | vqRate

namespace Setter

def op : Setter → UInt32 → ℤ → Dev.Op
  | .txcWeight => .setTxcWeight
  | .vqWeight => .setVqWeight
  | .txcRate => .setTxcRate
  | .vqRate => .setVqRate

def word : Setter → List Char
  | .txcWeight | .vqWeight => "weight".toList
  | .txcRate | .vqRate => "rate".toList

def file : Setter → List Char
  | .txcWeight => "/set_txc_weight".toList
  | .vqWeight => "/set_vq_weight".toList
  | .txcRate => "/set_txc_rate".toList
  | .vqRate => "/set_vq_rate".toList

def write (val : List Char) : Setter → Sysfs.Write
  | .txcWeight => .setTxcWeight val
  | .vqWeight => .setVqWeight val
  | .txcRate => .setTxcRate val
  | .vqRate => .setVqRate val

/-- The method of `perfiso.py`. -/
def call (sh : Shell C) : Setter → List Char → List Char → List Char → Tool C → Option (Tool C)
  | .txcWeight => Tool.txcSetWeight sh
  | .vqWeight => Tool.vqSetWeight sh
  | .txcRate => Tool.txcSetRate sh
  | .vqRate => Tool.vqSetRate sh

theorem lookup_file (env : Env) (val : List Char) (set : Setter) :
    (sysfsFiles env val).lookup (isoSysfs ++ set.file) = some (set.write val) := by
  cases set <;> rfl

theorem literal_word (set : Setter) : Literal set.word := by
  cases set <;> exact of_decide_eq_true rfl

end Setter

variable {tunables : Sysctl → Params} {sh : Shell C} {tool : Tool C} {name : List Char}
  {i : ℕ} {n : Netdev C} {klass : UInt32}

/-- The command line of a call. -/
theorem call_line (set : Setter) (text : List Char) :
    set.call sh name (isoClassShow plat klass) text tool =
    tool.cmd sh ("echo ".toList ++ line ["dev".toList, name, isoClassShow plat klass, set.word,
      text] ++ " > ".toList ++
      (isoSysfs ++ set.file)) := by
  have hline : ∀ word file : List Char,
      "echo dev ".toList ++ name ++ " ".toList ++ isoClassShow plat klass ++
      ([' '] ++ word ++ [' ']) ++ text ++
        " > ".toList ++ isoSysfs ++ file =
      "echo ".toList ++ line ["dev".toList, name, isoClassShow plat klass, word,
        text] ++ " > ".toList ++
        (isoSysfs ++ file) := by
    intro word file
    rw [List.append_assoc _ isoSysfs, numberLine_eq]
  have hweight : " weight ".toList = [' '] ++ "weight".toList ++ [' '] := rfl
  have hrate : " rate ".toList = [' '] ++ "rate".toList ++ [' '] := rfl
  cases set with
  | txcWeight =>
    rw [Setter.call, Tool.txcSetWeight, hweight, hline]
    rfl
  | vqWeight =>
    rw [Setter.call, Tool.vqSetWeight, hweight, hline]
    rfl
  | txcRate =>
    rw [Setter.call, Tool.txcSetRate, hrate, hline]
    rfl
  | vqRate =>
    rw [Setter.call, Tool.vqSetRate, hrate, hline]
    rfl

/-- The program after a call that has changed the device `n`. -/
def withDev (tool : Tool C) (i : ℕ) (n : Netdev C) (dev : Dev C) : Tool C :=
  { tool with world :=
    { tool.world with
      sysfs := setDev tool.world.sysfs i n dev, env := fun j => tool.world.env (j + 1) } }

theorem cmd_setter (hsh : Echoes plat tunables sh) (hname : Literal name) (set : Setter) (z : ℤ) :
    set.call sh name (isoClassShow plat klass) (decInt z) tool =
      (tool.world.sysfs.attempt plat (tunables tool.world.sysctl)
        (set.write (line ["dev".toList, name, isoClassShow plat klass, set.word, decInt z] ++
          ['\n']))).map fun s =>
          { tool with world := { tool.world with
            sysfs := s, env := fun j => tool.world.env (j + 1) } } := by
  have hwords : ∀ x ∈ [name, isoClassShow plat klass, set.word, decInt z], Literal x := by
    simp only [List.forall_mem_cons, hname, literal_isoClassShow, set.literal_word,
      literal_decInt, List.not_mem_nil, true_and, false_imp_iff, implies_true]
  rw [call_line, Tool.cmd, hsh.echo _ _ _ hwords (mem_sysfsFiles (set.lookup_file _ _)),
    World.write, set.lookup_file, Option.bind_eq_bind, Option.bind_some]
  cases tool.world.sysfs.attempt plat (tunables tool.world.sysctl) (set.write _) <;> rfl

/-- A call does with the device what the device does with the command. -/
theorem call_eq (hntohl : Function.Involutive plat.ntohl) (hsh : Echoes plat tunables sh)
    (hname : Literal name) (hlen : name.length ≤ 15) (hmutex : tool.world.sysfs.configMutex = false)
    (hdev : tool.world.sysfs.enabledDev name = some (i, n)) (set : Setter) (z : ℤ) :
    set.call sh name (isoClassShow plat klass) (decInt z) tool =
      (n.dev.attempt plat (tunables tool.world.sysctl) (set.op klass (s32 z))).map
        (withDev tool i n) := by
  have hexec : tool.world.sysfs.attempt plat (tunables tool.world.sysctl)
      (set.write (line ["dev".toList, name, isoClassShow plat klass, set.word,
        decInt z] ++ ['\n'])) =
      (n.dev.attempt plat (tunables tool.world.sysctl) (set.op klass (s32 z))).map
        (setDev tool.world.sysfs i n) := by
    refine attempt_of_exec (fun _ => Iff.rfl) ?_
    cases set with
    | txcWeight =>
      exact setNumber_line hntohl hname hlen hmutex hdev "dev %s %s weight %d" rfl
        (by decide) .setTxcWeight klass z
    | vqWeight =>
      exact setNumber_line hntohl hname hlen hmutex hdev "dev %s %s weight %d" rfl
        (by decide) .setVqWeight klass z
    | txcRate =>
      exact setNumber_line hntohl hname hlen hmutex hdev "dev %s %s rate %d" rfl
        (by decide) .setTxcRate klass z
    | vqRate =>
      exact setNumber_line hntohl hname hlen hmutex hdev "dev %s %s rate %d" rfl
        (by decide) .setVqRate klass z
  rw [cmd_setter hsh hname, hexec, Option.map_map]
  rfl

/-- While the mutex is taken, no call succeeds. -/
theorem call_blocked (hsh : Echoes plat tunables sh) (hname : Literal name)
    (hmutex : tool.world.sysfs.configMutex = true) (set : Setter) (z : ℤ) :
    set.call sh name (isoClassShow plat klass) (decInt z) tool = none := by
  rw [cmd_setter hsh hname, Option.map_eq_none_iff]
  unfold Sysfs.attempt
  obtain ⟨e, he⟩ := @Sysfs.exec_fails C plat (tunables tool.world.sysctl) tool.world.sysfs hmutex
    (set.write (line ["dev".toList, name, isoClassShow plat klass, set.word, decInt z] ++ ['\n']))
  rw [he]

/-- A device is found where it was. -/
theorem enabledDev_setDev {s : Sysfs C} (h : s.enabledDev name = some (i, n)) (dev : Dev C) :
    (setDev s i n dev).enabledDev name = some (i, { n with dev := dev }) := by
  obtain ⟨j, hfind, h⟩ := Option.bind_eq_some_iff.mp h
  obtain ⟨n', hn, h⟩ := Option.bind_eq_some_iff.mp h
  split_ifs at h with henabled
  obtain ⟨rfl, rfl⟩ := Prod.mk.inj (Option.some.inj h)
  have hsearch : ∀ s : Sysfs C, s.isoSearchNetdev name =
      (devices s).findIdx? fun x => x.take ifnamsiz = name.take ifnamsiz := by
    intro s
    rw [devices, List.findIdx?_map]
    rfl
  have hsame : devices (setDev s j n' dev) = devices s := devices_set hn rfl
  have hget : (setDev s j n' dev).netdevs[j]? = some { n' with dev := dev } :=
    List.getElem?_set_self (List.getElem?_eq_some_iff.mp hn).1
  rw [enabledDev, hsearch, hsame, ← hsearch, hfind, Option.bind_some, hget, Option.bind_some]
  exact if_pos henabled

/-- Calls for one class of a device, one after the other. -/
def calls (plat : Platform) (sh : Shell C) (name : List Char) (klass : UInt32)
    (l : List (Setter × ℤ)) (tool : Tool C) :
    Except (Tool C) (Tool C) :=
  l.foldlM (fun tool c => tool.orDie (c.1.call sh name (isoClassShow plat klass) (decInt c.2))) tool

theorem orDie_eq_ok_iff {f : Tool C → Option (Tool C)} {tool' : Tool C} :
    tool.orDie f = .ok tool' ↔ f tool = some tool' := by
  unfold Tool.orDie
  cases f tool <;> simp

theorem calls_cons_iff {c : Setter × ℤ} {l : List (Setter × ℤ)} {tool' : Tool C} :
    calls plat sh name klass (c :: l) tool = .ok tool' ↔
      ∃ tool₁, c.1.call sh name (isoClassShow plat klass) (decInt c.2) tool = some tool₁ ∧
        calls plat sh name klass l tool₁ = .ok tool' := by
  unfold calls
  rw [List.foldlM_cons]
  constructor
  · intro h
    obtain ⟨tool₁, h₁, h⟩ := bind_eq_ok h
    exact ⟨tool₁, orDie_eq_ok_iff.mp h₁, h⟩
  · rintro ⟨tool₁, h₁, h⟩
    rw [orDie_eq_ok_iff.mpr h₁]
    exact h

/-- Calls that all succeed are a run of the device. -/
theorem calls_iff (hntohl : Function.Involutive plat.ntohl) (hsh : Echoes plat tunables sh)
    (hname : Literal name) (hlen : name.length ≤ 15) (P : Dev C → Prop) (l : List (Setter × ℤ))
    (hmutex : tool.world.sysfs.configMutex = false)
    (hdev : tool.world.sysfs.enabledDev name = some (i, n)) :
    (∃ tool', calls plat sh name klass l tool = .ok tool' ∧
      ∃ n', tool'.world.sysfs.enabledDev name = some (i, n') ∧ P n'.dev) ↔
    ∃ d', n.dev.attemptAll plat (tunables tool.world.sysctl)
      (l.map fun c => c.1.op klass (s32 c.2)) = some d' ∧
      P d' := by
  induction l generalizing tool n with
  | nil =>
    constructor
    · rintro ⟨tool', htool', n', hn', hP⟩
      obtain rfl := Except.ok.inj htool'
      obtain rfl := (Prod.mk.inj (Option.some.inj (hdev.symm.trans hn'))).2
      exact ⟨n.dev, rfl, hP⟩
    · rintro ⟨d', hd', hP⟩
      obtain rfl := Option.some.inj hd'
      exact ⟨tool, rfl, n, hdev, hP⟩
  | cons c l ih =>
    simp only [calls_cons_iff, call_eq hntohl hsh hname hlen hmutex hdev,
      Dev.attemptAll, List.map_cons, List.foldlM_cons, Option.bind_eq_bind]
    cases n.dev.attempt plat (tunables tool.world.sysctl) (c.1.op klass (s32 c.2)) with
    | none => simp
    | some dev =>
      have hmutex' : (withDev tool i n dev).world.sysfs.configMutex = false := hmutex
      have hdev' : (withDev tool i n dev).world.sysfs.enabledDev name =
          some (i, { n with dev := dev }) :=
        enabledDev_setDev hdev dev
      simp only [Option.map_some, Option.some.injEq, exists_eq_left', Option.bind_some]
      exact ih hmutex' hdev'

/-! ### The rates that are taken -/

/-- What `pi.py` is asked for when a tenant is changed. -/
def changeArgs (plat : Platform) (name : List Char) (klass : UInt32) (weight rate : ℤ) :
    TenantArgs where
  create := false
  tid := isoClassShow plat klass
  dev := name
  weight := decInt weight
  rate := some (decInt rate)

theorem tenant_eq {links : List Char} (hlinks : isNetdev name (links.splitOn '\n') = some true)
    (weight rate : ℤ) :
    tool.tenant sh links (changeArgs plat name klass weight rate) =
      calls plat sh name klass [(.txcWeight, weight), (.vqWeight, weight), (.txcRate, rate),
        (.vqRate, rate)] tool := by
  unfold Tool.tenant
  rw [show (changeArgs plat name klass weight rate).dev = name from rfl, if_pos hlinks]
  show (tool.orDie (Tool.txcSetWeight sh name (isoClassShow plat klass) (decInt weight)) >>= _) = _
  unfold calls
  simp only [List.foldlM_cons, List.foldlM_nil, bind_pure]
  rfl

/-- What `set_txc_rate` takes, what `set_vq_rate` takes, and what a tenant has whose rate is changed
to `rate`: its class is at `k` and its VQ at `v`. -/
structure SameRates (plat : Platform) (tunables : Sysctl → Params) (sh : Shell C)
    (links : List Char) (tool : Tool C) (i : ℕ) (n : Netdev C) (name : List Char) (klass : UInt32)
    (k v : ℕ) (weight rate : ℤ) : Prop where
  range : (∃ d', n.dev.attempt plat (tunables tool.world.sysctl)
    (.setTxcRate klass rate) = some d') ↔
    0 ≤ rate ∧ rate ≤ (tunables tool.world.sysctl).isoMaxTxRate
  covers : (∃ d', n.dev.attempt plat (tunables tool.world.sysctl)
    (.setVqRate klass rate) = some d') →
    ∃ d', n.dev.attempt plat (tunables tool.world.sysctl) (.setTxcRate klass rate) = some d'
  tenant : 0 < rate → rate ≤ (tunables tool.world.sysctl).isoVqDrainRateMbps →
    ∃ tool', tool.tenant sh links (changeArgs plat name klass weight rate) = .ok tool' ∧
      ∃ n', tool'.world.sysfs.enabledDev name = some (i, n') ∧ n'.dev.BothCapped k v rate

/-- A rate that `set_txc_rate` should take is at most `1024`, and one that it should refuse is not;
nothing else is in the way. -/
structure RateFits (p : Params) (mutex : Bool) (d : Dev C) (k : ℕ) (weight rate : ℤ) : Prop where
  within : 0 ≤ rate → rate ≤ p.isoMaxTxRate → rate ≤ 1024 ∧ d.Walks d.tx.txcTotalWeight
  beyond : p.isoMaxTxRate < rate → rate ≤ 1024 → ¬ d.Walks d.tx.txcTotalWeight
  tenant : 0 < rate → rate ≤ p.isoVqDrainRateMbps →
    mutex = false ∧ (0 ≤ s32 weight ∧ s32 weight ≤ 1024) ∧ d.Walks (d.totalAfter k (s32 weight))

/-- A change of a tenant succeeds exactly if the four commands do. -/
theorem tenant_iff (hntohl : Function.Involutive plat.ntohl) (hsh : Echoes plat tunables sh)
    (hname : Literal name) (hlen : name.length ≤ 15)
    (hdev : tool.world.sysfs.enabledDev name = some (i, n)) {links : List Char}
    (hlinks : isNetdev name (links.splitOn '\n') = some true) {k v : ℕ}
    (hk : n.dev.tx.isoTxcFind plat klass = some k) (hv : n.dev.rx.isoVqFind plat klass = some v)
    {rate : ℤ} (hpos : 0 < rate) (hdrain : rate ≤ (tunables tool.world.sysctl).isoVqDrainRateMbps)
    (hfits : rate < 2 ^ 31) (weight : ℤ) :
    (∃ tool', tool.tenant sh links (changeArgs plat name klass weight rate) = .ok tool' ∧
      ∃ n', tool'.world.sysfs.enabledDev name = some (i, n') ∧ n'.dev.BothCapped k v rate) ↔
    tool.world.sysfs.configMutex = false ∧ (0 ≤ s32 weight ∧ s32 weight ≤ 1024) ∧ rate ≤ 1024 ∧
      n.dev.Walks (n.dev.totalAfter k (s32 weight)) := by
  rw [tenant_eq hlinks]
  cases hmutex : tool.world.sysfs.configMutex with
  | true =>
    refine iff_of_false ?_ (fun h => nomatch h.1)
    rintro ⟨tool', hcalls, -⟩
    obtain ⟨tool₁, h₁, -⟩ := calls_cons_iff.mp hcalls
    rw [call_blocked hsh hname hmutex] at h₁
    exact nomatch h₁
  | false =>
    have hs32 : s32 rate = rate := s32_of_fits (by omega) hfits
    rw [calls_iff hntohl hsh hname hlen (fun d => d.BothCapped k v rate) _ hmutex hdev]
    have hchange : ([(.txcWeight, weight), (.vqWeight, weight), (.txcRate, rate), (.vqRate, rate)] :
        List (Setter × ℤ)).map (fun c => c.1.op klass (s32 c.2)) =
        Dev.change klass (s32 weight) (s32 rate) := rfl
    rw [hchange, hs32, Dev.change_iff hk hv hpos hdrain hfits]
    exact (and_iff_right rfl).symm

/-- Both sides of a tenant take the same rates exactly if the rate is not between the `1024` of
`set_txc_rate` and the `ISO_MAX_TX_RATE` of its message. -/
theorem tenant_rates_iff (hntohl : Function.Involutive plat.ntohl) (hsh : Echoes plat tunables sh)
    (hname : Literal name) (hlen : name.length ≤ 15)
    (hdev : tool.world.sysfs.enabledDev name = some (i, n)) {links : List Char}
    (hlinks : isNetdev name (links.splitOn '\n') = some true) {k v : ℕ}
    (hk : n.dev.tx.isoTxcFind plat klass = some k) (hv : n.dev.rx.isoVqFind plat klass = some v)
    (hle : (tunables tool.world.sysctl).isoVqDrainRateMbps ≤
      (tunables tool.world.sysctl).isoMaxTxRate) (hint : (tunables tool.world.sysctl).isoMaxTxRate <
      2 ^ 31) (weight rate : ℤ) :
    SameRates plat tunables sh links tool i n name klass k v weight rate ↔
      RateFits (tunables tool.world.sysctl) tool.world.sysfs.configMutex n.dev k weight rate := by
  have htxc : (∃ d', n.dev.attempt plat (tunables tool.world.sysctl)
      (.setTxcRate klass rate) = some d') ↔
      (0 ≤ rate ∧ rate ≤ 1024) ∧ n.dev.Walks n.dev.tx.txcTotalWeight := by
    simp only [Dev.attempt_setTxcRate_iff hk, exists_and_left, exists_eq, and_true]
  have htenant := fun hpos hdrain => tenant_iff hntohl hsh hname hlen hdev hlinks hk hv hpos hdrain
    (show rate < 2 ^ 31 by omega) weight
  constructor
  · rintro ⟨hrange, -, hchange⟩
    rw [htxc] at hrange
    refine ⟨fun hnonneg hmax => ?_, fun hmax hsmall hwalks => ?_, fun hpos hdrain => ?_⟩
    · obtain ⟨hsmall, hwalks⟩ := hrange.mpr ⟨hnonneg, hmax⟩
      exact ⟨hsmall.2, hwalks⟩
    · have hboth := hrange.mp ⟨⟨by omega, hsmall⟩, hwalks⟩
      omega
    · obtain ⟨hmutex, hweight, -, hwalks⟩ := (htenant hpos hdrain).mp (hchange hpos hdrain)
      exact ⟨hmutex, hweight, hwalks⟩
  · rintro ⟨hwithin, hbeyond, hchange⟩
    refine ⟨?_, ?_, fun hpos hdrain => ?_⟩
    · rw [htxc]
      constructor
      · rintro ⟨⟨hnonneg, hsmall⟩, hwalks⟩
        refine ⟨hnonneg, ?_⟩
        by_contra hmax
        exact hbeyond (by omega) hsmall hwalks
      · rintro ⟨hnonneg, hmax⟩
        obtain ⟨hsmall, hwalks⟩ := hwithin hnonneg hmax
        exact ⟨⟨hnonneg, hsmall⟩, hwalks⟩
    · rw [Dev.attempt_setVqRate_iff hv, htxc]
      rintro ⟨hnonneg, hdrain⟩
      obtain ⟨hsmall, hwalks⟩ := hwithin hnonneg (by omega)
      exact ⟨⟨hnonneg, hsmall⟩, hwalks⟩
    · obtain ⟨hmutex, hweight, hwalks⟩ := hchange hpos hdrain
      obtain ⟨hsmall, -⟩ := hwithin hpos.le (by omega)
      exact (htenant hpos hdrain).mpr ⟨hmutex, hweight, hsmall, hwalks⟩

/-! ### A tenant -/

/-- `pi.py`, when class 7 is a tenant on `eth0`. -/
def oneTool : Tool Unit := ⟨[], fun _ => [], fun _ => [], oneDev true pairOps⟩

/-- What `ip link show` prints. -/
def oneLinks : List Char := "1: lo: <LOOPBACK,UP>\n2: eth0: <BROADCAST,UP>\n    link/ether\n".toList

/-- The device. -/
def oneNetdev : Netdev Unit := ⟨"eth0".toList, true, devAfter pairOps⟩

/-- The tenant gets 500 Mbit/s. -/
theorem tenant_rates_fit :
    RateFits {} false oneNetdev.dev 0 3 500 ∧
      SameRates .x86 (fun _ => {}) (plainShell .x86 fun _ => {}) oneLinks oneTool 0 oneNetdev
        "eth0".toList 7 0 0 3
        500 := by
  have hfits : RateFits {} false oneNetdev.dev 0 3 500 :=
    ⟨fun _ _ => ⟨by decide, by decide +kernel⟩, fun h => absurd h (by decide),
      fun _ _ => ⟨rfl, by decide, by decide +kernel⟩⟩
  refine ⟨hfits, ?_⟩
  exact (@tenant_rates_iff Unit .x86 (fun _ => {}) (plainShell .x86 fun _ => {}) oneTool
    "eth0".toList 0 oneNetdev 7 bswap32_involutive
    (plainShell_documented .x86 (fun _ => {}) fun _ _ => oneCall).toEchoes (by decide)
    (by decide) rfl oneLinks (by decide +kernel)
    0 0 (by decide +kernel) (by decide +kernel) (by decide) (by decide) 3 500).mpr hfits

/-- The tenant should get 2000 Mbit/s; its VQ would take that, but `pi.py` dies when it has set both
weights and no rate. -/
theorem tenant_dies :
    (∃ left, oneTool.tenant (plainShell .x86 fun _ => {}) oneLinks
      (changeArgs .x86 "eth0".toList 7 3 2000) =
        .error left ∧ left.world.sysfs.netdevs.map
          (fun n => ((n.dev.tx.txcs 0).weight, (n.dev.rx.vqs 0).weight, (n.dev.tx.txcs 0).isStatic,
            (n.dev.rx.vqs 0).isStatic)) = [(3, 3, false, false)]) ∧
      ¬ SameRates .x86 (fun _ => {}) (plainShell .x86 fun _ => {}) oneLinks oneTool 0 oneNetdev
        "eth0".toList 7 0 0 3
        2000 := by
  constructor
  · have hdies : (match oneTool.tenant (plainShell .x86 fun _ => {}) oneLinks
        (changeArgs .x86 "eth0".toList 7 3 2000) with
        | .ok _ => false
        | .error left => decide (left.world.sysfs.netdevs.map (fun n => ((n.dev.tx.txcs 0).weight,
          (n.dev.rx.vqs 0).weight, (n.dev.tx.txcs 0).isStatic, (n.dev.rx.vqs 0).isStatic)) =
            [(3, 3, false, false)])) = true := by
      decide +kernel
    split at hdies
    · exact nomatch hdies
    · rename_i left heq
      exact ⟨left, heq, of_decide_eq_true hdies⟩
  · intro hsame
    have hnone : oneNetdev.dev.attempt .x86 {} (.setTxcRate 7 2000) = none := by
      have hisNone : (oneNetdev.dev.attempt .x86 {} (.setTxcRate 7 2000)).isNone = true := by
        decide +kernel
      exact Option.isNone_iff_eq_none.mp hisNone
    obtain ⟨d', hd'⟩ := hsame.range.mpr (by decide)
    exact absurd (hnone.symm.trans hd') nofun

end Perfiso

end EyeQ
