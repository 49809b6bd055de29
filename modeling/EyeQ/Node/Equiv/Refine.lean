import EyeQ.Node.Equiv.Route
import EyeQ.Qdisc.Equiv.Frame

/-!
# A device refines the limiters

`Qdisc.runFrom` is the machine that all results about the limiters are about.  It has a limiter for
every class and destination from the start, and a packet comes with its class and its destination.
On a device, classes and limiters come into being in the course of a run, and a packet finds its
limiter through hash tables.

`runFrom_refines`: the limiters of a device, its control blocks and its history are those of a run
of the abstract machine, for some times at which the limiters are set up.  So what holds of all runs
of that machine holds of every device.

An operation of the device is a sequence of small changes (`Small`): an operation of the abstract
machine, or some limiters that nothing has touched are set up, or a limiter gets the address of its
destination.  That a limiter is set up late makes no difference (`Rl.Transparent`).
-/

namespace EyeQ

open Machine Rl

theorem TxClass.Reconfigured.rls {C : Type} {txc txc' : TxClass C} (h : txc.Reconfigured txc') :
    txc'.rls = txc.rls := by
  obtain ⟨_, _, _, _, _, rfl⟩ := h
  rfl

/-- The time at which a command sets limiters up. -/
def TxContext.Op.time : TxContext.Op → ℕ
  | .createTxc now _ _ _ => now
  | _ => 0

/-! ### Small changes -/

namespace Node

variable {C : Type}

/-- The limiter exists. -/
def Live (ctx : TxContext C) : RlId ℕ ℕ → Prop
  | .txc k => k < ctx.brk
  | .dest k j => k < ctx.brk ∧ j < (ctx.txcs k).brk

theorem live_closed (ctx : TxContext C) : Closed {r | Live ctx r} := fun _ _ h => h.1

/-- Which limiters exist, and the state of the limiters. -/
abbrev Scene (C : Type) : Type := Set (RlId ℕ ℕ) × TxState ℕ ℕ C

def scene (ctx : TxContext C) (s : TxState ℕ ℕ C) : Scene C :=
  ({r | Live ctx r}, { s with rl := limiter ctx })

/-- The limiters with a time are set up at it. -/
def setUp (p : Params) (fresh : RlId ℕ ℕ → Option ℕ) (r : RlId ℕ ℕ) (l : Rl C) : Rl C :=
  match fresh r with
  | none => l
  | some now => Rl.init C p now

theorem setUp_of_none {p : Params} {fresh : RlId ℕ ℕ → Option ℕ} {r : RlId ℕ ℕ} (h : fresh r = none)
    (l : Rl C) : setUp p fresh r l = l := by
  rw [setUp, h]

theorem setUp_of_some {p : Params} {fresh : RlId ℕ ℕ → Option ℕ} {r : RlId ℕ ℕ} {now : ℕ}
    (h : fresh r = some now) (l : Rl C) : setUp p fresh r l = Rl.init C p now := by
  rw [setUp, h]

/-- The addresses are of no concern to a limiter. -/
def eraseIp (_ : RlId ℕ ℕ) (l : Rl C) : Rl C := { l with ip := 0 }

variable [DecidableEq C] [Fintype C]

/-- What changes of the configuration do to the limiters of a device, up to the time `T`. -/
inductive Small (p : Params) (kern : Kernel) (T : ℕ) : Scene C → Scene C → Prop
  | classRate {A : Set (RlId ℕ ℕ)} {s : TxState ℕ ℕ C} (k rate : ℕ) (hk : .txc k ∈ A) :
      Small p kern T (A, s) (A, Qdisc.step p kern s (.classRate k rate))
  | setUp {A B : Set (RlId ℕ ℕ)} {s : TxState ℕ ℕ C} (fresh : RlId ℕ ℕ → Option ℕ) (hAB : A ⊆ B)
      (hB : Closed B) (hold : ∀ r ∈ A, fresh r = none) (hnew : ∀ r ∈ B, r ∉ A →
        ∃ now ≤ T, fresh r = some now) :
      Small p kern T (A, s) (B, s.overlay (setUp p fresh))
  | address {A : Set (RlId ℕ ℕ)} {s : TxState ℕ ℕ C} (m : RlId ℕ ℕ → Rl C → Rl C)
      (hm : ∀ r, Transparent m r) : Small p kern T (A, s) (A, s.overlay m)

/-- The state is that of a run of the abstract machine that has been given `sent`, and that has used
limiters that exist. -/
def Refines (p : Params) (kern : Kernel) (sent : List (Qdisc.Sending ℕ ℕ C)) (x : Scene C) : Prop :=
  ∃ t ops, (∀ op ∈ ops, Qdisc.Op.Within x.1 op) ∧ ops.filterMap Qdisc.Op.sent = sent ∧
    x.2.overlay eraseIp = Qdisc.runFrom p kern t ops

variable {p : Params} {kern : Kernel} {T : ℕ} {sent : List (Qdisc.Sending ℕ ℕ C)}

omit [DecidableEq C] [Fintype C] in
theorem eraseIp_transparent (r : RlId ℕ ℕ) : Transparent (eraseIp : RlId ℕ ℕ → Rl C → Rl C) r :=
  ⟨fun _ => 0, fun _ => rfl⟩

/-- An operation of the abstract machine. -/
theorem Refines.op {A : Set (RlId ℕ ℕ)} {s : TxState ℕ ℕ C} (h : Refines p kern sent (A, s))
    {op : Qdisc.Op ℕ ℕ C} (hop : op.Within A) :
    Refines p kern (sent ++ op.sent.toList) (A, Qdisc.step p kern s op) := by
  obtain ⟨t, ops, hops, rfl, heq⟩ := h
  refine ⟨t, ops ++ [op], ?_, ?_, ?_⟩
  · intro o ho
    rcases List.mem_append.1 ho with ho | ho
    · exact hops o ho
    · rw [List.mem_singleton.1 ho]
      exact hop
  · rw [List.filterMap_append, List.filterMap_cons, List.filterMap_nil]
    cases op.sent <;> rfl
  · obtain ⟨-, hover⟩ := Qdisc.step_overlay (p := p) (k := kern) (fun _ _ _ => Set.mem_univ _)
      (fun r _ => eraseIp_transparent r) (hop.mono (Set.subset_univ A))
      (fun _ _ _ => Set.mem_univ _ : Rl.Inside Set.univ s)
    rw [Qdisc.runFrom, run_append, ← Qdisc.runFrom, ← heq]
    exact hover.symm

/-- Limiters that no operation has used may as well have been set up at any other time. -/
theorem Refines.setUp {A B : Set (RlId ℕ ℕ)} {s : TxState ℕ ℕ C} (h : Refines p kern sent (A, s))
    (hA : Closed A) {fresh : RlId ℕ ℕ → Option ℕ} (hAB : A ⊆ B) (hfresh : ∀ r ∈ A, fresh r = none) :
    Refines p kern sent (B, s.overlay (setUp p fresh)) := by
  obtain ⟨t, ops, hops, rfl, heq⟩ := h
  refine ⟨fun r => (fresh r).getD (t r), ops, fun op hop => (hops op hop).mono hAB, rfl, ?_⟩
  have htrans : ∀ r ∈ A, Transparent (Node.setUp p fresh : RlId ℕ ℕ → Rl C → Rl C) r := by
    intro r hr
    exact ⟨id, fun l => setUp_of_none (hfresh r hr) l⟩
  have hinit : TxState.init p (fun r => (fresh r).getD (t r)) =
      (TxState.init p t : TxState ℕ ℕ C).overlay (Node.setUp p fresh) := by
    unfold TxState.init TxState.overlay
    congr 1
    funext r
    show Rl.init C p ((fresh r).getD (t r)) = _
    rcases hr : fresh r with _ | now
    · rw [setUp_of_none hr]
      rfl
    · rw [setUp_of_some hr]
      rfl
  have hempty : Rl.Inside A (TxState.init p t : TxState ℕ ℕ C) :=
    fun _ _ hx => absurd hx List.not_mem_nil
  rw [Qdisc.runFrom, hinit, (Qdisc.run_overlay hA htrans hops hempty).2, ← Qdisc.runFrom, ← heq]
  rw [TxState.overlay_overlay, TxState.overlay_overlay]
  refine TxState.overlay_congr _ fun r => ?_
  rcases hr : fresh r with _ | now
  · rw [setUp_of_none hr, setUp_of_none hr]
  · -- a limiter that is set up has no address yet
    rw [setUp_of_some hr, setUp_of_some hr]
    rfl

theorem Refines.address {A : Set (RlId ℕ ℕ)} {s : TxState ℕ ℕ C} (h : Refines p kern sent (A, s))
    {m : RlId ℕ ℕ → Rl C → Rl C} (hm : ∀ r, Transparent m r) :
    Refines p kern sent (A, s.overlay m) := by
  obtain ⟨t, ops, hops, hsent, heq⟩ := h
  refine ⟨t, ops, hops, hsent, ?_⟩
  rw [← heq, TxState.overlay_overlay]
  refine TxState.overlay_congr _ fun r => ?_
  obtain ⟨g, hg⟩ := hm r
  rw [hg]
  rfl

theorem Small.refines {x y : Scene C} (hsmall : Small p kern T x y)
    (h : Closed x.1 ∧ Refines p kern sent x) : Closed y.1 ∧ Refines p kern sent y := by
  obtain ⟨hclosed, h⟩ := h
  cases hsmall with
  | classRate k rate hk =>
    have hstep : Refines p kern (sent ++ []) (_, Qdisc.step p kern _ (.classRate k rate)) := h.op hk
    rw [List.append_nil] at hstep
    exact ⟨hclosed, hstep⟩
  | setUp fresh hAB hB hold _ => exact ⟨hB, h.setUp hclosed hAB hold⟩
  | address m hm => exact ⟨hclosed, h.address hm⟩

/-! ### What happens to the classes -/

section Context

variable {plat : Platform} {ctx ctx' ctx'' : TxContext C}

/-- `ctx'` is in order, and its limiters come from those of `ctx` by small changes up to the time
`T`. -/
structure Reached (plat : Platform) (p : Params) (kern : Kernel) (T : ℕ) (ctx ctx' : TxContext C) :
    Prop where
  sound : Sound plat ctx'
  brk_le : ctx.brk ≤ ctx'.brk
  path : ∀ s, IsPath (Small p kern T) (scene ctx s) (scene ctx' s)
  routes : ∀ skb k j, Routes plat ctx skb k j → Routes plat ctx' skb k j

theorem Reached.refl (h : Sound plat ctx) : Reached plat p kern T ctx ctx :=
  ⟨h, le_rfl, fun _ => .refl, fun _ _ _ hroutes => hroutes⟩

theorem Reached.trans (h : Reached plat p kern T ctx ctx') (h' : Reached plat p kern T ctx' ctx'') :
    Reached plat p kern T ctx ctx'' :=
  ⟨h'.sound, h.brk_le.trans h'.brk_le, fun s => (h.path s).trans (h'.path s),
    fun skb k j hroutes => h'.routes skb k j (h.routes skb k j hroutes)⟩

theorem Reached.refines (h : Reached plat p kern T ctx ctx') {s : TxState ℕ ℕ C}
    (hr : Refines p kern sent (scene ctx s)) : Refines p kern sent (scene ctx' s) :=
  (path_invariant (P := fun x => Closed x.1 ∧ Refines p kern sent x)
    (fun _ _ => Small.refines) (h.path s) ⟨live_closed ctx, hr⟩).2

section

omit [DecidableEq C] [Fintype C]

theorem scene_modifyTxc {k : ℕ} {f : TxClass C → TxClass C}
    (hbrk : (f (ctx.txcs k)).brk = (ctx.txcs k).brk) (s : TxState ℕ ℕ C) :
    scene (ctx.modifyTxc k f) s = ({r | Live ctx r},
      { s with rl := limiter (ctx.modifyTxc k f) }) := by
  unfold scene
  congr 1
  ext r
  cases r with
  | txc k' => exact Iff.rfl
  | dest k' j =>
    show k' < ctx.brk ∧ j < (Function.update ctx.txcs k (f (ctx.txcs k)) k').brk ↔ _
    rw [field_update TxClass.brk ctx.txcs hbrk]
    exact Iff.rfl

theorem limiter_modifyTxc_rl {k : ℕ} {f : TxClass C → TxClass C}
    (hrls : (f (ctx.txcs k)).rls = (ctx.txcs k).rls) :
    limiter (ctx.modifyTxc k f) = Function.update (limiter ctx) (.txc k) (f (ctx.txcs k)).rl := by
  funext r
  cases r with
  | txc k' =>
    show (Function.update ctx.txcs k (f (ctx.txcs k)) k').rl = _
    by_cases hk : k' = k
    · subst hk
      rw [Function.update_self, Function.update_self]
    · rw [Function.update_of_ne hk, Function.update_of_ne (by simpa using hk)]
      rfl
  | dest k' j =>
    rw [Function.update_of_ne (by simp)]
    exact congrFun (field_update TxClass.rls ctx.txcs hrls k') j

theorem limiter_modifyTxc_rls {k j : ℕ} {l : Rl C} {f : TxClass C → TxClass C}
    (hrl : (f (ctx.txcs k)).rl = (ctx.txcs k).rl)
    (hrls : (f (ctx.txcs k)).rls = Function.update (ctx.txcs k).rls j l) :
    limiter (ctx.modifyTxc k f) = Function.update (limiter ctx) (.dest k j) l := by
  funext r
  cases r with
  | txc k' =>
    rw [Function.update_of_ne (by simp)]
    exact field_update TxClass.rl ctx.txcs hrl k'
  | dest k' j' =>
    show (Function.update ctx.txcs k (f (ctx.txcs k)) k').rls j' = _
    by_cases hk : k' = k
    · subst hk
      rw [Function.update_self, hrls]
      by_cases hj : j' = j
      · subst hj
        rw [Function.update_self, Function.update_self]
      · rw [Function.update_of_ne hj, Function.update_of_ne (by simpa using hj)]
        rfl
    · rw [Function.update_of_ne hk, Function.update_of_ne (by simp [hk])]
      rfl

/-- A change of one limiter. -/
theorem overlay_update (s : TxState ℕ ℕ C) (r₀ : RlId ℕ ℕ) (g : Rl C → Rl C) :
    { s with rl := Function.update s.rl r₀ (g (s.rl r₀)) } = s.overlay fun r l =>
    if r = r₀ then g l else l := by
  unfold TxState.overlay
  congr 1
  funext r
  by_cases hr : r = r₀
  · subst hr
    rw [Function.update_self]
    exact (if_pos rfl).symm
  · rw [Function.update_of_ne hr]
    exact (if_neg hr).symm

end

/-- The rate of the class-level limiter is set; otherwise only the configuration changes. -/
structure Rated (txc txc' : TxClass C) : Prop where
  same : txc.Reconfigured txc'
  rate : ∃ rate < 2 ^ 32, txc'.rl = { txc.rl with rate := rate }
  minRate : txc'.minRate < 2 ^ 32

/-- Setting the rate of a class is an operation of the abstract machine. -/
theorem Reached.rate (h : Reached plat p kern T ctx ctx') {k : ℕ} (hk : k < ctx.brk)
    {f : TxClass C → TxClass C} (hf : Rated (ctx'.txcs k) (f (ctx'.txcs k))) :
    Reached plat p kern T ctx (ctx'.modifyTxc k f) := by
  refine h.trans ⟨h.sound.modifyTxc k ?_ hf.same.sameClass.klass hf.minRate, le_rfl, fun s => ?_,
    fun _ _ _ hroutes => hroutes.modifyTxc hf.same.sameClass.kept⟩
  · exact (h.sound.pooled k).congr hf.same.sameClass.table
  · obtain ⟨rate, hrate, hrl⟩ := hf.rate
    rw [scene_modifyTxc hf.same.sameClass.table.brk]
    have hview : ({ s with rl := limiter (ctx'.modifyTxc k f) } : TxState ℕ ℕ C) =
        Qdisc.step p kern { s with rl := limiter ctx' } (.classRate k rate) := by
      rw [limiter_modifyTxc_rl hf.same.rls, hrl, Qdisc.step_classRate hrate]
      rfl
    rw [hview]
    exact .single (.classRate k rate (hk.trans_le h.brk_le : k < ctx'.brk))

/-- The first use of a limiter gives it the address of its destination. -/
theorem Reached.address (h : Reached plat p kern T ctx ctx') {k j : ℕ} {ip : UInt32}
    {f : TxClass C → TxClass C} (hsound : Sound plat (ctx'.modifyTxc k f))
    (hkept : (ctx'.txcs k).Kept (f (ctx'.txcs k)))
    (hbrk : (f (ctx'.txcs k)).brk = (ctx'.txcs k).brk)
    (hrl : (f (ctx'.txcs k)).rl = (ctx'.txcs k).rl) (hrls : (f (ctx'.txcs k)).rls =
      Function.update (ctx'.txcs k).rls j { (ctx'.txcs k).rls j with ip := ip }) :
    Reached plat p kern T ctx (ctx'.modifyTxc k f) := by
  refine h.trans ⟨hsound, le_rfl, fun s => ?_, fun _ _ _ hroutes => hroutes.modifyTxc hkept⟩
  rw [scene_modifyTxc hbrk, limiter_modifyTxc_rls hrl hrls]
  refine .single ?_
  have hview := overlay_update { s with rl := limiter ctx' } (.dest k j) fun l =>
    { l with ip := ip }
  refine (congrArg (fun s' => Small p kern T _ (_, s')) hview).mpr (.address _ fun r => ?_)
  by_cases hr : r = .dest k j
  · exact ⟨fun _ => ip, fun l => if_pos hr⟩
  · exact ⟨id, fun l => if_neg hr⟩

/-! ### Rates -/

omit [DecidableEq C] [Fintype C] in
theorem recomputeRate_rated (totalWeight : ℤ) (txc : TxClass C) :
    Rated txc (txc.recomputeRate p totalWeight) := by
  have hmin := u32OfInt_lt ((s32 (txc.weight * p.isoMaxTxRate)).tdiv totalWeight)
  unfold TxClass.recomputeRate
  generalize u32OfInt _ = minRate at hmin ⊢
  refine ⟨⟨_, _, _, _, _, rfl⟩, ⟨_, ?_, rfl⟩, hmin⟩
  show (if txc.isStatic then min txc.maxRate minRate else minRate) < 2 ^ 32
  split_ifs
  · exact (min_le_right _ _).trans_lt hmin
  · exact hmin

omit [DecidableEq C] [Fintype C] in
theorem setRate_rated (rate : ℕ) {txc : TxClass C} (hmin : txc.minRate < 2 ^ 32) :
    Rated txc (TxTick.setRate p rate txc) := by
  refine ⟨⟨_, _, _, _, _, rfl⟩, ⟨TxTick.classRate p rate txc, ?_, rfl⟩, hmin⟩
  have hrate : max txc.minRate (min p.isoMaxTxRate (u32 (rate * txc.weight))) < 2 ^ 32 :=
    max_lt hmin ((min_le_right _ _).trans_lt (Nat.mod_lt _ (by decide)))
  rw [TxTick.classRate]
  split_ifs
  · exact (min_le_right _ _).trans_lt hrate
  · exact hrate

theorem Reached.isoTxcRecomputeRates (h : Reached plat p kern T ctx ctx') :
    Reached plat p kern T ctx (ctx'.isoTxcRecomputeRates p) := by
  refine h.trans ?_
  rw [TxContext.isoTxcRecomputeRates]
  split_ifs
  · exact .refl h.sound
  · exact run_invariant (P := Reached plat p kern T ctx') _
      (fun _ k (hk : k < ctx'.brk) hreached => hreached.rate hk (recomputeRate_rated _ _))
      (.refl h.sound) fun k hk => (h.sound.indexed.mem_list_iff k).1 hk

theorem tickClass_reached {online : List C} {dt : ℕ} {t : TxTick C}
    (h : Reached plat p kern T ctx t.ctx) {k : ℕ} (hk : k < ctx.brk) :
    Ends (fun t' => Reached plat p kern T ctx t'.ctx) (fun _ => True)
      (TxTick.tickClass p online dt t k) :=
  (ends_true _).bind fun _ _ => h.rate hk (setRate_rated t.rate (h.sound.minRate k))

theorem isoTxcTick_reached {online : List C} {now : ℕ} {lock : Bool}
    {txBytes : C → ℕ} {t : TxTick C} (h : Sound plat t.ctx) :
    Ends (fun t' => Reached plat p kern T t.ctx t'.ctx) (fun _ => True)
      (t.isoTxcTick p online now lock txBytes) := by
  refine .ite (fun _ => .pure (.refl h)) fun _ => ?_
  refine (ends_true _).bind fun txRate _ => (ends_true _).bind fun rate _ => ?_
  have hlist : ∀ k ∈ t.ctx.txcList, k < t.ctx.brk := fun k => (h.indexed.mem_list_iff k).1
  refine runE_ends _ ?_ (.refl h) hlist
  exact fun _ _ hk hreached => tickClass_reached hreached hk

/-! ### New limiters -/

/-- The class of a limiter. -/
def owner : RlId ℕ ℕ → ℕ
  | .txc k => k
  | .dest k _ => k

section

omit [DecidableEq C] [Fintype C]

/-- All limiters of a new class are as `iso_rl_init` leaves them. -/
theorem isoTxcPrealloc_rls {now : ℕ} {txc : TxClass C} (h : ∀ j, txc.rls j = Rl.init C p now)
    (rounds : List Bool) :
    ∀ j, (txc.isoTxcPrealloc p now rounds).rls j = Rl.init C p now := by
  induction rounds generalizing txc with
  | nil => exact h
  | cons ok rounds ih =>
    cases ok with
    | false => exact h
    | true =>
      refine ih fun j => ?_
      show Function.update txc.rls txc.brk (Rl.init C p now) j = _
      by_cases hj : j = txc.brk
      · rw [hj, Function.update_self]
      · rw [Function.update_of_ne hj, h]

theorem live_link {r : RlId ℕ ℕ} (klass : UInt32) (txc : TxClass C) (h : Live ctx r) :
    Live (ctx.link plat klass txc) r := by
  cases r with
  | txc k => exact Nat.lt_succ_of_lt h
  | dest k j =>
    refine ⟨Nat.lt_succ_of_lt h.1, ?_⟩
    show j < (Function.update ctx.txcs ctx.brk txc k).brk
    rw [Function.update_of_ne h.1.ne]
    exact h.2

/-- The limiters that a new class brings are its own. -/
theorem owner_of_live_link {r : RlId ℕ ℕ} {klass : UInt32} {txc : TxClass C}
    (h : Live (ctx.link plat klass txc) r) (hnot : ¬ Live ctx r) : owner r = ctx.brk := by
  cases r with
  | txc k => exact (Nat.lt_succ_iff_lt_or_eq.1 h).resolve_left hnot
  | dest k j =>
    refine (Nat.lt_succ_iff_lt_or_eq.1 h.1).resolve_left fun hk => hnot ⟨hk, ?_⟩
    have hj : j < (Function.update ctx.txcs ctx.brk txc k).brk := h.2
    rwa [Function.update_of_ne hk.ne] at hj

end

/-- The limiters of the class at `k`, at the time `now`. -/
def ofClass (k now : ℕ) (r : RlId ℕ ℕ) : Option ℕ := if owner r = k then some now else none

omit [DecidableEq C] [Fintype C] in
theorem limiter_link {klass : UInt32} {now : ℕ} {txc : TxClass C} (hrl : txc.rl = Rl.init C p now)
    (hrls : ∀ j, txc.rls j = Rl.init C p now) :
    limiter (ctx.link plat klass txc) = fun r => setUp p (ofClass ctx.brk now) r
      (limiter ctx r) := by
  funext r
  have hclass : (ctx.link plat klass txc).txcs (owner r) =
      Function.update ctx.txcs ctx.brk txc (owner r) := rfl
  by_cases hr : owner r = ctx.brk
  · rw [setUp_of_some (if_pos hr)]
    rw [hr, Function.update_self, ← hr] at hclass
    cases r with
    | txc k => exact (congrArg TxClass.rl hclass).trans hrl
    | dest k j => exact (congrFun (congrArg TxClass.rls hclass) j).trans (hrls j)
  · rw [setUp_of_none (if_neg hr)]
    rw [Function.update_of_ne hr] at hclass
    cases r with
    | txc k => exact congrArg TxClass.rl hclass
    | dest k j => exact congrFun (congrArg TxClass.rls hclass) j

/-- A new class, whose limiters are set up. -/
theorem Reached.link (h : Sound plat ctx) {now : ℕ} (hT : now ≤ T) {txc : TxClass C}
    (hpooled : txc.Pooled plat) (hnew : ctx.isoTxcFind plat txc.klass = none)
    (hmin : txc.minRate < 2 ^ 32) (hrl : txc.rl = Rl.init C p now)
    (hrls : ∀ j, txc.rls j = Rl.init C p now) :
    Reached plat p kern T ctx (ctx.link plat txc.klass txc) := by
  refine ⟨⟨fun k => ?_, h.indexed.link rfl, fun k => ?_⟩, Nat.le_succ _, fun s => .single ?_,
    fun _ _ _ hroutes => hroutes.link h.indexed hnew⟩
  · show (Function.update ctx.txcs ctx.brk txc k).Pooled plat
    rw [Function.update_apply]
    split_ifs
    · exact hpooled
    · exact h.pooled k
  · show (Function.update ctx.txcs ctx.brk txc k).minRate < 2 ^ 32
    rw [Function.update_apply]
    split_ifs
    · exact hmin
    · exact h.minRate k
  · have hscene : scene (ctx.link plat txc.klass txc) s =
        ({r | Live (ctx.link plat txc.klass txc) r},
          (scene ctx s).2.overlay (setUp p (ofClass ctx.brk now))) := by
      unfold scene
      rw [limiter_link hrl hrls]
      rfl
    rw [hscene]
    refine .setUp _ (fun _ hr => live_link _ _ hr) (live_closed _)
      (fun r hr => if_neg ?_) fun r hr hnot =>
      ⟨now, hT, if_pos ?_⟩
    · cases r with
      | txc k => exact Nat.ne_of_lt hr
      | dest k j => exact Nat.ne_of_lt hr.1
    · exact owner_of_live_link hr hnot

/-- A change that concerns neither the indexes nor the limiters. -/
theorem Reached.same (h : Reached plat p kern T ctx ctx') (same : TxContext.SameIndex ctx' ctx'')
    (hlimiter : limiter ctx'' = limiter ctx') (hmin : ∀ k, (ctx''.txcs k).minRate < 2 ^ 32) :
    Reached plat p kern T ctx ctx'' := by
  refine h.trans ⟨h.sound.congr same hmin, same.brk.ge, fun s => ?_,
    fun _ _ _ hroutes => hroutes.sameIndex same⟩
  have hscene : scene ctx'' s = scene ctx' s := by
    unfold scene
    rw [hlimiter]
    congr 1
    ext r
    cases r with
    | txc k =>
      show k < ctx''.brk ↔ k < ctx'.brk
      rw [same.brk]
    | dest k j =>
      show k < ctx''.brk ∧ j < (ctx''.txcs k).brk ↔ k < ctx'.brk ∧ j < (ctx'.txcs k).brk
      rw [same.brk, (same.txc k).table.brk]
  rw [hscene]

theorem Reached.isoTxcAlloc (h : Sound plat ctx) (hp : p.isoMaxTxRate < 2 ^ 32)
    {now : ℕ} (hT : now ≤ T) (kmalloc : Bool) (rounds : List Bool) {klass : UInt32}
    (hnew : ctx.isoTxcFind plat klass = none) :
    Reached plat p kern T ctx (ctx.isoTxcAlloc plat p now kmalloc rounds klass).2 := by
  cases kmalloc with
  | false => exact .refl h
  | true =>
    let txc : TxClass C := TxClass.isoTxcPrealloc p now rounds (TxClass.init p now klass)
    have hklass : txc.klass = klass :=
      TxClass.isoTxcPrealloc_field TxClass.klass (fun _ => rfl) rounds _
    have hmin : txc.minRate = p.isoMaxTxRate :=
      TxClass.isoTxcPrealloc_field TxClass.minRate (fun _ => rfl) rounds _
    have hlink : Reached plat p kern T ctx (ctx.link plat txc.klass txc) :=
      .link h hT ((TxClass.init_pooled plat p now klass).isoTxcPrealloc p now rounds)
        (hklass ▸ hnew) (hmin ▸ hp)
        (TxClass.isoTxcPrealloc_field TxClass.rl (fun _ => rfl) rounds _)
        (isoTxcPrealloc_rls (fun _ => rfl) rounds)
    rw [hklass] at hlink
    refine Reached.isoTxcRecomputeRates (hlink.same ?_ rfl hlink.sound.minRate)
    exact ⟨rfl, rfl, rfl, rfl, fun _ => TxClass.SameClass.refl _⟩

/-- A change of the configuration of one class. -/
theorem Reached.configure (h : Sound plat ctx) (k : ℕ) {f : TxClass C → TxClass C}
    (hsame : ∀ txc, TxClass.SameClass txc (f txc)) (hrl : ∀ txc, (f txc).rl = txc.rl)
    (hrls : ∀ txc, (f txc).rls = txc.rls) (hmin : ∀ txc, (f txc).minRate = txc.minRate) :
    Reached plat p kern T ctx (ctx.modifyTxc k f) := by
  refine (Reached.refl h).same ((TxContext.SameIndex.refl ctx).modifyTxc k hsame) ?_ fun k' => ?_
  · rw [limiter_modifyTxc_rl (hrls _), hrl]
    exact Function.update_eq_self (RlId.txc k) (limiter ctx)
  · show (Function.update ctx.txcs k (f (ctx.txcs k)) k').minRate < _
    rw [field_update TxClass.minRate ctx.txcs (hmin _)]
    exact h.minRate k'

theorem command_reached (h : Sound plat ctx) (hp : p.isoMaxTxRate < 2 ^ 32)
    {op : TxContext.Op} (hop : op.Keeps) (hT : op.time ≤ T) :
    Reached plat p kern T ctx (ctx.step plat p op) := by
  cases op with
  | createTxc now kmalloc rounds klass =>
    show Reached plat p kern T ctx (ctx.isoTxcMarkInstall plat p now kmalloc rounds klass).2
    rw [TxContext.isoTxcMarkInstall]
    rcases hfind : ctx.isoTxcFind plat klass with _ | k
    · exact .isoTxcAlloc h hp hT kmalloc rounds hfind
    · exact .refl h
  | deleteTxc klass => exact absurd hop id
  | setTxcWeight klass weight =>
    show Reached plat p kern T ctx (ctx.isoSysSetTxcWeight plat p klass weight).2
    rw [TxContext.isoSysSetTxcWeight]
    cases ctx.isoTxcFind plat klass with
    | none => exact .refl h
    | some k =>
      dsimp only
      split_ifs
      · exact .refl h
      · have hweight : Reached plat p kern T ctx
            (ctx.modifyTxc k (TxClass.setWeight weight.toNat)) :=
          .configure h k (fun txc => TxClass.Reconfigured.sameClass ⟨_, _, _, _, _, rfl⟩)
            (fun _ => rfl) (fun _ => rfl) fun _ => rfl
        refine Reached.isoTxcRecomputeRates (hweight.same ?_ rfl hweight.sound.minRate)
        exact ⟨rfl, rfl, rfl, rfl, fun _ => TxClass.SameClass.refl _⟩
  | setTxcRate klass rate =>
    show Reached plat p kern T ctx (ctx.isoSysSetTxcRate plat p klass rate).2
    rw [TxContext.isoSysSetTxcRate]
    cases ctx.isoTxcFind plat klass with
    | none => exact .refl h
    | some k =>
      dsimp only
      split_ifs
      · exact .refl h
      · refine (Reached.configure h k (fun txc => (TxClass.setCap_reconfigured rate txc).sameClass)
          ?_ ?_ ?_).isoTxcRecomputeRates
        · exact TxClass.setCap_field TxClass.rl (fun _ _ _ => rfl) rate
        · exact TxClass.setCap_field TxClass.rls (fun _ _ _ => rfl) rate
        · exact TxClass.setCap_field TxClass.minRate (fun _ _ _ => rfl) rate
  | assocTxcVq klass vq =>
    show Reached plat p kern T ctx (ctx.assoc plat klass vq)
    unfold TxContext.assoc
    cases ctx.isoTxcFind plat klass with
    | none => exact .refl h
    | some k =>
      cases vq with
      | none => exact .refl h
      | some v =>
        exact .configure h k (TxClass.setVq_sameClass v) (fun _ => rfl) (fun _ => rfl) fun _ => rfl
  | recomputeDev => exact (Reached.refl h).isoTxcRecomputeRates

omit [DecidableEq C] [Fintype C] in
theorem live_preallocOne (k now : ℕ) {r : RlId ℕ ℕ} :
    Live (ctx.modifyTxc k (TxClass.preallocOne p now)) r ↔
      Live ctx r ∨ r = .dest k (ctx.txcs k).brk ∧ k < ctx.brk := by
  cases r with
  | txc k' => exact ⟨Or.inl, fun h => h.resolve_right fun hr => by cases hr.1⟩
  | dest k' j =>
    show k' < ctx.brk ∧ j < (Function.update ctx.txcs k
      (TxClass.preallocOne p now (ctx.txcs k)) k').brk ↔
      (k' < ctx.brk ∧ j < (ctx.txcs k').brk) ∨ _
    by_cases hk : k' = k
    · subst hk
      rw [Function.update_self]
      show _ ∧ j < (ctx.txcs k').brk + 1 ↔ _
      rw [Nat.lt_succ_iff_lt_or_eq, RlId.dest.injEq]
      tauto
    · rw [Function.update_of_ne hk, RlId.dest.injEq]
      tauto

/-- A new limiter for a class is set up. -/
theorem Reached.preallocOne (h : Sound plat ctx) (k : ℕ) {now : ℕ} (hT : now ≤ T) :
    Reached plat p kern T ctx (ctx.modifyTxc k (TxClass.preallocOne p now)) := by
  refine ⟨h.modifyTxc k ((h.pooled k).preallocOne p now) rfl (h.minRate k), le_rfl,
    fun s => .single ?_, fun _ _ _ hroutes => hroutes.modifyTxc
      ((h.pooled k).kept_preallocOne p now)⟩
  have hlimiter : limiter (ctx.modifyTxc k (TxClass.preallocOne p now)) =
      Function.update (limiter ctx) (.dest k (ctx.txcs k).brk) (Rl.init C p now) :=
    limiter_modifyTxc_rls rfl rfl
  let fresh : RlId ℕ ℕ → Option ℕ :=
    fun r => if r = .dest k (ctx.txcs k).brk then some now else none
  have hscene : scene (ctx.modifyTxc k (TxClass.preallocOne p now)) s =
      ({r | Live (ctx.modifyTxc k (TxClass.preallocOne p now)) r},
        (scene ctx s).2.overlay (setUp p fresh)) := by
    unfold scene
    rw [hlimiter]
    refine congrArg (Prod.mk _) ((overlay_update (scene ctx s).2 _ fun _ => Rl.init C p now).trans
      ?_)
    refine TxState.overlay_congr _ fun r => ?_
    by_cases hr : r = .dest k (ctx.txcs k).brk
    · rw [if_pos hr, setUp_of_some (if_pos hr)]
    · rw [if_neg hr, setUp_of_none (if_neg hr)]
  rw [hscene]
  refine .setUp fresh (fun r hr => (live_preallocOne k now).2 (Or.inl hr)) (live_closed _)
    (fun r hr => if_neg ?_) fun r hr hnot => ⟨now, hT, if_pos ?_⟩
  · rintro rfl
    exact absurd hr.2 (Nat.lt_irrefl _)
  · exact (((live_preallocOne k now).1 hr).resolve_left hnot).1

theorem Reached.isoTxcPrealloc (h : Sound plat ctx) (k : ℕ) {now : ℕ} (hT : now ≤ T)
    (rounds : List Bool) :
    Reached plat p kern T ctx (ctx.modifyTxc k (TxClass.isoTxcPrealloc p now rounds)) := by
  induction rounds generalizing ctx with
  | nil =>
    show Reached plat p kern T ctx (ctx.modifyTxc k fun txc => txc)
    rw [TxContext.modifyTxc_id]
    exact .refl h
  | cons ok rounds ih =>
    cases ok with
    | false =>
      show Reached plat p kern T ctx (ctx.modifyTxc k fun txc => txc)
      rw [TxContext.modifyTxc_id]
      exact .refl h
    | true =>
      have hone : Reached plat p kern T ctx _ := .preallocOne h k hT
      have hrest := ih hone.sound
      rw [TxContext.modifyTxc_modifyTxc] at hrest
      exact hone.trans hrest

/-! ### The state of a peer -/

/-- A state that is taken comes with a limiter, which gets the address. -/
theorem Reached.got (h : Sound plat ctx) {k now : ℕ} {ip : UInt32} {create trylock : Bool} {v : Ptr}
    {txc : TxClass C} (hgot : TxClass.Got plat now (ctx.txcs k) ip create trylock v txc) :
    Reached plat p kern T ctx (ctx.modifyTxc k fun _ => txc) := by
  have hpooled := hgot.pooled (h.pooled k)
  have hkept := hgot.kept (h.pooled k)
  cases hgot with
  | found | refused | exhausted =>
    have hid := TxContext.modifyTxc_id ctx k
    unfold TxContext.modifyTxc at hid ⊢
    rw [hid]
    exact .refl h
  | taken i j states limiters _ _ _ _ _ =>
    exact (Reached.refl h).address (h.modifyTxc k hpooled rfl (h.minRate k)) hkept rfl rfl rfl

theorem Reached.isoStateGet (h : Sound plat ctx) (k now : ℕ) (skb : Skb)
    (rx create trylock : Bool) :
    Reached plat p kern T ctx
      (ctx.modifyTxc k fun _ => (TxClass.isoStateGet plat now (ctx.txcs k) skb rx
        create trylock).2) := by
  by_cases hip : skb.isIp
  · exact .got h ((h.pooled k).isoStateGet_got now hip rx create trylock)
  · rw [TxClass.isoStateGet_of_not_isIp now hip]
    have hid := TxContext.modifyTxc_id ctx k
    unfold TxContext.modifyTxc at hid ⊢
    rw [hid]
    exact .refl h

end Context

/-! ### What happens to a device -/

section Step

variable {plat : Platform} {online : List C} {n n' : Node C}

/-- Of the packets of one flow, all are sent to the limiter that one has been sent to before. -/
structure Steady (plat : Platform) (p : Params) (ctx : TxContext C)
    (sent : List (Qdisc.Sending ℕ ℕ C)) :
    Prop where
  routes : ∀ e ∈ sent, ∀ x, e.1 = some x → Routes plat ctx e.2.2 x.1 x.2
  pairwise : sent.Pairwise fun a b => SameFlow a.2.2 b.2.2 → ∀ x, a.1 = some x → b.1 = some x
  off : p.isoGlobalEnabled = false → ∀ e ∈ sent, e.1 = none

omit [DecidableEq C] [Fintype C] in
theorem Steady.congr {ctx ctx' : TxContext C} (h : Steady plat p ctx sent)
    (hroutes : ∀ skb k j, Routes plat ctx skb k j → Routes plat ctx' skb k j) :
    Steady plat p ctx' sent :=
  ⟨fun e he x hx => hroutes _ _ _ (h.routes e he x hx), h.pairwise, h.off⟩

omit [DecidableEq C] [Fintype C] in
/-- A packet that goes the way that `route` finds. -/
theorem Steady.send {ctx : TxContext C} (h : Steady plat p ctx sent) (hs : Sound plat ctx)
    {x : Option (ℕ × ℕ)} (c : C) {skb : Skb}
    (hon : p.isoGlobalEnabled = true → route plat ctx skb = .ok x)
    (hoff : p.isoGlobalEnabled = false → x = none) : Steady plat p ctx (sent ++ [(x, c, skb)]) := by
  have hroutes : ∀ y, x = some y → Routes plat ctx skb y.1 y.2 := by
    rintro y rfl
    rcases hp : p.isoGlobalEnabled with _ | _
    · exact absurd (hoff hp) (Option.some_ne_none y)
    · exact hs.route_iff.1 (hon hp)
  refine ⟨?_, ?_, ?_⟩
  · intro e he y hy
    rcases List.mem_append.1 he with he | he
    · exact h.routes e he y hy
    · obtain rfl := List.mem_singleton.1 he
      exact hroutes y hy
  · refine List.pairwise_append.2 ⟨h.pairwise, List.pairwise_singleton _ _, ?_⟩
    intro a ha b hb hflow y hy
    obtain rfl := List.mem_singleton.1 hb
    have hway := (h.routes a ha y hy).sameFlow hflow
    rcases hp : p.isoGlobalEnabled with _ | _
    · exact absurd ((h.off hp a ha).symm.trans hy).symm (Option.some_ne_none y)
    · exact Except.ok.inj ((hon hp).symm.trans (hs.route_iff.2 hway))
  · intro hp e he
    rcases List.mem_append.1 he with he | he
    · exact h.off hp e he
    · obtain rfl := List.mem_singleton.1 he
      exact hoff hp

/-- The device is in order, and its limiters are those of a run of the abstract machine that has
been given `sent`. -/
structure Follows (plat : Platform) (p : Params) (kern : Kernel) (sent : List (Qdisc.Sending ℕ ℕ C))
    (n : Node C) : Prop where
  sound : Sound plat n.tick.ctx
  steady : Steady plat p n.tick.ctx sent
  refines : Refines p kern sent (scene n.tick.ctx n.view)

theorem Follows.reached (h : Follows plat p kern sent n) {tick : TxTick C}
    (hctx : Reached plat p kern T n.tick.ctx tick.ctx) :
    Follows plat p kern sent { n with tick := tick } :=
  ⟨hctx.sound, h.steady.congr hctx.routes, hctx.refines h.refines⟩

theorem Follows.setCtx (h : Follows plat p kern sent n) {ctx : TxContext C}
    (hctx : Reached plat p kern T n.tick.ctx ctx) : Follows plat p kern sent (n.setCtx ctx) := by
  show Follows plat p kern sent { n with tick := { n.tick with ctx := ctx } }
  exact h.reached hctx

/-- An operation of the limiters leaves the indexes alone. -/
theorem put_sameIndex (p : Params) (kern : Kernel) (n : Node C) (op : Qdisc.Op ℕ ℕ C) :
    TxContext.SameIndex n.tick.ctx (n.put (Qdisc.step p kern n.view op)).tick.ctx :=
  ⟨rfl, rfl, rfl, rfl, fun k => ⟨rfl, rfl, rfl, rfl, rfl, rfl, rfl, fun _ => rfl, fun _ => rfl,
    fun j => Qdisc.step_ip p kern n.view op (.dest k j)⟩⟩

/-- A device whose limiters have made an operation of the abstract machine. -/
theorem Follows.put (h : Follows plat p kern sent n) (op : Qdisc.Op ℕ ℕ C)
    (hop : op.Within {r | Live n.tick.ctx r})
    (hsteady : Steady plat p n.tick.ctx (sent ++ op.sent.toList)) :
    Follows plat p kern (sent ++ op.sent.toList) (n.put (Qdisc.step p kern n.view op)) := by
  have hsame := put_sameIndex p kern n op
  have hstep : Refines p kern _ (_, Qdisc.step p kern n.view op) := h.refines.op hop
  generalize Qdisc.step p kern n.view op = s at hsame hstep
  refine ⟨h.sound.congr hsame h.sound.minRate, hsteady.congr fun _ _ _ hroutes =>
    hroutes.sameIndex hsame, ?_⟩
  have hscene : scene (n.put s).tick.ctx (n.put s).view = ({r | Live n.tick.ctx r}, s) := by
    show ({r | Live (n.put s).tick.ctx r}, (n.put s).view) = _
    rw [view_put]
    refine congrArg (·, s) (Set.ext fun r => ?_)
    cases r <;> exact Iff.rfl
  rw [hscene]
  exact hstep

theorem enqueue_follows {c : C} {skb : Skb} {now : ℕ} {lock : Bool} (h : Follows plat p kern sent n)
    (hstep : n.enqueue plat p kern online c skb now lock = .ok n') :
    ∃ x, Follows plat p kern (sent ++ [(x, c, skb)]) n' := by
  rw [enqueue] at hstep
  split_ifs at hstep with hp
  · obtain ⟨tick, htick, hstep⟩ := bind_eq_ok hstep
    obtain ⟨x, hroute, hstep⟩ := bind_eq_ok hstep
    cases hstep
    have hctx : Reached plat p kern 0 n.tick.ctx tick.ctx :=
      (isoTxcTick_reached h.sound).of_eq_ok htick
    have hticked := h.reached hctx
    refine ⟨x, hticked.put (.enqueue x c skb) ?_ ?_⟩
    · rintro y rfl
      exact hctx.sound.lt_of_routes (hctx.sound.route_iff.1 hroute)
    · refine hticked.steady.send hctx.sound c (fun _ => hroute) fun hoff => ?_
      rw [hp] at hoff
      cases hoff
  · cases hstep
    refine ⟨none, h.put (.enqueue none c skb) (fun x hx => absurd hx (Option.not_mem_none x)) ?_⟩
    exact h.steady.send h.sound c (fun hon => absurd hon hp) fun _ => rfl

/-- The rate that a packet carries is an operation of the abstract machine, if it is installed. -/
theorem Follows.installRate (h : Follows plat p kern sent n) {k i j : ℕ} {txc txc' : TxClass C}
    (hk : k < n.tick.ctx.brk) (htxc : n.tick.ctx.txcs k = txc) (hj : j < txc.brk)
    (hrl : (txc.state i).rl = .obj j) {rate : ℕ} (hrate : rate < 2 ^ 32)
    (hinstall : Host.installRate (kern.ktime n.reads) rate i txc = .ok txc') :
    Follows plat p kern sent
      { n.setCtx (n.tick.ctx.modifyTxc k fun _ => txc') with reads := n.reads + 1 } := by
  subst htxc
  obtain ⟨_, hok, hsame, -⟩ := Host.installRate_eq hrl (kern.ktime n.reads) rate
  obtain rfl := Except.ok.inj (hok.symm.trans hinstall)
  rw [Host.installRate, hrl] at hinstall
  obtain rfl := Except.ok.inj hinstall
  have hsound : Sound plat (n.tick.ctx.modifyTxc k fun _ => _) :=
    h.sound.modifyTxc k ((h.sound.pooled k).congr hsame) rfl (h.sound.minRate k)
  refine ⟨hsound, h.steady.congr fun _ _ _ hroutes => ?_, ?_⟩
  · exact hroutes.modifyTxc (f := fun _ => _) (TxClass.SameClass.kept ⟨rfl, hsame⟩)
  have hop : Refines p kern (sent ++ []) (_, Qdisc.step p kern _ (.feedback k j rate)) :=
    h.refines.op ⟨hk, hj⟩
  rw [List.append_nil, Qdisc.step_feedback hrate] at hop
  refine (congrArg (Refines p kern sent) ?_).mpr hop
  refine (scene_modifyTxc rfl _).trans (congrArg (Prod.mk _) ?_)
  rw [limiter_modifyTxc_rls rfl rfl]
  rfl

/-- What `iso_rx` does with the state of the peer. -/
theorem Follows.useState (h : Follows plat p kern sent n) {k : ℕ} {txc txc' : TxClass C}
    (hk : k < n.tick.ctx.brk) (htxc : n.tick.ctx.txcs k = txc) {state : Ptr}
    (hlimiter : ∀ i, state = .obj i → ∃ j < txc.brk, (txc.state i).rl = .obj j)
    {env : RxEnv C} {skb skb' : Skb} {verdict : IsoVerdict}
    (hnow : env.rateNow = kern.ktime n.reads)
    (huse : Host.useState p env skb txc state = .ok (verdict, skb', txc')) :
    Follows plat p kern sent { n.setCtx (n.tick.ctx.modifyTxc k fun _ => txc') with
      reads := if Installs p env skb txc state then n.reads + 1 else n.reads } := by
  have hself : (n.tick.ctx.modifyTxc k fun _ => txc) = n.tick.ctx := by
    rw [← htxc]
    exact TxContext.modifyTxc_id n.tick.ctx k
  cases state with
  | null =>
    cases huse
    rw [hself]
    exact h
  | listHead => cases huse
  | obj i =>
    obtain ⟨txc'', hinstall, huse⟩ := bind_eq_ok huse
    cases huse
    have hif : Host.installIfDue p env skb i txc = if Installs p env skb txc (.obj i) then
      Host.installRate env.rateNow (skbHasFeedback p skb) i txc else pure txc := rfl
    rw [hif] at hinstall
    by_cases hdue : Installs p env skb txc (.obj i)
    · rw [if_pos hdue, hnow] at hinstall
      rw [if_pos hdue]
      obtain ⟨j, hj, hrl⟩ := hlimiter i rfl
      exact h.installRate hk htxc hj hrl ((skbHasFeedback_lt p skb).trans (by decide)) hinstall
    · rw [if_neg hdue] at hinstall
      cases hinstall
      rw [if_neg hdue, hself]
      exact h

theorem rx_follows {env : RxEnv C} {skb : Skb} (h : Follows plat p kern sent n)
    (hstep : n.rx plat p kern env skb = .ok n') : Follows plat p kern sent n' := by
  rw [rx] at hstep
  rcases hfind : n.tick.ctx.isoTxcFind plat (isoRxClassify skb) with _ | k
  · rw [hfind] at hstep
    cases hstep
    exact h
  · rw [hfind] at hstep
    obtain ⟨⟨verdict, skb', txc'⟩, huse, hstep⟩ := bind_eq_ok hstep
    cases hstep
    have hgot := h.setCtx (T := 0)
      (.isoStateGet h.sound k env.stateNow skb true (isoIsFeedbackMarked p skb) env.writelock)
    have huse' := hgot.useState (h.sound.indexed.lt_of_isoTxcFind hfind) (Function.update_self ..)
      (fun _ hstate => h.sound.exists_limiter hstate) rfl huse
    -- the class is written twice
    have hctx : ∀ txc, ((n.setCtx (n.tick.ctx.modifyTxc k fun _ => txc)).tick.ctx.modifyTxc
        k fun _ => txc') =
        n.tick.ctx.modifyTxc k fun _ => txc' :=
      fun txc => TxContext.modifyTxc_modifyTxc n.tick.ctx k (fun _ => txc) fun _ => txc'
    rw [hctx] at huse'
    exact huse'

/-- The packet that the kernel gives to `iso_enqueue`, with its CPU. -/
def Op.given : Op C → Option (C × Skb)
  | .enqueue c skb _ _ => some (c, skb)
  | _ => none

theorem step_follows (hp : p.isoMaxTxRate < 2 ^ 32) {op : Op C} (h : Follows plat p kern sent n)
    (hstep : step plat p kern online n op = .ok n') :
    ∃ new, new.map Prod.snd = op.given.toList ∧ Follows plat p kern (sent ++ new) n' := by
  have hquiet : ∀ {n'}, Follows plat p kern sent n' → op.given = none →
      ∃ new, new.map Prod.snd = op.given.toList ∧ Follows plat p kern (sent ++ new) n' := by
    intro n' h hgiven
    rw [hgiven]
    exact ⟨[], rfl, (List.append_nil sent).symm ▸ h⟩
  cases op with
  | enqueue c skb now lock =>
    obtain ⟨x, hx⟩ := enqueue_follows h hstep
    exact ⟨[(x, c, skb)], rfl, hx⟩
  | rx env skb => exact hquiet (rx_follows h hstep) rfl
  | command op hkeeps =>
    cases hstep
    exact hquiet (h.setCtx (command_reached h.sound hp hkeeps le_rfl)) rfl
  | prealloc k now rounds =>
    cases hstep
    exact hquiet (h.setCtx (.isoTxcPrealloc h.sound k le_rfl rounds)) rfl
  | timeout c =>
    cases hstep
    exact ⟨[], rfl, h.put (.timeout c) trivial ((List.append_nil sent).symm ▸ h.steady)⟩
  | tasklet c =>
    cases hstep
    exact ⟨[], rfl, h.put (.tasklet c) trivial ((List.append_nil sent).symm ▸ h.steady)⟩

theorem run_follows (hp : p.isoMaxTxRate < 2 ^ 32) {ops : List (Op C)}
    (h : Follows plat p kern sent n) (hrun : runE (step plat p kern online) n ops = .ok n') :
    ∃ new, new.map Prod.snd = ops.filterMap Op.given ∧ Follows plat p kern (sent ++ new) n' := by
  induction ops generalizing n sent with
  | nil =>
    cases hrun
    exact ⟨[], rfl, (List.append_nil sent).symm ▸ h⟩
  | cons op ops ih =>
    obtain ⟨n₁, hstep, hrun⟩ := bind_eq_ok hrun
    obtain ⟨first, hfirst, h₁⟩ := step_follows hp h hstep
    obtain ⟨rest, hrest, h'⟩ := ih h₁ hrun
    refine ⟨first ++ rest, ?_, List.append_assoc sent first rest ▸ h'⟩
    rw [List.map_append, hfirst, hrest, List.filterMap_cons]
    cases op.given <;> rfl

theorem init_follows (hp : p.isoMaxTxRate < 2 ^ 32) (plat : Platform) (kern : Kernel) (now : ℕ) :
    Follows plat p kern [] (init p now : Node C) := by
  refine ⟨⟨fun _ => TxClass.init_pooled plat p 0 0, TxContext.init_indexed plat p, fun _ => hp⟩,
    ⟨fun e he => absurd he List.not_mem_nil, .nil, fun _ e he => absurd he List.not_mem_nil⟩, ?_⟩
  refine ⟨fun _ => 0, [], fun op hop => absurd hop List.not_mem_nil, rfl, ?_⟩
  show ((init p now : Node C).view.overlay eraseIp) = TxState.init p fun _ => 0
  unfold TxState.overlay
  congr 1
  funext r
  cases r <;> rfl

/-- What is sent in a run, with the ways that were found. -/
theorem runFrom_follows {now : ℕ} (hp : p.isoMaxTxRate < 2 ^ 32) {ops : List (Op C)}
    (hrun : runFrom plat p kern online now ops = .ok n) :
    ∃ sent, sent.map Prod.snd = ops.filterMap Op.given ∧ Follows plat p kern sent n :=
  run_follows hp (init_follows hp plat kern now) hrun

end Step

/-- The limiters of a device, its control blocks, its readings of the clock and its history are
those of a run of the abstract machine that is given the same packets; only the addresses are more
than the abstract machine has. -/
theorem runFrom_refines {plat : Platform} {online : List C} {now : ℕ} (hp : p.isoMaxTxRate < 2 ^ 32)
    {ops : List (Op C)} {n : Node C} (hrun : runFrom plat p kern online now ops = .ok n) :
    ∃ (t : RlId ℕ ℕ → ℕ) (ops' : List (Qdisc.Op ℕ ℕ C)),
      (ops'.filterMap Qdisc.Op.sent).map Prod.snd = ops.filterMap Op.given ∧
        n.view.overlay eraseIp = Qdisc.runFrom p kern t ops' := by
  obtain ⟨sent, hgiven, h⟩ := runFrom_follows hp hrun
  obtain ⟨t, ops', -, rfl, heq⟩ := h.refines
  exact ⟨t, ops', hgiven, heq⟩

/-- A packet from the address 1 to the address 2. -/
def dataWith (ptr : ℕ) : Skb := .datagram ptr 1000 1 2 6 0 0

/-- Feedback from the address 2 to the address 1. -/
def rateFrom (rate : UInt16) : Skb := .datagram 0 1000 2 1 143 0 rate

def quietEnv : RxEnv Unit := ⟨(), 0, true, 0, true, 0, true, 0, 0, true, 0, true, 0, 0, none⟩

/-- The first packet is sent before there is a state for the peer.  The first feedback makes one,
and the second sets its rate. -/
def conversation : List (Op Unit) :=
  [.command (.createTxc 0 true [true] 1) trivial, .enqueue () (dataWith 1) 0 true,
    .rx quietEnv (rateFrom 500), .enqueue () (dataWith 2) 0 true, .enqueue () (dataWith 3) 0 true,
    .rx quietEnv (rateFrom 500), .timeout (),
    .tasklet ()]

def afterConversation : Node Unit :=
  endOr (init {} 0) (runFrom Platform.x86 {} Kernel.steady [()] 0 conversation)

theorem runFrom_refines_conversation :
    afterConversation.tick.ctx.brk = 1 ∧ ((afterConversation.tick.ctx.txcs 0).rls 0).rate = 500 ∧
      afterConversation.trace.length = 17 ∧
      ∃ (t : RlId ℕ ℕ → ℕ) (ops' : List (Qdisc.Op ℕ ℕ Unit)),
        (ops'.filterMap Qdisc.Op.sent).map Prod.snd = conversation.filterMap Op.given ∧
          afterConversation.view.overlay eraseIp = Qdisc.runFrom {} Kernel.steady t ops' :=
  ⟨by decide +kernel, by decide +kernel, by decide +kernel,
    runFrom_refines (by decide) (eq_ok_endOr _ (by decide +kernel))⟩

end Node

end EyeQ
