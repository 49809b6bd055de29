import EyeQ.Host.Equiv.Rx
import EyeQ.Node.Basic
import EyeQ.Tx.Equiv.Context
import EyeQ.Tx.Equiv.Pool
import Mathlib.Data.List.Find

/-!
# The way of a packet to its limiter

`Routes plat ctx skb k j` says that the packet `skb` is sent to the limiter at `j` of the class at
`k`, in terms of the tables: the class is found, and the chain of the destination's address has a
state with that limiter.  `Sound.route_iff` connects it to `route`.

A way that exists stays.  No class takes the name of another, a chain that has a state keeps it, and
a state keeps its limiter (`Kept`).  So packets of one flow are sent to one limiter, once they are
sent to any.
-/

namespace EyeQ

open Machine

variable {C : Type} {plat : Platform} {p : Params} {ctx ctx' : TxContext C}

/-! ### Changes of one class -/

namespace TxContext

theorem modifyTxc_id (ctx : TxContext C) (k : ℕ) : (ctx.modifyTxc k fun txc => txc) = ctx := by
  unfold modifyTxc
  rw [Function.update_eq_self]

theorem modifyTxc_modifyTxc (ctx : TxContext C) (k : ℕ) (f g : TxClass C → TxClass C) :
    (ctx.modifyTxc k f).modifyTxc k g = ctx.modifyTxc k fun txc => g (f txc) := by
  unfold modifyTxc
  dsimp only
  rw [Function.update_self, Function.update_idem]

/-- A class that is found is found still when another one has been created. -/
theorem Indexed.isoTxcFind_link (h : ctx.Indexed plat) {klass : UInt32} {k : ℕ}
    (hfind : isoTxcFind plat ctx klass = some k) {txc : TxClass C} (hne : txc.klass ≠ klass) :
    isoTxcFind plat (TxContext.link plat txc.klass txc ctx) klass = some k := by
  have hold : (ctx.isoTxBucket (classHash plat klass)).find?
      (fun k => (Function.update ctx.txcs ctx.brk txc k).klass = klass) = some k := by
    rw [← hfind, isoTxcFind]
    refine List.find?_congr fun k' hk' => ?_
    have hlt : k' < ctx.brk := ((h.hashed_iff k').1 ⟨_, hk'⟩).1
    rw [Function.update_of_ne hlt.ne]
  show (addHead ctx.isoTxBucket (classHash plat txc.klass) ctx.brk (classHash plat klass)).find?
    (fun k => (Function.update ctx.txcs ctx.brk txc k).klass = klass) = some k
  by_cases hhash : classHash plat klass = classHash plat txc.klass
  · -- the new class is the first on the chain, under another name
    rw [hhash, addHead_self, ← hhash, List.find?_cons_of_neg, hold]
    rw [Function.update_self]
    simpa using hne
  · rw [addHead_of_ne _ _ hhash, hold]

end TxContext

namespace TxClass

/-- A chain that has a state keeps it, and the state keeps its limiter. -/
structure Kept (txc txc' : TxClass C) : Prop where
  klass : txc'.klass = txc.klass
  chain : ∀ b i, txc.stateBucket b = [i] → txc'.stateBucket b = [i]
  rl : ∀ b i, txc.stateBucket b = [i] → (txc'.state i).rl = (txc.state i).rl

theorem Kept.refl (txc : TxClass C) : Kept txc txc := ⟨rfl, fun _ _ h => h, fun _ _ _ => rfl⟩

theorem SameClass.kept {txc txc' : TxClass C} (h : SameClass txc txc') : Kept txc txc' where
  klass := h.klass
  chain := fun b i hb => by rw [h.table.stateBucket, hb]
  rl := fun _ i _ => h.table.rl i

theorem Pooled.kept_preallocOne {txc : TxClass C} (h : Pooled plat txc) (p : Params) (now : ℕ) :
    Kept txc (txc.preallocOne p now) where
  klass := rfl
  chain := fun _ _ hb => hb
  rl := by
    intro b i hb
    have hi : i ∈ txc.stateBucket b := hb ▸ List.mem_singleton_self i
    show (Function.update txc.state txc.brk _ i).rl = _
    rw [Function.update_of_ne (h.states.lt_of_mem_chain hi).ne]

/-- A free state is given to an address whose chain is empty. -/
theorem Pooled.kept_give {txc : TxClass C} (h : Pooled plat txc) {now : ℕ} {ip : UInt32} {i j : ℕ}
    {states limiters : List ℕ} (hnil : txc.stateBucket (stateHash plat ip) = [])
    (hi : txc.preallocStateList = i :: states) :
    Kept txc (txc.give plat now ip i j states limiters) where
  klass := rfl
  chain := by
    intro b i' hb
    have hne : b ≠ stateHash plat ip := by
      rintro rfl
      rw [hnil] at hb
      exact absurd hb.symm (List.cons_ne_nil i' [])
    show addHead txc.stateBucket (stateHash plat ip) i b = [i']
    rw [addHead_of_ne _ _ hne, hb]
  rl := by
    intro b i' hb
    have hi' : i' ∈ txc.stateBucket b := hb ▸ List.mem_singleton_self i'
    have hne : i' ≠ i := by
      rintro rfl
      exact h.states.apart b i' hi' (hi ▸ List.mem_cons_self)
    show (Function.update txc.state i _ i').rl = _
    rw [Function.update_of_ne hne]

theorem Got.kept {txc txc' : TxClass C} {now : ℕ} {ip : UInt32} {create trylock : Bool} {v : Ptr}
    (hgot : Got plat now txc ip create trylock v txc') (h : Pooled plat txc) : Kept txc txc' := by
  cases hgot with
  | found | refused | exhausted => exact .refl txc
  | taken i j states limiters hnil _ _ hi _ => exact h.kept_give hnil hi

end TxClass

namespace Node

/-! ### Contexts in order -/

/-- The tables of the classes and the indexes are in order, and the rates that classes are
guaranteed fit their type. -/
structure Sound (plat : Platform) (ctx : TxContext C) : Prop where
  pooled : ctx.Pooled plat
  indexed : ctx.Indexed plat
  minRate : ∀ k, (ctx.txcs k).minRate < 2 ^ 32

theorem Sound.congr (h : Sound plat ctx) (same : TxContext.SameIndex ctx ctx')
    (hmin : ∀ k, (ctx'.txcs k).minRate < 2 ^ 32) : Sound plat ctx' :=
  ⟨h.pooled.congr same, h.indexed.congr same, hmin⟩

/-- A change of one class that leaves its name alone. -/
theorem Sound.modifyTxc (h : Sound plat ctx) (k : ℕ) {f : TxClass C → TxClass C}
    (hpooled : (f (ctx.txcs k)).Pooled plat) (hklass : (f (ctx.txcs k)).klass = (ctx.txcs k).klass)
    (hmin : (f (ctx.txcs k)).minRate < 2 ^ 32) : Sound plat (ctx.modifyTxc k f) where
  pooled := h.pooled.modifyTxc k hpooled
  indexed :=
    { h.indexed with
      chained := by
        refine h.indexed.chained.congr fun _ k' _ => ?_
        show classHash plat (Function.update ctx.txcs k (f (ctx.txcs k)) k').klass = _
        rw [field_update TxClass.klass ctx.txcs hklass] }
  minRate := by
    intro k'
    show (Function.update ctx.txcs k (f (ctx.txcs k)) k').minRate < _
    by_cases hk : k' = k
    · subst hk
      rw [Function.update_self]
      exact hmin
    · rw [Function.update_of_ne hk]
      exact h.minRate k'

/-- A state that a packet has found has a limiter. -/
theorem Sound.exists_limiter (h : Sound plat ctx) {k now i : ℕ} {skb : Skb}
    {rx create trylock : Bool} (hstate :
      (TxClass.isoStateGet plat now (ctx.txcs k) skb rx create trylock).1 = .obj i) :
    ∃ j < (TxClass.isoStateGet plat now (ctx.txcs k) skb rx create trylock).2.brk,
      ((TxClass.isoStateGet plat now (ctx.txcs k) skb rx create trylock).2.state i).rl =
      .obj j := by
  by_cases hip : skb.isIp
  · have hgot := (h.pooled k).isoStateGet_got now hip rx create trylock
    rw [hstate] at hgot
    obtain ⟨b, hi⟩ := hgot.exists_mem
    have hpooled := hgot.pooled (h.pooled k)
    obtain ⟨j, b', hrl, hj, -⟩ := hpooled.limited b i hi
    exact ⟨j, hpooled.limiters.lt_of_mem_chain hj, hrl⟩
  · rw [TxClass.isoStateGet_of_not_isIp now hip] at hstate
    cases hstate

/-! ### Ways -/

/-- The packet is sent to the limiter at `j` of the class at `k`. -/
structure Routes (plat : Platform) (ctx : TxContext C) (skb : Skb) (k j : ℕ) : Prop where
  isIp : skb.isIp = true
  find : ctx.isoTxcFind plat (isoTxcClassify skb) = some k
  state : ∃ i, (ctx.txcs k).stateBucket (TxClass.stateHash plat (TxClass.peer plat skb false)) =
    [i] ∧ ((ctx.txcs k).state i).rl = .obj j

/-- The two packets are from the same address to the same address. -/
def SameFlow (skb skb' : Skb) : Prop :=
  skb'.isIp = skb.isIp ∧ skb'.saddr = skb.saddr ∧ skb'.daddr = skb.daddr

instance (skb skb' : Skb) : Decidable (SameFlow skb skb') := inferInstanceAs (Decidable (_ ∧ _))

variable {skb skb' : Skb} {k j : ℕ}

theorem Routes.sameFlow (h : Routes plat ctx skb k j) (hflow : SameFlow skb skb') :
    Routes plat ctx skb' k j := by
  obtain ⟨hip, hsaddr, hdaddr⟩ := hflow
  have hclass : isoTxcClassify skb' = isoTxcClassify skb := by
    rw [isoTxcClassify, isoTxcClassify, hip, hsaddr]
  have hpeer : TxClass.peer plat skb' false = TxClass.peer plat skb false :=
    congrArg plat.ntohl hdaddr
  exact ⟨hip.trans h.isIp, hclass ▸ h.find, hpeer ▸ h.state⟩

/-- A way stays when the indexes stay and the classes keep their states. -/
theorem Routes.congr (h : Routes plat ctx skb k j)
    (hfind : ctx'.isoTxcFind plat (isoTxcClassify skb) = some k)
    (hkept : (ctx.txcs k).Kept (ctx'.txcs k)) : Routes plat ctx' skb k j := by
  obtain ⟨i, hchain, hrl⟩ := h.state
  exact ⟨h.isIp, hfind, i, hkept.chain _ i hchain, (hkept.rl _ i hchain).trans hrl⟩

theorem Routes.sameIndex (h : Routes plat ctx skb k j) (same : TxContext.SameIndex ctx ctx') :
    Routes plat ctx' skb k j :=
  h.congr ((same.isoTxcFind_eq plat _).trans h.find) (same.txc k).kept

theorem Routes.modifyTxc (h : Routes plat ctx skb k j) {k' : ℕ} {f : TxClass C → TxClass C}
    (hkept : (ctx.txcs k').Kept (f (ctx.txcs k'))) : Routes plat (ctx.modifyTxc k' f) skb k j := by
  refine h.congr ?_ ?_
  · rw [← h.find]
    unfold TxContext.isoTxcFind TxContext.modifyTxc
    simp only [field_update TxClass.klass ctx.txcs hkept.klass]
  · show (ctx.txcs k).Kept (Function.update ctx.txcs k' (f (ctx.txcs k')) k)
    by_cases hk : k = k'
    · subst hk
      rw [Function.update_self]
      exact hkept
    · rw [Function.update_of_ne hk]
      exact .refl _

theorem Routes.link (h : Routes plat ctx skb k j) (hindexed : ctx.Indexed plat) {txc : TxClass C}
    (hnew : ctx.isoTxcFind plat txc.klass = none) :
    Routes plat (ctx.link plat txc.klass txc) skb k j := by
  have hne : txc.klass ≠ isoTxcClassify skb := by
    intro heq
    rw [heq, h.find] at hnew
    exact absurd hnew (Option.some_ne_none k)
  refine h.congr (hindexed.isoTxcFind_link h.find hne) ?_
  show (ctx.txcs k).Kept (Function.update ctx.txcs ctx.brk txc k)
  rw [Function.update_of_ne (hindexed.lt_of_isoTxcFind h.find).ne]
  exact .refl _

/-- `route` finds the way, and no other. -/
theorem Sound.route_iff (h : Sound plat ctx) :
    route plat ctx skb = .ok (some (k, j)) ↔ Routes plat ctx skb k j := by
  constructor
  · intro hroute
    unfold route at hroute
    rcases hfind : ctx.isoTxcFind plat (isoTxcClassify skb) with _ | k'
    · rw [hfind] at hroute
      cases hroute
    rw [hfind] at hroute
    dsimp only at hroute
    by_cases hip : skb.isIp
    · have hgot := (h.pooled k').isoStateGet_got 0 hip false false false
      generalize TxClass.isoStateGet plat 0 (ctx.txcs k') skb false false false =
        found at hroute hgot
      obtain ⟨v, txc⟩ := found
      dsimp only at hroute hgot
      cases hgot with
      | found i hchain =>
        obtain ⟨j', -, hrl, -, -⟩ := (h.pooled k').limited _ i (hchain ▸ List.mem_singleton_self i)
        dsimp only at hroute
        rw [hrl] at hroute
        cases hroute
        exact ⟨hip, hfind, i, hchain, hrl⟩
      | refused => cases hroute
      | exhausted _ hcreate => cases hcreate
      | taken _ _ _ _ _ hcreate => cases hcreate
    · rw [TxClass.isoStateGet_of_not_isIp 0 hip] at hroute
      cases hroute
  · rintro ⟨hip, hfind, i, hchain, hrl⟩
    have hget : TxClass.isoStateGet plat 0 (ctx.txcs k) skb false false false =
        (.obj i, ctx.txcs k) := by
      unfold TxClass.isoStateGet
      rw [if_neg (not_not_intro hip)]
      dsimp only
      rw [TxClass.scanState_of_eq_singleton hchain]
    unfold route
    rw [hfind]
    dsimp only
    rw [hget]
    dsimp only
    rw [hrl]
    rfl

/-- The limiter that a packet is sent to exists. -/
theorem Sound.lt_of_routes (h : Sound plat ctx) (hroutes : Routes plat ctx skb k j) :
    k < ctx.brk ∧ j < (ctx.txcs k).brk := by
  obtain ⟨i, hchain, hrl⟩ := hroutes.state
  obtain ⟨j', b, hrl', hj, -⟩ := (h.pooled k).limited _ i (hchain ▸ List.mem_singleton_self i)
  obtain rfl : j' = j := Ptr.obj.inj (hrl'.symm.trans hrl)
  exact ⟨h.indexed.lt_of_isoTxcFind hroutes.find, (h.pooled k).limiters.lt_of_mem_chain hj⟩

end Node

end EyeQ
