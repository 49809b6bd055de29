import EyeQ.Machine.Fallible
import EyeQ.Rx.Context

/-!
# What the commands on VQs leave alone

`iso_sys_set_vq_weight`, `iso_sys_set_vq_rate` and `iso_vq_calculate_rates` write the rate, the
weight and the cap of VQs, and nothing else (`Reconfigured`).
-/

namespace EyeQ

open Machine

variable {C : Type} {plat : Platform} {p : Params}

/-- The two VQs differ in their configuration only. -/
def Vq.Reconfigured (vq vq' : Vq C) : Prop :=
  ∃ rate weight isStatic, vq' = { vq with rate := rate, weight := weight, isStatic := isStatic }

theorem Vq.Reconfigured.trans {vq vq' vq'' : Vq C} (h : vq.Reconfigured vq')
    (h' : vq'.Reconfigured vq'') :
    vq.Reconfigured vq'' := by
  obtain ⟨_, _, _, rfl⟩ := h
  obtain ⟨rate, weight, isStatic, rfl⟩ := h'
  exact ⟨rate, weight, isStatic, rfl⟩

namespace RxContext

/-- The two contexts have the same VQs, but for their configuration. -/
structure Reconfigured (ctx ctx' : RxContext C) : Prop where
  vqList : ctx'.vqList = ctx.vqList
  vqBucket : ctx'.vqBucket = ctx.vqBucket
  brk : ctx'.brk = ctx.brk
  vq : ∀ v, (ctx.vqs v).Reconfigured (ctx'.vqs v)

variable {ctx ctx' : RxContext C}

theorem Reconfigured.refl (ctx : RxContext C) : Reconfigured ctx ctx :=
  ⟨rfl, rfl, rfl, fun _ => ⟨_, _, _, rfl⟩⟩

theorem Reconfigured.modifyVq (h : Reconfigured ctx ctx') (v : ℕ) {f : Vq C → Vq C}
    (hf : ∀ vq : Vq C, vq.Reconfigured (f vq)) : Reconfigured ctx (ctx'.modifyVq v f) where
  vqList := h.vqList
  vqBucket := h.vqBucket
  brk := h.brk
  vq := by
    intro v'
    simp only [RxContext.modifyVq, Function.update_apply]
    split_ifs with hv
    · subst hv
      exact (h.vq v').trans (hf _)
    · exact h.vq v'

/-- What a field of a VQ that is no configuration reads is as it was. -/
theorem Reconfigured.field {β : Type} (h : Reconfigured ctx ctx') (field : Vq C → β)
    (hfield : ∀ (vq : Vq C) rate weight isStatic,
      field { vq with rate := rate, weight := weight, isStatic := isStatic } = field vq) (v : ℕ) :
    field (ctx'.vqs v) = field (ctx.vqs v) := by
  obtain ⟨rate, weight, isStatic, heq⟩ := h.vq v
  rw [heq, hfield]

theorem Reconfigured.isoVqCalculateRates (h : Reconfigured ctx ctx') :
    Ends (Reconfigured ctx) (fun _ => True) (isoVqCalculateRates p ctx') := by
  rw [RxContext.isoVqCalculateRates]
  refine Ends.ite (fun _ => ?_) fun _ => h
  -- the loop is a run of its body over the list
  refine runE_ends (P := Reconfigured ctx) _ (fun ctx' v (_ : True) h => ?_) h fun _ _ => trivial
  rw [calculateRate]
  refine Ends.ite (fun _ => h) fun _ => (ends_true _).bind fun rate _ => ?_
  exact h.modifyVq v fun _ => ⟨_, _, _, rfl⟩

theorem isoSysSetVqWeight_reconfigured (klass : UInt32) (weight : ℤ) :
    Ends (fun r => Reconfigured ctx r.2) (fun _ => True)
      (isoSysSetVqWeight plat p klass weight ctx) := by
  rw [isoSysSetVqWeight]
  split
  · exact Reconfigured.refl ctx
  · rename_i v _
    refine Ends.ite (fun _ => Reconfigured.refl ctx) fun _ => ?_
    have hweight := (Reconfigured.refl ctx).modifyVq v
      (f := fun vq => { vq with weight := u64OfInt weight }) fun _ => ⟨_, _, _, rfl⟩
    exact hweight.isoVqCalculateRates.bind fun _ h => h

theorem isoSysSetVqRate_reconfigured (klass : UInt32) (rate : ℤ) :
    Ends (fun r => Reconfigured ctx r.2) (fun _ => True)
      (isoSysSetVqRate plat p klass rate ctx) := by
  rw [isoSysSetVqRate]
  split
  · exact Reconfigured.refl ctx
  · rename_i v _
    refine Ends.ite (fun _ => Reconfigured.refl ctx) fun _ => Ends.ite (fun _ => ?_) fun _ => ?_
    · have hcap := (Reconfigured.refl ctx).modifyVq v
        (f := fun vq => { vq with rate := u64OfInt rate, isStatic := true }) fun _ => ⟨_, _, _, rfl⟩
      exact hcap
    · have hfree := (Reconfigured.refl ctx).modifyVq v
        (f := fun vq => { vq with isStatic := false }) fun _ => ⟨_, _, _, rfl⟩
      exact hfree.isoVqCalculateRates.bind fun _ h => h

end RxContext

end EyeQ
