import EyeQ.Dev.Basic
import EyeQ.Keyed.Basic
import EyeQ.Machine.Simulation

/-!
# The configuration of a device

What the commands are for: a device has VQs and classes, each with a weight and perhaps a cap, and a
class may be associated with a VQ.  `Setup` is such a configuration, with the names and numbers that
a user gives and none of the lists, hash tables and addresses; and its commands are what a user
expects of those that create VQs and classes, set their weights and associate them.  A command that
is refused is `none`.

A configuration is kept as a list of entries, and restored by creating them again, VQs first
(`restored`).  `restored_same_iff` says which configurations survive that.

`Host.setup` is the configuration that a device has, as `iso_stats_proc_seq_show` walks it.
-/

namespace EyeQ

structure VqSetup where
  klass : UInt32
  weight : ℕ
  cap : Option ℕ
deriving DecidableEq

structure TxcSetup where
  klass : UInt32
  weight : ℕ
  /-- The class of the VQ. -/
  assoc : Option UInt32
  cap : Option ℕ
deriving DecidableEq

structure Setup where
  vqs : List VqSetup := []
  txcs : List TxcSetup := []

namespace Setup

open Keyed Machine

/-! ### Commands -/

/-- The range of a weight. -/
def InRange (weight : ℤ) : Prop := 0 ≤ weight ∧ weight ≤ 1024

instance (weight : ℤ) : Decidable (InRange weight) := inferInstanceAs (Decidable (_ ∧ _))

def onVqs (f : List VqSetup → Option (List VqSetup)) (m : Setup) : Option Setup :=
  (f m.vqs).map fun vqs => { m with vqs := vqs }

def onTxcs (f : List TxcSetup → Option (List TxcSetup)) (m : Setup) : Option Setup :=
  (f m.txcs).map fun txcs => { m with txcs := txcs }

def createVq (klass : UInt32) : Setup → Option Setup :=
  onVqs (install VqSetup.klass ⟨klass, 1, none⟩)

def setVqWeight (klass : UInt32) (weight : ℤ) (m : Setup) : Option Setup :=
  if InRange weight then m.onVqs (edit VqSetup.klass klass fun vq =>
    { vq with weight := weight.toNat })
  else none

def createTxc (klass : UInt32) : Setup → Option Setup :=
  onTxcs (install TxcSetup.klass ⟨klass, 1, none, none⟩)

def setTxcWeight (klass : UInt32) (weight : ℤ) (m : Setup) : Option Setup :=
  if InRange weight then m.onTxcs (edit TxcSetup.klass klass fun txc =>
    { txc with weight := weight.toNat })
  else none

def assocTxcVq (txclass vqclass : UInt32) (m : Setup) : Option Setup :=
  if vqclass ∈ keys VqSetup.klass m.vqs then
    m.onTxcs (edit TxcSetup.klass txclass fun txc => { txc with assoc := some vqclass })
  else none

/-- One of the commands. -/
inductive Command where
  | createVq (klass : UInt32)
  | setVqWeight (klass : UInt32) (weight : ℤ)
  | createTxc (klass : UInt32)
  | setTxcWeight (klass : UInt32) (weight : ℤ)
  | assocTxcVq (txclass vqclass : UInt32)

def exec (m : Setup) : Command → Option Setup
  | .createVq klass => m.createVq klass
  | .setVqWeight klass weight => m.setVqWeight klass weight
  | .createTxc klass => m.createTxc klass
  | .setTxcWeight klass weight => m.setTxcWeight klass weight
  | .assocTxcVq txclass vqclass => m.assocTxcVq txclass vqclass

/-! ### The order does not matter -/

/-- The same VQs and classes, in any order. -/
structure Same (m m' : Setup) : Prop where
  vqs : m.vqs.Perm m'.vqs
  txcs : m.txcs.Perm m'.txcs

namespace Same

variable {m m' m'' : Setup}

theorem refl (m : Setup) : Same m m := ⟨.refl _, .refl _⟩

theorem symm (h : Same m m') : Same m' m := ⟨h.vqs.symm, h.txcs.symm⟩

theorem trans (h : Same m m') (h' : Same m' m'') : Same m m'' :=
    ⟨h.vqs.trans h'.vqs, h.txcs.trans h'.txcs⟩

theorem onVqs (h : Same m m') {f : List VqSetup → Option (List VqSetup)}
    (hf : Option.Rel List.Perm (f m.vqs) (f m'.vqs)) : Option.Rel Same (m.onVqs f) (m'.onVqs f) :=
  rel_map hf fun _ _ hvqs => ⟨hvqs, h.txcs⟩

theorem onTxcs (h : Same m m') {f : List TxcSetup → Option (List TxcSetup)}
    (hf : Option.Rel List.Perm (f m.txcs) (f m'.txcs)) :
    Option.Rel Same (m.onTxcs f) (m'.onTxcs f) :=
  rel_map hf fun _ _ htxcs => ⟨h.vqs, htxcs⟩

theorem createVq (h : Same m m') (klass : UInt32) :
    Option.Rel Same (m.createVq klass) (m'.createVq klass) :=
  h.onVqs (rel_install h.vqs _)

theorem setVqWeight (h : Same m m') (klass : UInt32) (weight : ℤ) :
    Option.Rel Same (m.setVqWeight klass weight) (m'.setVqWeight klass weight) := by
  unfold Setup.setVqWeight
  split_ifs
  · exact h.onVqs (rel_edit h.vqs _ _)
  · exact .none

theorem createTxc (h : Same m m') (klass : UInt32) :
    Option.Rel Same (m.createTxc klass) (m'.createTxc klass) :=
  h.onTxcs (rel_install h.txcs _)

theorem setTxcWeight (h : Same m m') (klass : UInt32) (weight : ℤ) :
    Option.Rel Same (m.setTxcWeight klass weight) (m'.setTxcWeight klass weight) := by
  unfold Setup.setTxcWeight
  split_ifs
  · exact h.onTxcs (rel_edit h.txcs _ _)
  · exact .none

theorem assocTxcVq (h : Same m m') (txclass vqclass : UInt32) :
    Option.Rel Same (m.assocTxcVq txclass vqclass) (m'.assocTxcVq txclass vqclass) := by
  unfold Setup.assocTxcVq
  simp only [mem_keys_of_perm h.vqs]
  split_ifs
  · exact h.onTxcs (rel_edit h.txcs _ _)
  · exact .none

theorem exec (h : Same m m') (c : Command) : Option.Rel Same (m.exec c) (m'.exec c) := by
  cases c with
  | createVq klass => exact h.createVq klass
  | setVqWeight klass weight => exact h.setVqWeight klass weight
  | createTxc klass => exact h.createTxc klass
  | setTxcWeight klass weight => exact h.setTxcWeight klass weight
  | assocTxcVq txclass vqclass => exact h.assocTxcVq txclass vqclass

end Same

/-! ### Entries -/

/-- A VQ with a weight. -/
structure VqEntry where
  klass : UInt32
  weight : ℤ

/-- A class with a weight, and the VQ it is associated with. -/
structure TxcEntry where
  klass : UInt32
  weight : ℤ
  assoc : Option UInt32

def loadVq (m : Setup) (vq : VqEntry) : Option Setup :=
  (m.createVq vq.klass).bind (setVqWeight vq.klass vq.weight)

def loadTxc (m : Setup) (txc : TxcEntry) : Option Setup :=
  ((m.createTxc txc.klass).bind (setTxcWeight txc.klass txc.weight)).bind fun m =>
    txc.assoc.bind fun vqclass => m.assocTxcVq txc.klass vqclass

/-! ### What loading gives -/

def VqEntry.setup (vq : VqEntry) : VqSetup := ⟨vq.klass, vq.weight.toNat, none⟩

def TxcEntry.setup (txc : TxcEntry) : TxcSetup := ⟨txc.klass, txc.weight.toNat, txc.assoc, none⟩

/-- The class is associated with one of the VQs, and its weight is in range. -/
def TxcEntry.Loadable (vqs : List VqSetup) (txc : TxcEntry) : Prop :=
  InRange txc.weight ∧ ∃ vqclass ∈ keys VqSetup.klass vqs, txc.assoc = some vqclass

instance (vqs : List VqSetup) : DecidablePred (TxcEntry.Loadable vqs) :=
  fun txc => inferInstanceAs (Decidable (InRange txc.weight ∧ ∃ vqclass ∈ _,
    txc.assoc = some vqclass))

theorem onVqs_bind_onVqs (f g : List VqSetup → Option (List VqSetup)) (m : Setup) :
    (m.onVqs f).bind (onVqs g) = m.onVqs fun l => (f l).bind g := by
  unfold onVqs
  dsimp only
  cases f m.vqs <;> rfl

theorem onTxcs_bind_onTxcs (f g : List TxcSetup → Option (List TxcSetup)) (m : Setup) :
    (m.onTxcs f).bind (onTxcs g) = m.onTxcs fun l => (f l).bind g := by
  unfold onTxcs
  dsimp only
  cases f m.txcs <;> rfl

theorem onTxcs_bind_assocTxcVq (f : List TxcSetup → Option (List TxcSetup))
    (txclass vqclass : UInt32) (m : Setup) :
    (m.onTxcs f).bind (assocTxcVq txclass vqclass) = if vqclass ∈ keys VqSetup.klass m.vqs then
      m.onTxcs fun l => (f l).bind
      (edit TxcSetup.klass txclass fun txc => { txc with assoc := some vqclass })
    else none := by
  unfold onTxcs assocTxcVq
  dsimp only
  cases f m.txcs with
  | none => simp
  | some l => rfl

theorem loadVq_eq (m : Setup) (vq : VqEntry) :
    m.loadVq vq = if InRange vq.weight then m.onVqs (install VqSetup.klass vq.setup) else none := by
  unfold loadVq setVqWeight
  split_ifs
  · rw [createVq, onVqs_bind_onVqs]
    congr 1
    funext l
    exact @install_bind_edit _ _ VqSetup.klass _ ⟨vq.klass, 1, none⟩ _ rfl l
  · rw [Option.bind_fun_none]

theorem loadTxc_eq (m : Setup) (txc : TxcEntry) :
    m.loadTxc txc = if txc.Loadable m.vqs then m.onTxcs
      (install TxcSetup.klass txc.setup) else none := by
  obtain ⟨klass, weight, assoc⟩ := txc
  have hweight : (m.createTxc klass).bind (setTxcWeight klass weight) =
      if InRange weight then m.onTxcs
        (install TxcSetup.klass ⟨klass, weight.toNat, none, none⟩) else none := by
    unfold setTxcWeight
    split_ifs
    · rw [createTxc, onTxcs_bind_onTxcs]
      congr 1
      funext l
      exact @install_bind_edit _ _ TxcSetup.klass _ ⟨klass, 1, none, none⟩ _ rfl l
    · rw [Option.bind_fun_none]
  rw [loadTxc, hweight]
  unfold TxcEntry.Loadable
  dsimp only
  cases assoc with
  | none => simp
  | some vqclass =>
    by_cases hrange : InRange weight
    · have hassoc : ∀ l, (install TxcSetup.klass ⟨klass, weight.toNat, none, none⟩ l).bind
          (edit TxcSetup.klass klass fun txc => { txc with assoc := some vqclass }) =
          install TxcSetup.klass ⟨klass, weight.toNat, some vqclass, none⟩ l :=
        fun l => @install_bind_edit _ _ TxcSetup.klass _ ⟨klass, weight.toNat, none, none⟩ _ rfl l
      rw [if_pos hrange]
      simp only [Option.bind_some, onTxcs_bind_assocTxcVq, hassoc, hrange, true_and,
        Option.some.injEq, exists_eq_right', TxcEntry.setup]
    · simp [hrange]

theorem foldlM_loadVq (vqs : List VqEntry) (m : Setup) :
    vqs.foldlM loadVq m =
      m.onVqs (load VqSetup.klass (fun vq : VqEntry => InRange vq.weight) VqEntry.setup vqs) := by
  induction vqs generalizing m with
  | nil => rfl
  | cons vq vqs ih =>
    rw [List.foldlM_cons, loadVq_eq]
    unfold load onVqs
    dsimp only
    rw [List.foldlM_cons]
    split_ifs with hrange
    · cases install VqSetup.klass vq.setup m.vqs with
      | none => rfl
      | some l => exact ih _
    · rfl

/-- VQs are loaded exactly if they have different classes and weights in range. -/
theorem loadVqs_eq_some_iff {vqs : List VqEntry} {m : Setup} :
    vqs.foldlM loadVq {} = some m ↔ (keys VqSetup.klass (vqs.map VqEntry.setup)).Nodup ∧
      (∀ vq ∈ vqs, InRange vq.weight) ∧ m = { vqs := vqs.map VqEntry.setup } := by
  rw [foldlM_loadVq, onVqs, Option.map_eq_some_iff]
  simp only [load_eq_some_iff]
  constructor
  · rintro ⟨_, ⟨hnodup, hrange, rfl⟩, rfl⟩
    exact ⟨hnodup, hrange, rfl⟩
  · rintro ⟨hnodup, hrange, rfl⟩
    exact ⟨_, ⟨hnodup, hrange, rfl⟩, rfl⟩

theorem foldlM_loadTxc (txcs : List TxcEntry) (m : Setup) :
    txcs.foldlM loadTxc m = m.onTxcs
      (load TxcSetup.klass (TxcEntry.Loadable m.vqs) TxcEntry.setup txcs) := by
  induction txcs generalizing m with
  | nil => rfl
  | cons txc txcs ih =>
    rw [List.foldlM_cons, loadTxc_eq]
    unfold load onTxcs
    dsimp only
    rw [List.foldlM_cons]
    by_cases hload : txc.Loadable m.vqs
    · rw [if_pos hload, if_pos hload]
      cases install TxcSetup.klass txc.setup m.txcs with
      | none => rfl
      | some l => exact ih _
    · rw [if_neg hload, if_neg hload]
      rfl

/-- Classes are loaded exactly if they are different, have weights in range, and are associated with
VQs. -/
theorem loadTxcs_eq_some_iff {vqs : List VqSetup} {txcs : List TxcEntry} {m : Setup} :
    txcs.foldlM loadTxc { vqs := vqs } = some m ↔
    (keys TxcSetup.klass (txcs.map TxcEntry.setup)).Nodup ∧
      (∀ txc ∈ txcs, txc.Loadable vqs) ∧ m = { vqs := vqs, txcs := txcs.map TxcEntry.setup } := by
  rw [foldlM_loadTxc, onTxcs, Option.map_eq_some_iff]
  simp only [load_eq_some_iff]
  constructor
  · rintro ⟨_, ⟨hnodup, hload, rfl⟩, rfl⟩
    exact ⟨hnodup, hload, rfl⟩
  · rintro ⟨hnodup, hload, rfl⟩
    exact ⟨_, ⟨hnodup, hload, rfl⟩, rfl⟩

end Setup

/-! ### Restoring a configuration -/

/-- What is kept of a VQ.  Its weight comes back as an `int`. -/
def VqSetup.entry (vq : VqSetup) : Setup.VqEntry := ⟨vq.klass, s32 vq.weight⟩

/-- What is kept of a class. -/
def TxcSetup.entry (txc : TxcSetup) : Setup.TxcEntry := ⟨txc.klass, s32 txc.weight, txc.assoc⟩

namespace Setup

open Keyed

/-- Create the VQs of `saved`. -/
def loadVqs (saved m : Setup) : Option Setup := (saved.vqs.map VqSetup.entry).foldlM loadVq m

/-- Create the classes of `saved`. -/
def loadTxcs (saved m : Setup) : Option Setup := (saved.txcs.map TxcSetup.entry).foldlM loadTxc m

/-- Create everything that is in `saved`, where there is nothing. -/
def restored (saved : Setup) : Option Setup := (saved.loadVqs {}).bind saved.loadTxcs

/-- Nothing has a cap, weights are in range, and every class is associated with one of the VQs. -/
structure Restorable (m : Setup) : Prop where
  vqKeys : (keys VqSetup.klass m.vqs).Nodup
  txcKeys : (keys TxcSetup.klass m.txcs).Nodup
  vqs : ∀ vq ∈ m.vqs, vq.weight ≤ 1024 ∧ vq.cap = none
  txcs : ∀ txc ∈ m.txcs, txc.weight ≤ 1024 ∧ txc.cap = none ∧
    ∃ vqclass ∈ keys VqSetup.klass m.vqs, txc.assoc = some vqclass

variable {m m' : Setup}

theorem restored_eq_some_iff : m.restored = some m' ↔
    (keys VqSetup.klass ((m.vqs.map VqSetup.entry).map VqEntry.setup)).Nodup ∧
      (∀ vq ∈ m.vqs, InRange vq.entry.weight) ∧
    (keys TxcSetup.klass ((m.txcs.map TxcSetup.entry).map TxcEntry.setup)).Nodup ∧
      (∀ txc ∈ m.txcs, txc.entry.Loadable ((m.vqs.map VqSetup.entry).map VqEntry.setup)) ∧
    m' = { vqs := (m.vqs.map VqSetup.entry).map VqEntry.setup
           txcs := (m.txcs.map TxcSetup.entry).map TxcEntry.setup } := by
  rw [restored, Option.bind_eq_some_iff]
  unfold loadVqs loadTxcs
  simp only [loadVqs_eq_some_iff]
  constructor
  · rintro ⟨_, ⟨hvqKeys, hvqs, rfl⟩, h⟩
    obtain ⟨htxcKeys, htxcs, rfl⟩ := loadTxcs_eq_some_iff.mp h
    exact ⟨hvqKeys, fun vq hvq => hvqs _ (List.mem_map_of_mem hvq), htxcKeys,
      List.forall_mem_map.mp htxcs, rfl⟩
  · rintro ⟨hvqKeys, hvqs, htxcKeys, htxcs, rfl⟩
    exact ⟨_, ⟨hvqKeys, List.forall_mem_map.mpr hvqs, rfl⟩,
      loadTxcs_eq_some_iff.mpr ⟨htxcKeys, List.forall_mem_map.mpr htxcs, rfl⟩⟩

/-- A weight in range is read as it was printed. -/
theorem s32_weight {weight : ℕ} (h : weight ≤ 1024) : s32 weight = weight := by
  apply s32_of_fits
  · omega
  · omega

theorem inRange_s32 {weight : ℕ} (h : weight ≤ 1024) : InRange (s32 weight) := by
  rw [s32_weight h]
  exact ⟨by omega, by omega⟩

/-- A configuration is restored as it was exactly if it is restorable. -/
theorem restored_same_iff : (∃ m', m.restored = some m' ∧ m'.Same m) ↔ m.Restorable := by
  constructor
  · rintro ⟨m', hrestored, hsame⟩
    obtain ⟨hvqKeys, hvqs, htxcKeys, htxcs, rfl⟩ := restored_eq_some_iff.mp hrestored
    have hkeys : ∀ k, k ∈ keys VqSetup.klass ((m.vqs.map VqSetup.entry).map VqEntry.setup) ↔
        k ∈ keys VqSetup.klass m.vqs := fun k => mem_keys_of_perm hsame.vqs
    refine ⟨(hsame.vqs.map VqSetup.klass).nodup_iff.mp hvqKeys,
      (hsame.txcs.map TxcSetup.klass).nodup_iff.mp htxcKeys, fun vq hvq => ?_, fun txc htxc => ?_⟩
    · -- what is there is what was restored
      have hmem := hsame.vqs.mem_iff.mpr hvq
      simp only [List.map_map, List.mem_map, Function.comp_apply] at hmem
      obtain ⟨vq', hvq', rfl⟩ := hmem
      obtain ⟨-, hrange⟩ := hvqs vq' hvq'
      have hweight : vq'.entry.setup.weight = vq'.entry.weight.toNat := by rw [VqEntry.setup]
      exact ⟨by omega, rfl⟩
    · have hmem := hsame.txcs.mem_iff.mpr htxc
      simp only [List.map_map, List.mem_map, Function.comp_apply] at hmem
      obtain ⟨txc', htxc', rfl⟩ := hmem
      obtain ⟨⟨-, hrange⟩, vqclass, hvqclass, hassoc⟩ := htxcs txc' htxc'
      have hweight : txc'.entry.setup.weight = txc'.entry.weight.toNat := by rw [TxcEntry.setup]
      exact ⟨by omega, rfl, vqclass, (hkeys vqclass).mp hvqclass, hassoc⟩
  · intro h
    have hvqs : (m.vqs.map VqSetup.entry).map VqEntry.setup = m.vqs := by
      rw [List.map_map]
      refine (List.map_congr_left fun vq hvq => ?_).trans (List.map_id m.vqs)
      obtain ⟨hweight, hcap⟩ := h.vqs vq hvq
      simp [VqSetup.entry, VqEntry.setup, s32_weight hweight, ← hcap]
    have htxcs : (m.txcs.map TxcSetup.entry).map TxcEntry.setup = m.txcs := by
      rw [List.map_map]
      refine (List.map_congr_left fun txc htxc => ?_).trans (List.map_id m.txcs)
      obtain ⟨hweight, hcap, -⟩ := h.txcs txc htxc
      simp [TxcSetup.entry, TxcEntry.setup, s32_weight hweight, ← hcap]
    have hvqRange : ∀ vq ∈ m.vqs, InRange vq.entry.weight := by
      intro vq hvq
      have hrange := inRange_s32 (h.vqs vq hvq).1
      simpa only [VqSetup.entry] using hrange
    have htxcRange : ∀ txc ∈ m.txcs, InRange txc.entry.weight := by
      intro txc htxc
      have hrange := inRange_s32 (h.txcs txc htxc).1
      simpa only [TxcSetup.entry] using hrange
    refine ⟨m, restored_eq_some_iff.mpr ?_, Same.refl m⟩
    rw [hvqs, htxcs]
    exact ⟨h.vqKeys, hvqRange, h.txcKeys,
      fun txc htxc => ⟨htxcRange txc htxc, (h.txcs txc htxc).2.2⟩, rfl⟩

end Setup

/-! ### The configuration of a device -/

variable {C : Type}

def Vq.setup (vq : Vq C) : VqSetup :=
  ⟨vq.klass, vq.weight, if vq.isStatic then some vq.rate else none⟩

def TxClass.setup (rx : RxContext C) (txc : TxClass C) : TxcSetup where
  klass := txc.klass
  weight := txc.weight
  assoc := txc.vq.map fun v => (rx.vqs v).klass
  cap := if txc.isStatic then some txc.maxRate else none

def Host.setup (d : Host C) : Setup where
  vqs := d.rx.vqList.map fun v => (d.rx.vqs v).setup
  txcs := d.tx.hashed.map fun k => (d.tx.txcs k).setup d.rx

end EyeQ
