import EyeQ.Perfiso.Equiv.Exact
import EyeQ.Perfiso.Equiv.Load

/-!
# What comes back after `save` and `load_config`

`save` writes for each device what `Host.setup` says, but for the caps (`save_eq`).  `load_config`
then restores the configurations that are `Restorable`, and dies or loses something with all others
(`loadConfig_save_iff`): a static cap is not in the file, and a class without a VQ is in it as
`(none)`, which the shell does not take.

`plainShell` is a shell that does what is documented.
-/

namespace EyeQ.Perfiso

open Text Stats Scanf Sysfs Machine

variable {C : Type} {plat : Platform} {cpus : Cpus C} {tunables : Sysctl → Params} {sh : Shell C}
  {mq : World C → List Char → MqCall} {names saved : List (List Char)} {tool : Tool C}
  {m : List Char → Setup}

/-! ### Parameters -/

theorem paramName_eq {params : List (List Char × List Char)} {name : List Char}
    (h : name ∈ isoParams) :
    Tool.paramName params name = some name := by
  have hdigit : ∀ name ∈ isoParams, name.head?.any Char.isDigit = false := by decide
  rw [Tool.paramName, hdigit name h, if_neg Bool.false_ne_true]

/-- A parameter is set to the value that it had. -/
theorem paramsSet_sim {opened : List (List Char)} (h : Sim plat names opened tool m) {s : Sysctl}
    {param : List Char × List Char} (hparam : param ∈ s.read) :
    Option.Rel (Sim plat names opened) (tool.paramsSet param) (some m) := by
  obtain ⟨⟨name, n⟩, hf, rfl⟩ := List.mem_map.mp hparam
  have hname : name ∈ isoParams := by
    rw [← s.names]
    exact List.mem_map_of_mem hf
  have hn : s32 n = n := s.ints _ hf
  have hwrite : tool.world.sysctl.write name (decInt n) =
      some (tool.world.sysctl.set name n hn) := by
    rw [Sysctl.write, if_pos hname, numeral_decInt, Option.bind_some, dif_pos hn]
  have hset : tool.paramsSet (name, decInt n) =
      some { tool with world := { tool.world with
        sysctl := tool.world.sysctl.set name n hn } } := by
    rw [Tool.paramsSet, paramName_eq hname, Option.bind_eq_bind, Option.bind_some, hwrite]
    rfl
  rw [hset]
  exact .some ⟨h.names, h.opened, h.txcsDev, h.vqsDev, h.mutex, h.alloc, h.netdevs⟩

theorem paramsLoad_sim {opened : List (List Char)} (h : Sim plat names opened tool m) {s : Sysctl}
    {params : List (List Char × List Char)} (hparams : ∀ param ∈ params, param ∈ s.read) :
    Option.Rel (Sim plat names opened) (tool.paramsLoad params) (some m) := by
  have hconst : params.foldlM (fun (m : List Char → Setup) _ => some m) m = some m := by
    induction params with
    | nil => rfl
    | cons param params ih => exact ih fun p hp => hparams p (List.mem_cons_of_mem _ hp)
  rw [← hconst]
  exact rel_foldlM (fun param hp tool m h => paramsSet_sim h (hparams param hp)) h

/-! ### The file -/

/-- `setItem` with keys that are not in the dictionary. -/
theorem foldl_setItem {α β : Type} (key : β → List Char) (value : β → α) {l : List β}
    {d : List (List Char × α)} (hnodup : (l.map key).Nodup)
    (hnew : ∀ b ∈ l, key b ∉ d.map Prod.fst) :
    l.foldl (fun d b => setItem d (key b) (value b)) d = d ++ l.map fun b => (key b, value b) := by
  induction l generalizing d with
  | nil => simp
  | cons b l ih =>
    rw [List.map_cons, List.nodup_cons] at hnodup
    have hnotMem := hnew b List.mem_cons_self
    have hrest : ∀ b' ∈ l, key b' ∉ (d ++ [(key b, value b)]).map Prod.fst := by
      intro b' hb' hmem
      rw [List.map_append, List.mem_append] at hmem
      rcases hmem with hmem | hmem
      · exact hnew b' (List.mem_cons_of_mem _ hb') hmem
      · rw [List.map_singleton, List.mem_singleton] at hmem
        have heq : key b' = key b := hmem
        exact hnodup.1 (heq ▸ List.mem_map_of_mem hb')
    rw [List.foldl_cons, setItem, if_neg hnotMem, ih hnodup.2 hrest,
      List.append_assoc, List.map_cons, List.singleton_append]

/-- What `stats` returns without a filter. -/
theorem outcome_none {ds : List (StatsDev C)} (hnodup : (ds.map fun d => d.name).Nodup) :
    outcome plat none ds = ds.map fun d => ⟨d.name, txcsRead plat d, vqsRead plat d⟩ := by
  have hall : ds.filter (fun d => selects none d.name) = ds :=
    List.filter_eq_self.mpr fun _ _ => rfl
  have hsel : (selected none ds).map Prod.fst = ds := by rw [selected_map_fst, hall]
  rw [outcome]
  conv_rhs => rw [← hsel, List.map_map]
  refine List.map_congr_left fun x hx => ?_
  obtain ⟨hx, -⟩ := mem_selected.mp hx
  rw [(ownVqs_none hnodup).attributed_eq hx rfl]
  rfl

theorem txcsRead_get (d : StatsDev C) : (txcsRead plat d).map TxcData.get =
    d.setup.txcs.map (txcConfig plat) := by
  rw [txcsRead, Host.setup, List.map_map, List.map_map]
  refine List.map_congr_left fun k _ => ?_
  simp only [Function.comp_apply, txcData, TxcData.get, txcConfig, TxClass.setup, assocShow]
  cases (d.tx.txcs k).vq <;> rfl

theorem vqsRead_get (d : StatsDev C) : (vqsRead plat d).map VqData.get =
    d.setup.vqs.map (vqConfig plat) := by
  rw [vqsRead, Host.setup, List.map_map, List.map_map]
  rfl

/-- What `save` writes. -/
theorem save_eq {ds : List (StatsDev C)} (hnames : ∀ d ∈ ds, PlainName d.name)
    (hnodup : (ds.map fun d => d.name).Nodup) {text : List Char}
    (hshow : isoStatsProcSeqShow plat cpus ds = .ok text) (params : List (List Char × List Char)) :
    save params text = some { config := (ds.map fun d => (d.name, d.setup)).map (devConfig plat)
                              params := params } := by
  have hitems := @foldl_setItem _ (StatsDev C) (fun d => d.name) (fun d =>
    (⟨d.setup.txcs.map (txcConfig plat), d.setup.vqs.map (vqConfig plat)⟩ : DevConfig)) ds
      [] hnodup (by simp)
  rw [List.nil_append] at hitems
  rw [save, stats_eq hnames hshow, Option.bind_eq_bind, Option.bind_some,
    outcome_none hnodup, List.foldl_map]
  simp only [txcsRead_get, vqsRead_get, hitems, List.map_map]
  rfl

/-! ### The fresh module -/

/-- The devices that `iso_stats_proc_seq_show` shows are those of which EyeQ is the qdisc. -/
def Shows (s : Sysfs C) (ds : List (StatsDev C)) : Prop :=
  (ds.map fun d => (d.name, d.toHost)).Perm
    ((s.netdevs.filter Netdev.enabled).map fun n => (n.name, n.dev.toHost))

/-- The same devices, with names as the kernel has them that are plain words for the shell. -/
structure SameDevices (source target : Sysfs C) : Prop where
  perm : (devices source).Perm (devices target)
  short : ∀ name ∈ devices source, name.length < Sysfs.ifnamsiz
  distinct : (devices source).Nodup
  literal : ∀ name ∈ devices source, Literal name

/-- Nothing has been created, and there will be memory for what is. -/
structure Fresh (w : World C) : Prop where
  mutex : w.sysfs.configMutex = false
  alloc : ∀ i, (w.env i).kmalloc ≠ .fail
  init : ∀ n ∈ w.sysfs.netdevs, n.enabled = true → ∃ p statsNow rcpNow,
    n.dev = .init p statsNow rcpNow

theorem SameDevices.named {source target : Sysfs C} (h : SameDevices source target) :
    Named (devices target) (devices source) where
  short := fun name hname => h.short name (h.perm.mem_iff.mpr hname)
  distinct := h.perm.nodup_iff.mp h.distinct
  there := fun _ hname => h.perm.mem_iff.mp hname
  literal := h.literal

theorem Literal.plainName {name : List Char} (h : Literal name) : PlainName name := by
  intro c hc
  have hliteral := h.literal c hc
  refine ⟨?_, ?_⟩
  · by_contra hspace
    rw [Bool.not_eq_false, Perfiso.isSpace, decide_eq_true_eq] at hspace
    fin_cases hspace
    all_goals exact absurd hliteral (by decide)
  · rintro rfl
    exact absurd hliteral (by decide)

variable {s : Sysfs C} {ds : List (StatsDev C)}

theorem Shows.mem_iff (h : Shows s ds) {name : List Char} {host : Host C} :
    (∃ d ∈ ds, d.name = name ∧ d.toHost = host) ↔
      ∃ n ∈ s.netdevs, n.enabled = true ∧ n.name = name ∧ n.dev.toHost = host := by
  have hmem := List.Perm.mem_iff (a := (name, host)) h
  simpa only [List.mem_map, List.mem_filter, Prod.mk.injEq, and_assoc] using hmem

theorem Shows.exists_dev (h : Shows s ds) {n : Netdev C} (hn : n ∈ s.netdevs)
    (henabled : n.enabled = true) :
    ∃ d ∈ ds, d.name = n.name ∧ d.toHost = n.dev.toHost := h.mem_iff.mpr ⟨n, hn, henabled, rfl, rfl⟩

theorem Shows.exists_netdev (h : Shows s ds) {d : StatsDev C} (hd : d ∈ ds) :
    ∃ n ∈ s.netdevs, n.enabled = true ∧ n.name = d.name ∧ n.dev.toHost = d.toHost :=
  h.mem_iff.mp ⟨d, hd, rfl, rfl⟩

theorem Shows.nodup (h : Shows s ds) (hnodup : (devices s).Nodup) :
    (ds.map fun d => d.name).Nodup := by
  have hperm := h.map Prod.fst
  rw [List.map_map, List.map_map] at hperm
  refine hperm.nodup_iff.mpr ?_
  exact hnodup.sublist (List.filter_sublist.map Netdev.name)

/-- Of a fresh module, nothing is shown but the names of its devices. -/
theorem Fresh.outcome_eq {w : World C} (h : Fresh w) (hds : Shows w.sysfs ds)
    (hnodup : (devices w.sysfs).Nodup) :
    outcome plat none ds = ds.map fun d => ⟨d.name, [], []⟩ := by
  rw [outcome_none (hds.nodup hnodup)]
  refine List.map_congr_left fun d hd => ?_
  obtain ⟨n, hn, henabled, -, hhost⟩ := hds.exists_netdev hd
  obtain ⟨p, statsNow, rcpNow, hinit⟩ := h.init n hn henabled
  have hsame := (Dev.init_holds plat p statsNow rcpNow (C := C)).same
  rw [← hinit, hhost] at hsame
  have htxcs : d.tx.hashed = [] := List.map_eq_nil_iff.mp hsame.txcs.eq_nil
  have hvqs : d.rx.vqList = [] := List.map_eq_nil_iff.mp hsame.vqs.eq_nil
  rw [txcsRead, vqsRead, htxcs, hvqs, List.map_nil, List.map_nil]

/-- The program has found nothing when it starts. -/
theorem start_sim {w : World C} (h : Fresh w) (hdistinct : (devices w.sysfs).Nodup)
    (hliteral : ∀ name ∈ devices w.sysfs, Literal name) {ds₁ ds₂ : List (StatsDev C)}
    (hds₁ : Shows w.sysfs ds₁) (hds₂ : Shows w.sysfs ds₂) {text₁ text₂ : List Char}
    (htext₁ : isoStatsProcSeqShow plat cpus ds₁ = .ok text₁)
    (htext₂ : isoStatsProcSeqShow plat cpus ds₂ = .ok text₂) :
    ∃ tool, start text₁ text₂ w = some tool ∧ Sim plat (devices w.sysfs) [] tool fun _ => {} := by
  have hplain : ∀ ds, Shows w.sysfs ds → ∀ d ∈ ds, PlainName d.name := by
    intro ds hds d hd
    obtain ⟨n, hn, -, hname, -⟩ := hds.exists_netdev hd
    rw [← hname]
    exact (hliteral _ (List.mem_map_of_mem hn)).plainName
  obtain ⟨st₁, hread₁, hst₁⟩ := @readStats_hasRead C plat cpus none ds₁
    (hplain ds₁ hds₁) text₁ htext₁
  obtain ⟨st₂, hread₂, hst₂⟩ := @readStats_hasRead C plat cpus none ds₂
    (hplain ds₂ hds₂) text₂ htext₂
  have hstats₁ := @stats_eq C plat cpus none ds₁ (hplain ds₁ hds₁) text₁ htext₁
  have hstats₂ := @stats_eq C plat cpus none ds₂ (hplain ds₂ hds₂) text₂ htext₂
  rw [h.outcome_eq hds₁ hdistinct] at hstats₁
  rw [h.outcome_eq hds₂ hdistinct] at hstats₂
  refine ⟨_, by rw [start, hread₁, hstats₁, hread₂, hstats₂]; rfl, rfl, ?_, ?_, ?_,
    h.mutex, h.alloc, ?_⟩
  · exact fun _ hname => absurd hname List.not_mem_nil
  · intro name
    rw [List.flatMap_eq_nil_iff]
    intro d hd
    obtain ⟨e, -, rfl⟩ := List.mem_map.mp (List.mem_filter.mp hd).1
    rfl
  · intro name
    rw [List.flatMap_eq_nil_iff]
    intro d hd
    obtain ⟨e, -, rfl⟩ := List.mem_map.mp (List.mem_filter.mp hd).1
    rfl
  · intro n hn
    refine ⟨⟨fun hmem => ?_, fun henabled => ?_⟩, fun henabled => ?_, fun _ => rfl⟩
    · -- what is shown under this name is this device
      have hshown : ∃ n' ∈ w.sysfs.netdevs, n'.enabled = true ∧ n'.name = n.name := by
        rw [hst₁.created, hst₂.created, List.mem_append, List.mem_reverse, List.mem_reverse] at hmem
        rcases hmem with hmem | hmem
        · obtain ⟨d, hd, hname⟩ := List.mem_map.mp hmem
          obtain ⟨n', hn', henabled, hname', -⟩ := hds₂.exists_netdev hd
          exact ⟨n', hn', henabled, hname'.trans hname⟩
        · obtain ⟨d, hd, hname⟩ := List.mem_map.mp hmem
          obtain ⟨n', hn', henabled, hname', -⟩ := hds₁.exists_netdev hd
          exact ⟨n', hn', henabled, hname'.trans hname⟩
      obtain ⟨n', hn', henabled, hname⟩ := hshown
      rwa [← List.inj_on_of_nodup_map hdistinct hn' hn hname]
    · obtain ⟨d, hd, hname, -⟩ := hds₁.exists_dev hn henabled
      rw [hst₁.created, ← hname]
      exact List.mem_append_right _ (List.mem_reverse.mpr (List.mem_map_of_mem hd))
    · obtain ⟨p, statsNow, rcpNow, hinit⟩ := h.init n hn henabled
      rw [hinit]
      exact Dev.init_holds plat p statsNow rcpNow

/-! ### The round trip -/

/-- Every device has the configuration that it had. -/
def Restored (source target : Sysfs C) : Prop :=
  ∀ n ∈ source.netdevs, n.enabled = true → ∃ n' ∈ target.netdevs,
    n'.name = n.name ∧ n'.enabled = true ∧ n'.dev.setup.Same n.dev.setup

/-- What `load_config` does with the configurations of the devices. -/
def restoreAll (l : List (List Char × Setup)) : Option (List Char → Setup) :=
  (l.foldlM (updateAt Setup.loadVqs) fun _ => {}).bind (l.foldlM (updateAt Setup.loadTxcs))

theorem restored_of_restoreAll {l : List (List Char × Setup)} (hl : (l.map Prod.fst).Nodup)
    {m : List Char → Setup} (h : restoreAll l = some m) : ∀ e ∈ l, e.2.restored = some (m e.1) := by
  obtain ⟨m₁, hvqs, htxcs⟩ := Option.bind_eq_some_iff.mp h
  have hvqs := ((foldlM_updateAt hl).mp hvqs).1
  have htxcs := ((foldlM_updateAt hl).mp htxcs).1
  intro e he
  rw [Setup.restored, hvqs e he, Option.bind_some, htxcs e he]

theorem exists_restoreAll {l : List (List Char × Setup)} (hl : (l.map Prod.fst).Nodup)
    (h : ∀ e ∈ l, ∃ m, e.2.restored = some m) : ∃ m, restoreAll l = some m := by
  have hsplit : ∀ e ∈ l, ∃ m₁ m, e.2.loadVqs {} = some m₁ ∧ e.2.loadTxcs m₁ = some m := by
    intro e he
    obtain ⟨m, hm⟩ := h e he
    obtain ⟨m₁, hm₁, hm⟩ := Option.bind_eq_some_iff.mp hm
    exact ⟨m₁, m, hm₁, hm⟩
  obtain ⟨m₁, hvqs⟩ := exists_foldlM_updateAt (f := Setup.loadVqs) hl
    (m := fun _ => {}) fun e he => by
    obtain ⟨m₁, -, hm₁, -⟩ := hsplit e he
    exact ⟨m₁, hm₁⟩
  have heach := ((foldlM_updateAt hl).mp hvqs).1
  obtain ⟨m, htxcs⟩ := exists_foldlM_updateAt (f := Setup.loadTxcs) hl (m := m₁) fun e he => by
    obtain ⟨m₂, m, hm₂, hm⟩ := hsplit e he
    rw [← Option.some.inj ((heach e he).symm.trans hm₂)] at hm
    exact ⟨m, hm⟩
  exact ⟨m, by rw [restoreAll, hvqs, Option.bind_some, htxcs]⟩

/-- A dictionary that comes back in another order. -/
theorem exists_perm_map {α β : Type} {f : α → β} {l : List β} {xs : List α}
    (h : l.Perm (xs.map f)) :
    ∃ ys : List α, ys.Perm xs ∧ ys.map f = l := by
  have hmap : List.Forall₂ (fun b a => b = f a) (xs.map f) xs := by
    rw [List.forall₂_map_left_iff]
    exact List.forall₂_same.mpr fun _ _ => rfl
  obtain ⟨ys, hys, hperm⟩ := List.perm_comp_forall₂ h hmap
  refine ⟨ys, hperm, ?_⟩
  rw [← List.forall₂_eq_eq_eq, List.forall₂_map_left_iff]
  exact hys.flip.imp fun _ _ hba => hba.symm

/-- `load_config` with a file that lists the configurations `l`. -/
theorem loadConfig_sim (hntohl : Function.Involutive plat.ntohl)
    (hsh : Documented plat tunables mq sh) (hnamed : Named names saved)
    (hmq : ∀ w, ∀ name ∈ saved, (mq w name).Succeeds) (h : Sim plat names [] tool fun _ => {})
    {l : List (List Char × Setup)} (hl : ∀ e ∈ l, e.1 ∈ saved) {sysctl : Sysctl} {file : Config}
    (hconfig : file.config = l.map (devConfig plat))
    (hparams : ∀ param ∈ file.params, param ∈ sysctl.read) :
    Option.Rel (Sim plat names (l.map Prod.fst)) (tool.loadConfig sh file) (restoreAll l) := by
  rw [Tool.loadConfig, restoreAll, hconfig, ← Option.bind_some (fun _ => {}) fun m =>
    (l.foldlM (updateAt Setup.loadVqs) m).bind (l.foldlM (updateAt Setup.loadTxcs))]
  refine rel_bind (paramsLoad_sim h hparams) fun tool m h => ?_
  refine rel_bind (vqsLoad_sim hntohl hsh hnamed hmq h hl) fun tool m h => ?_
  exact txcsLoad_sim hntohl hsh hnamed hmq h hl

section

variable (hntohl : Function.Involutive plat.ntohl) (hsh : Documented plat tunables mq sh)
  {source target : World C} (hsame : SameDevices source.sysfs target.sysfs) (hfresh : Fresh target)
  (hmq : ∀ w, ∀ name ∈ devices source.sysfs, (mq w name).Succeeds) {ds ds₁ ds₂ : List (StatsDev C)}
  (hds : Shows source.sysfs ds) (hds₁ : Shows target.sysfs ds₁) (hds₂ : Shows target.sysfs ds₂)
  {text text₁ text₂ : List Char} (htext : isoStatsProcSeqShow plat cpus ds = .ok text)
  (htext₁ : isoStatsProcSeqShow plat cpus ds₁ = .ok text₁)
  (htext₂ : isoStatsProcSeqShow plat cpus ds₂ = .ok text₂)

include hds in
theorem mem_devices_of_shown : ∀ e ∈ ds.map (fun d => (d.name, d.setup)),
    e.1 ∈ devices source.sysfs := by
  rw [List.forall_mem_map]
  intro d hd
  obtain ⟨n, hn, -, hname, -⟩ := hds.exists_netdev hd
  exact hname ▸ List.mem_map_of_mem hn

include hsame hds htext in
/-- What is in the file. -/
theorem save_shown : save source.sysctl.read text =
    some ⟨(ds.map fun d => (d.name, d.setup)).map (devConfig plat), source.sysctl.read⟩ := by
  have hmem := mem_devices_of_shown hds
  rw [List.forall_mem_map] at hmem
  exact save_eq (fun d hd => (hsame.literal _ (hmem d hd)).plainName)
    (hds.nodup hsame.distinct) htext _

include hds in
/-- The configuration of every device is in the file. -/
theorem mem_shown {n : Netdev C} (hn : n ∈ source.sysfs.netdevs) (henabled : n.enabled = true) :
    (n.name, n.dev.setup) ∈ ds.map fun d => (d.name, d.setup) := by
  obtain ⟨d, hd, hname, hhost⟩ := hds.exists_dev hn henabled
  rw [← hname, ← hhost]
  exact List.mem_map_of_mem (f := fun d : StatsDev C => (d.name, d.setup)) hd

include hntohl hsh hsame hfresh hmq hds hds₁ hds₂ htext₁ htext₂

/-- The program, and what becomes of the configurations when it loads a file with those of the
source. -/
theorem loadConfig_shown {l : List (List Char × Setup)}
    (hl : l.Perm (ds.map fun d => (d.name, d.setup))) {file : Config}
    (hconfig : file.config = l.map (devConfig plat))
    (hparams : ∀ param ∈ file.params, param ∈ source.sysctl.read) :
    ∃ tool, start text₁ text₂ target = some tool ∧
      Option.Rel (Sim plat (devices target.sysfs) (l.map Prod.fst)) (tool.loadConfig sh file)
        (restoreAll l) := by
  obtain ⟨tool, hstart, hsim⟩ := start_sim hfresh hsame.named.distinct
    (fun name hname => hsame.literal name (hsame.perm.mem_iff.mpr hname)) hds₁ hds₂ htext₁ htext₂
  have hmem : ∀ e ∈ l, e.1 ∈ devices source.sysfs :=
    fun e he => mem_devices_of_shown hds e (hl.mem_iff.mp he)
  exact ⟨tool, hstart, loadConfig_sim hntohl hsh hsame.named hmq hsim hmem hconfig hparams⟩

include htext

/-- What comes back was restorable. -/
theorem restorable_of_loaded (h : ∃ written, save source.sysctl.read text = some written ∧
      ∀ file, written.Reloaded file → ∃ tool tool', start text₁ text₂ target = some tool ∧
        tool.loadConfig sh file = some tool' ∧ Restored source.sysfs tool'.world.sysfs)
    {n : Netdev C} (hn : n ∈ source.sysfs.netdevs) (henabled : n.enabled = true) :
    n.dev.setup.Restorable := by
  obtain ⟨written, hwritten, hload⟩ := h
  obtain rfl := Option.some.inj ((save_shown hsame hds htext).symm.trans hwritten)
  obtain ⟨tool₁, tool', hstart₁, hload, hrestored⟩ := hload _ ⟨.refl _, .refl _⟩
  obtain ⟨tool, hstart, hrel⟩ := @loadConfig_shown C plat cpus tunables sh mq hntohl hsh
    source target hsame hfresh hmq ds ds₁ ds₂ hds hds₁ hds₂ text₁ text₂ htext₁ htext₂ _ (.refl _)
    ⟨_, source.sysctl.read⟩ rfl fun _ hparam => hparam
  obtain rfl := Option.some.inj (hstart.symm.trans hstart₁)
  rw [hload] at hrel
  obtain ⟨m, hm, hsim⟩ := some_rel hrel
  have hkeys : ((ds.map fun d => (d.name, d.setup)).map Prod.fst).Nodup := by
    rw [List.map_map]
    exact hds.nodup hsame.distinct
  obtain ⟨n', hn', hname, henabled', hsetup⟩ := hrestored n hn henabled
  have hholds := (hsim.netdevs n' hn').holds henabled'
  rw [hname] at hholds
  refine Setup.restored_same_iff.mp ⟨m n.name, ?_, hholds.same.symm.trans hsetup⟩
  exact restored_of_restoreAll hkeys hm _ (mem_shown hds hn henabled)

/-- What is restorable comes back. -/
theorem loaded_of_restorable (h : ∀ n ∈ source.sysfs.netdevs, n.enabled = true →
    n.dev.setup.Restorable) :
    ∃ written, save source.sysctl.read text = some written ∧ ∀ file, written.Reloaded file →
      ∃ tool tool', start text₁ text₂ target = some tool ∧ tool.loadConfig sh file = some tool' ∧
        Restored source.sysfs tool'.world.sysfs := by
  refine ⟨_, save_shown hsame hds htext, fun file hfile => ?_⟩
  obtain ⟨l, hperm, hconfig⟩ := exists_perm_map hfile.config
  obtain ⟨tool, hstart, hrel⟩ := loadConfig_shown hntohl hsh hsame hfresh hmq hds hds₁ hds₂
    htext₁ htext₂ hperm hconfig.symm fun param hparam => hfile.params.mem_iff.mp hparam
  have hkeys : (l.map Prod.fst).Nodup := by
    refine (hperm.map Prod.fst).nodup_iff.mpr ?_
    rw [List.map_map]
    exact hds.nodup hsame.distinct
  have hall : ∀ e ∈ l, e.2.Restorable := by
    intro e he
    obtain ⟨d, hd, rfl⟩ := List.mem_map.mp (hperm.mem_iff.mp he)
    obtain ⟨n, hn, henabled, -, hhost⟩ := hds.exists_netdev hd
    rw [← hhost]
    exact h n hn henabled
  obtain ⟨m, hm⟩ := exists_restoreAll hkeys fun e he => by
    obtain ⟨m, hm, -⟩ := Setup.restored_same_iff.mpr (hall e he)
    exact ⟨m, hm⟩
  rw [hm] at hrel
  obtain ⟨tool', hload, hsim⟩ := rel_some hrel
  refine ⟨tool, tool', hstart, hload, fun n hn henabled => ?_⟩
  have he : (n.name, n.dev.setup) ∈ l := hperm.mem_iff.mpr (mem_shown hds hn henabled)
  -- the device is there, and `load_config` has made EyeQ its qdisc
  have hthere : n.name ∈ devices tool'.world.sysfs := by
    rw [hsim.names]
    exact hsame.named.there _ (List.mem_map_of_mem hn)
  obtain ⟨n', hn', hname⟩ := List.mem_map.mp hthere
  have hmatch := hsim.netdevs n' hn'
  have henabled' : n'.enabled = true := by
    rw [← hmatch.created, hname]
    exact hsim.opened _ (List.mem_map_of_mem (f := Prod.fst) he)
  have hholds := hmatch.holds henabled'
  rw [hname] at hholds
  obtain ⟨m', hm', hsetup⟩ := Setup.restored_same_iff.mpr (hall _ he)
  rw [restored_of_restoreAll hkeys hm _ he] at hm'
  rw [Option.some.inj hm'] at hholds
  exact ⟨n', hn', hname, henabled', hholds.same.trans hsetup⟩

end

/-- **What was saved comes back** exactly if the configuration of every device is restorable. -/
theorem loadConfig_save_iff (hntohl : Function.Involutive plat.ntohl)
    (hsh : Documented plat tunables mq sh) {source target : World C}
    (hsame : SameDevices source.sysfs target.sysfs) (hfresh : Fresh target)
    (hmq : ∀ w, ∀ name ∈ devices source.sysfs, (mq w name).Succeeds)
    {ds ds₁ ds₂ : List (StatsDev C)} (hds : Shows source.sysfs ds) (hds₁ : Shows target.sysfs ds₁)
    (hds₂ : Shows target.sysfs ds₂) {text text₁ text₂ : List Char}
    (htext : isoStatsProcSeqShow plat cpus ds = .ok text)
    (htext₁ : isoStatsProcSeqShow plat cpus ds₁ = .ok text₁)
    (htext₂ : isoStatsProcSeqShow plat cpus ds₂ = .ok text₂) :
    (∃ written, save source.sysctl.read text = some written ∧ ∀ file, written.Reloaded file →
      ∃ tool tool', start text₁ text₂ target = some tool ∧ tool.loadConfig sh file = some tool' ∧
        Restored source.sysfs tool'.world.sysfs) ↔
    ∀ n ∈ source.sysfs.netdevs, n.enabled = true → n.dev.setup.Restorable := by
  constructor
  · intro h n hn henabled
    exact restorable_of_loaded hntohl hsh hsame hfresh hmq hds hds₁ hds₂ htext htext₁
      htext₂ h hn henabled
  · intro h
    exact loaded_of_restorable hntohl hsh hsame hfresh hmq hds hds₁ hds₂ htext htext₁ htext₂ h

/-! ### A shell -/

/-- A shell for lines of words that are separated by single blanks.  It knows `echo`, with a
redirection at the end, and takes everything else to be a `tc` line. -/
def plainShell (plat : Platform) (tunables : Sysctl → Params) : Shell C := fun s w =>
  let ws := s.splitOn ' '
  if ws.head? = some "echo".toList then
    if ∀ x ∈ ws, x = ">".toList ∨ Literal x then
      match ws.reverse with
      | file :: _ :: rest => w.write plat tunables file (line rest.reverse.tail ++ ['\n'])
      | _ => none
    else none
  else do
    let name ← ws[4]?
    let i ← w.sysfs.isoSearchNetdev name
    let n ← w.sysfs.netdevs[i]?
    some (attach (tunables w.sysctl) 0 0 i n w)

theorem Literal.blank_notMem {w : List Char} (h : Literal w) : ' ' ∉ w :=
  fun hmem => absurd (h.literal _ hmem) (by decide)

theorem line_append_blank (x : List Char) (ws : List (List Char)) (rest : List Char) :
    line (x :: ws) ++ ' ' :: rest = (x :: ws).flatMap (· ++ [' ']) ++ rest := by
  induction ws generalizing x with
  | nil => simp [line_singleton]
  | cons y ws ih =>
    rw [line_cons (List.cons_ne_nil y ws), List.append_assoc, List.cons_append, ih]
    simp only [List.flatMap_cons, List.append_assoc, List.cons_append, List.nil_append]

theorem splitOn_words {ws : List (List Char)} (h : ∀ x ∈ ws, ' ' ∉ x) (rest : List Char) :
    (ws.flatMap (· ++ [' ']) ++ rest).splitOn ' ' = ws ++ rest.splitOn ' ' := by
  induction ws with
  | nil => rfl
  | cons x ws ih =>
    obtain ⟨hx, hws⟩ := List.forall_mem_cons.mp h
    rw [List.flatMap_cons, List.append_assoc, List.append_assoc, List.singleton_append,
      splitOn_append_cons hx, ih hws]
    rfl

section

variable {tunables : Sysctl → Params} {ws : List (List Char)}
  (hws : ∀ x ∈ ws, Literal x) (w : World C)

include hws

/-- The words of a line, from `echo` on. -/
theorem splitOn_echo (rest : List Char) :
    ("echo ".toList ++ line ("dev".toList :: ws) ++ ' ' :: rest).splitOn ' ' =
    "echo".toList :: "dev".toList :: ws ++ rest.splitOn ' ' := by
  have hecho : "echo ".toList = "echo".toList ++ [' '] := rfl
  have hwords : ∀ x ∈ ["echo".toList, "dev".toList], ' ' ∉ x := by decide
  have hall : ∀ x ∈ "echo".toList :: "dev".toList :: ws, ' ' ∉ x := by
    simp only [List.forall_mem_cons] at hwords ⊢
    exact ⟨hwords.1, hwords.2.1, fun x hx => (hws x hx).blank_notMem⟩
  have hline : "echo ".toList ++ line ("dev".toList :: ws) ++ ' ' :: rest =
      ("echo".toList :: "dev".toList :: ws).flatMap (· ++ [' ']) ++ rest := by
    rw [List.append_assoc, line_append_blank, hecho]
    simp only [List.flatMap_cons, List.append_assoc]
  rw [hline, splitOn_words hall]

theorem plainShell_echo {file : List Char} (hfile : Literal file) :
    plainShell plat tunables ("echo ".toList ++ line ("dev".toList :: ws) ++
      " > ".toList ++ file) w =
      w.write plat tunables file (line ("dev".toList :: ws) ++ ['\n']) := by
  have hgt : ' ' ∉ ">".toList := by decide
  have hsplit : ("echo ".toList ++ line ("dev".toList :: ws) ++ " > ".toList ++ file).splitOn ' ' =
      "echo".toList :: "dev".toList :: ws ++ [">".toList, file] := by
    have htext : " > ".toList ++ file = ' ' :: (">".toList ++ ' ' :: file) := rfl
    rw [List.append_assoc _ " > ".toList, htext, splitOn_echo hws, splitOn_append_cons hgt,
      splitOn_of_notMem hfile.blank_notMem]
  have hall : ∀ x ∈ "echo".toList :: "dev".toList :: ws ++ [">".toList, file],
      x = ">".toList ∨ Literal x := by
    have hecho : Literal "echo".toList := by decide
    have hdev : Literal "dev".toList := by decide
    simp only [List.cons_append, List.forall_mem_cons, List.forall_mem_append,
      List.not_mem_nil, false_imp_iff, implies_true, and_true, true_or, hecho, hdev, hfile,
      or_true, true_and]
    exact fun x hx => Or.inr (hws x hx)
  have hhead : ("echo".toList :: "dev".toList :: ws ++ [">".toList, file]).head? =
      some "echo".toList := rfl
  have hreverse : ("echo".toList :: "dev".toList :: ws ++ [">".toList, file]).reverse =
      file :: ">".toList :: ("echo".toList :: "dev".toList :: ws).reverse := by
    rw [List.reverse_append]
    rfl
  unfold plainShell
  dsimp only
  rw [hsplit, if_pos hhead, if_pos hall, hreverse]
  dsimp only
  rw [List.reverse_reverse, List.tail_cons]

theorem plainShell_parenthesis (rest : List Char) :
    plainShell plat tunables ("echo ".toList ++ line ("dev".toList :: ws) ++ " (".toList ++
      rest) w = none := by
  have hsplit : ("echo ".toList ++ line ("dev".toList :: ws) ++ " (".toList ++ rest).splitOn ' ' =
      "echo".toList :: "dev".toList :: ws ++ ('(' :: rest).splitOn ' ' := by
    have htext : " (".toList ++ rest = ' ' :: '(' :: rest := rfl
    rw [List.append_assoc _ " (".toList, htext, splitOn_echo hws]
  -- the word that begins with the parenthesis
  obtain ⟨x, hx, hparen⟩ : ∃ x ∈ ('(' :: rest).splitOn ' ', '(' ∈ x := by
    have hcons : ('(' :: rest).splitOn ' ' = (rest.splitOn ' ').modifyHead ('(' :: ·) := by
      rw [List.splitOn, List.splitOnP_cons_eq_if_modifyHead]
      rfl
    obtain ⟨y, ys, hys⟩ := List.exists_cons_of_ne_nil (List.splitOnP_ne_nil (· == ' ') rest)
    have hrest : rest.splitOn ' ' = y :: ys := hys
    rw [hcons, hrest]
    exact ⟨'(' :: y, List.mem_cons_self, List.mem_cons_self⟩
  have hnot : ¬ ∀ x ∈ "echo".toList :: "dev".toList :: ws ++ ('(' :: rest).splitOn ' ',
      x = ">".toList ∨ Literal x := by
    intro hall
    rcases hall x (List.mem_append_right _ hx) with rfl | hliteral
    · exact absurd hparen (by decide)
    · exact absurd (hliteral.literal _ hparen) (by decide)
  have hhead : ("echo".toList :: "dev".toList :: ws ++ ('(' :: rest).splitOn ' ').head? =
      some "echo".toList := rfl
  unfold plainShell
  dsimp only
  rw [hsplit, if_pos hhead, if_neg hnot]

end

theorem plainShell_tc {tunables : Sysctl → Params} {i : ℕ} {n : Netdev C} {w : World C}
    (hname : Literal n.name) (hfind : w.sysfs.isoSearchNetdev n.name = some i)
    (hn : w.sysfs.netdevs[i]? = some n) :
    plainShell plat tunables (tcLine n.name) w = some (attach (tunables w.sysctl) 0 0 i n w) := by
  have hsplit : ∃ rest, (tcLine n.name).splitOn ' ' =
      "tc".toList :: "qdisc".toList :: "add".toList :: "dev".toList :: n.name :: rest := by
    have hwords : ∀ x ∈ ["tc".toList, "qdisc".toList, "add".toList, "dev".toList], ' ' ∉ x := by
      decide
    have htc : "tc qdisc add dev ".toList =
        ["tc".toList, "qdisc".toList, "add".toList, "dev".toList].flatMap (· ++ [' ']) := by decide
    have hroot : " root handle 1: htb".toList = ' ' :: "root handle 1: htb".toList := by decide
    have hline : tcLine n.name = ["tc".toList, "qdisc".toList, "add".toList,
        "dev".toList].flatMap (· ++ [' ']) ++
        (n.name ++ ' ' :: "root handle 1: htb".toList) := by
      unfold tcLine
      rw [htc, hroot, List.append_assoc]
    refine ⟨"root handle 1: htb".toList.splitOn ' ', ?_⟩
    -- the literals would be unfolded otherwise
    generalize "root handle 1: htb".toList = rest at hline ⊢
    rw [hline, splitOn_words hwords, splitOn_append_cons hname.blank_notMem]
    simp only [List.cons_append, List.nil_append]
  obtain ⟨rest, hsplit⟩ := hsplit
  have hnot : ¬ some "tc".toList = some "echo".toList := by decide
  unfold plainShell
  dsimp only
  rw [hsplit, List.head?_cons, if_neg hnot]
  show (w.sysfs.isoSearchNetdev n.name).bind _ = _
  rw [hfind, Option.bind_some]
  show (w.sysfs.netdevs[i]?).bind _ = _
  rw [hn, Option.bind_some]

theorem literal_of_mem_sysfsFiles {env : Env} {file val : List Char}
    (h : file ∈ (sysfsFiles env val).map Prod.fst) : Literal file := by
  have hall : ((sysfsFiles env val).map Prod.fst).all (fun file => decide (Literal file)) = true :=
    rfl
  exact of_decide_eq_true (List.all_eq_true.mp hall file h)

theorem plainShell_documented (plat : Platform) (tunables : Sysctl → Params)
    (mq : World C → List Char → MqCall) :
    Documented plat tunables mq (plainShell plat tunables : Shell C) where
  echo := fun _ _ w hws hfile => plainShell_echo hws w (literal_of_mem_sysfsFiles hfile)
  parenthesis := fun _ rest w hws => plainShell_parenthesis hws w rest
  tc := fun _ _ _ hname hfind hn _ _ => ⟨0, 0, plainShell_tc hname hfind hn⟩

/-! ### Runs -/

def someSysctl : Sysctl where
  files := isoParams.map fun name => (name, 1)
  names := by simp [Function.comp_def]
  ints := by
    intro f hf
    obtain ⟨name, -, rfl⟩ := List.mem_map.mp hf
    exact show s32 1 = 1 by decide

/-- A device on which `ops` were done. -/
def devAfter (ops : List Dev.Op) : Dev Unit :=
  endOr (Dev.init {} 0 0) (Dev.runFrom Unit .x86 {} 0 0 ops)

/-- A module with `eth0`, on which `ops` were done if EyeQ is its qdisc. -/
def oneDev (enabled : Bool) (ops : List Dev.Op) : World Unit where
  sysctl := someSysctl
  sysfs := ⟨false, [⟨"eth0".toList, enabled, devAfter ops⟩]⟩
  env := fun _ => ⟨0, .fresh, [], true, 0, ([], [])⟩

/-- What it shows. -/
def oneShown (ops : List Dev.Op) : List (StatsDev Unit) :=
  [{ toHost := (devAfter ops).toHost, name := "eth0".toList, gauges := {} }]

/-- Its text. -/
def oneText (ops : List Dev.Op) : List Char :=
  endOr [] (isoStatsProcSeqShow .x86 ⟨[()], fun _ => 0⟩ (oneShown ops))

/-- A VQ, and a class that is associated with it. -/
def pairOps : List Dev.Op :=
  [.createVq 0 .fresh true 0 7, .createTxc 0 .fresh [] 7, .assocTxcVq 7 7, .setTxcWeight 7 512]

theorem oneDev_same (ops : List Dev.Op) :
    SameDevices (oneDev true ops).sysfs (oneDev false []).sysfs where
  perm := .refl _
  short := show ∀ name ∈ ["eth0".toList], name.length < Sysfs.ifnamsiz by decide
  distinct := List.nodup_singleton _
  literal := show ∀ name ∈ ["eth0".toList], Literal name by decide

theorem oneDev_fresh : Fresh (oneDev false []) where
  mutex := rfl
  alloc := fun _ h => nomatch h
  init := by
    intro n hn henabled
    obtain rfl := List.mem_singleton.mp hn
    exact nomatch henabled

/-- `mq_init` for a device with one queue, when the kernel has memory. -/
def oneCall : MqCall where
  env := ⟨true, true, some 8, some 9, true, true, fun _ => true⟩
  dev := ⟨1, 65536, true, none⟩
  txctxList := []
  rxctxList := []

theorem oneCall_succeeds : oneCall.Succeeds := ⟨_, rfl⟩

/-- A VQ and a class that is associated with it come back, in a module in which EyeQ was no
qdisc. -/
theorem loadConfig_save_pair :
    (∀ n ∈ (oneDev true pairOps).sysfs.netdevs, n.enabled = true → n.dev.setup.Restorable) ∧
    ∃ written, save (oneDev true pairOps).sysctl.read (oneText pairOps) = some written ∧
      ∀ file, written.Reloaded file → ∃ tool tool', start [] [] (oneDev false []) = some tool ∧
        tool.loadConfig (plainShell .x86 fun _ => {}) file = some tool' ∧
          Restored (oneDev true pairOps).sysfs tool'.world.sysfs := by
  have hshow := eq_ok_endOr [] (x := isoStatsProcSeqShow .x86 ⟨[()], fun _ => 0⟩ (oneShown pairOps))
    (by decide +kernel)
  have hrestorable : ∀ n ∈ (oneDev true pairOps).sysfs.netdevs, n.enabled = true →
      n.dev.setup.Restorable := by
    intro n hn _
    obtain rfl := List.mem_singleton.mp hn
    exact ⟨by decide +kernel, by decide +kernel, by decide +kernel, by decide +kernel⟩
  have hiff := @loadConfig_save_iff Unit .x86 ⟨[()], fun _ => 0⟩ (fun _ => {})
    (plainShell .x86 fun _ => {})
    (fun _ _ => oneCall) bswap32_involutive (plainShell_documented .x86 (fun _ => {}) _)
    (oneDev true pairOps) (oneDev false []) (oneDev_same pairOps) oneDev_fresh
    (fun _ _ _ => oneCall_succeeds) (oneShown pairOps) [] [] (.refl _) (.refl _) (.refl _)
      (oneText pairOps) [] []
    hshow rfl rfl
  exact ⟨hrestorable, hiff.mpr hrestorable⟩

/-- A class without a VQ, and a VQ with a cap. -/
def lostOps : List (List Dev.Op) :=
  [[.createTxc 0 .fresh [] 7], [.createVq 0 .fresh true 0 7, .setVqRate 7 100]]

theorem not_restored_of_mem_lostOps {ops : List Dev.Op} (hops : ops ∈ lostOps) :
    ¬ ∃ written, save (oneDev true ops).sysctl.read (oneText ops) = some written ∧
      ∀ file, written.Reloaded file → ∃ tool tool', start [] [] (oneDev false []) = some tool ∧
        tool.loadConfig (plainShell .x86 fun _ => {}) file = some tool' ∧
          Restored (oneDev true ops).sysfs tool'.world.sysfs := by
  intro hloaded
  have hok : ∀ ops ∈ lostOps, (isoStatsProcSeqShow .x86 ⟨[()], fun _ => 0⟩ (oneShown ops)).isOk =
      true := by
    decide +kernel
  have hshow := eq_ok_endOr [] (x := isoStatsProcSeqShow .x86 ⟨[()], fun _ => 0⟩ (oneShown ops))
    (hok ops hops)
  have hrestorable := @restorable_of_loaded Unit .x86 ⟨[()], fun _ => 0⟩ (fun _ => {})
    (plainShell .x86 fun _ => {}) (fun _ _ => oneCall) bswap32_involutive
    (plainShell_documented .x86 (fun _ => {}) _) (oneDev true ops)
    (oneDev false []) (oneDev_same ops)
    oneDev_fresh (fun _ _ _ => oneCall_succeeds) (oneShown ops) [] [] (.refl _) (.refl _)
    (.refl _) (oneText ops)
    [] [] hshow rfl rfl hloaded _ List.mem_cons_self rfl
  have hlost : ∀ ops ∈ lostOps, (∃ vq ∈ (devAfter ops).setup.vqs, vq.cap ≠ none) ∨
      ∃ txc ∈ (devAfter ops).setup.txcs, txc.assoc = none := by decide +kernel
  rcases hlost ops hops with ⟨vq, hvq, hcap⟩ | ⟨txc, htxc, hassoc⟩
  · exact hcap (hrestorable.vqs vq hvq).2
  · obtain ⟨-, -, vqclass, -, hsome⟩ := hrestorable.txcs txc htxc
    rw [hassoc] at hsome
    exact nomatch hsome

/-- With a class that has no VQ, `load_config` dies; and a cap does not come back. -/
theorem loadConfig_save_lost :
    (¬ ∃ written, save (oneDev true [.createTxc 0 .fresh [] 7]).sysctl.read
      (oneText [.createTxc 0 .fresh [] 7])
        = some written ∧
      ∀ file, written.Reloaded file → ∃ tool tool', start [] [] (oneDev false []) = some tool ∧
        tool.loadConfig (plainShell .x86 fun _ => {}) file = some tool' ∧
          Restored (oneDev true [.createTxc 0 .fresh [] 7]).sysfs tool'.world.sysfs) ∧
    ¬ ∃ written, save (oneDev true [.createVq 0 .fresh true 0 7, .setVqRate 7 100]).sysctl.read
        (oneText [.createVq 0 .fresh true 0 7, .setVqRate 7 100]) = some written ∧
      ∀ file, written.Reloaded file → ∃ tool tool', start [] [] (oneDev false []) = some tool ∧
        tool.loadConfig (plainShell .x86 fun _ => {}) file = some tool' ∧
          Restored (oneDev true [.createVq 0 .fresh true 0 7, .setVqRate 7 100]).sysfs
            tool'.world.sysfs :=
  ⟨not_restored_of_mem_lostOps List.mem_cons_self,
    not_restored_of_mem_lostOps (List.mem_cons_of_mem _ List.mem_cons_self)⟩

end EyeQ.Perfiso
