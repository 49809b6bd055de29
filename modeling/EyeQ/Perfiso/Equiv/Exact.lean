import EyeQ.Perfiso.Equiv.Stats

/-!
# When `stats` returns what was printed

`stats` should return the devices that match `filterdev`, each with all limiters of its classes and
its own VQs (`matching`).  What it returns is `outcome`, and the two are compared part by part.

* The limiters of a bucket but the first are not preceded by `hash` and are lost
  (`txcsRead_eq_iff`).
* The VQs go to the last device registered under the name, or to the last device
  (`attributee_spec`).  So VQs are returned for the right device unless two devices have one name,
  or the last device matches and a device that does not match has VQs (`vqs_exact_iff`).
-/

namespace EyeQ.Perfiso

open Text Stats Machine

variable {C : Type} {plat : Platform} {cpus : Cpus C} {filterdev : Option (List Char)}
  {ds : List (StatsDev C)}

/-! ### What should be returned -/

/-- A device with all its classes, limiters and VQs. -/
def devData (plat : Platform) (d : StatsDev C) : DevData where
  dev := d.name
  txcs := d.tx.hashed.map fun k => txcData plat d.rx (d.tx.txcs k) (d.gauges.txcs k)
    (rlBuckets.flatMap fun b => ((d.tx.txcs k).rlBucket b).map fun j => rlData
      ((d.tx.txcs k).rls j))
  vqs := vqsRead plat d

/-- The devices that match. -/
def matching (plat : Platform) (filterdev : Option (List Char)) (ds : List (StatsDev C)) :
    List DevData :=
  (ds.filter fun d => selects filterdev d.name).map (devData plat)

theorem selected_map_fst : (selected filterdev ds).map Prod.fst = ds.filter fun d =>
    selects filterdev d.name := by
  induction ds using List.reverseRecOn with
  | nil => rfl
  | append_singleton ds d ih =>
    rw [selected_append, List.map_append, ih, List.filter_append,
      List.filter_singleton, Bool.cond_eq_ite]
    split_ifs <;> rfl

theorem mem_selected {x : StatsDev C × ℕ} :
    x ∈ selected filterdev ds ↔ ds[x.2]? = some x.1 ∧ selects filterdev x.1.name = true := by
  rw [selected, List.mem_filter, List.mem_zipIdx_iff_getElem?]

/-- The comparison, device by device. -/
theorem outcome_eq_iff : outcome plat filterdev ds = matching plat filterdev ds ↔
    ∀ i d, ds[i]? = some d → selects filterdev d.name = true →
      txcsRead plat d = (devData plat d).txcs ∧
      attributed plat filterdev ds ds i = vqsRead plat d := by
  rw [outcome, matching, ← selected_map_fst, List.map_map, List.map_inj_left]
  constructor
  · intro h i d hd hsel
    have hx := h (d, i) (mem_selected.mpr ⟨hd, hsel⟩)
    exact ⟨congrArg DevData.txcs hx, congrArg DevData.vqs hx⟩
  · intro h x hx
    obtain ⟨hd, hsel⟩ := mem_selected.mp hx
    obtain ⟨htxcs, hvqs⟩ := h x.2 x.1 hd hsel
    rw [htxcs, hvqs]
    rfl

/-! ### Limiters -/

/-- Nothing is lost with the heads of lists only if the lists have nothing else. -/
theorem flatMap_head_eq_iff {α β γ : Type} {f : α → List β} {g : β → γ} {l : List α} :
    (l.flatMap fun a => (f a).head?.toList.map g) = (l.flatMap fun a => (f a).map g) ↔
      ∀ a ∈ l, (f a).length ≤ 1 := by
  have hle : ∀ xs : List β, (xs.head?.toList.map g).length ≤ (xs.map g).length := by
    rintro (_ | ⟨x, xs⟩) <;> simp
  have hone : ∀ xs : List β, xs.head?.toList.map g = xs.map g ↔ xs.length ≤ 1 := by
    rintro (_ | ⟨x, _ | ⟨y, xs⟩⟩) <;> simp
  have hsum : ∀ l : List α, (l.flatMap fun a => (f a).head?.toList.map g).length ≤
      (l.flatMap fun a => (f a).map g).length := by
    intro l
    induction l with
    | nil => exact le_rfl
    | cons a l ih =>
      rw [List.flatMap_cons, List.flatMap_cons, List.length_append, List.length_append]
      exact Nat.add_le_add (hle (f a)) ih
  induction l with
  | nil => simp
  | cons a l ih =>
    rw [List.flatMap_cons, List.flatMap_cons, List.forall_mem_cons]
    refine Iff.trans ?_ (and_congr (hone (f a)) ih)
    constructor
    · intro h
      -- neither part is longer on the left
      refine List.append_inj h ?_
      have hlen := congrArg List.length h
      rw [List.length_append, List.length_append] at hlen
      have ha := hle (f a)
      have hl := hsum l
      omega
    · rintro ⟨ha, hl⟩
      rw [ha, hl]

theorem txcsRead_eq_iff {d : StatsDev C} :
    txcsRead plat d = (devData plat d).txcs ↔
      ∀ k ∈ d.tx.hashed, ∀ b ∈ rlBuckets, ((d.tx.txcs k).rlBucket b).length ≤ 1 := by
  rw [txcsRead, devData, List.map_inj_left]
  refine forall₂_congr fun k _ => ?_
  rw [← flatMap_head_eq_iff (g := fun j => rlData ((d.tx.txcs k).rls j))]
  constructor
  · exact congrArg TxcData.rls
  · intro h
    rw [← h]
    rfl

/-! ### Attribution -/

/-- The newest entry of a name. -/
theorem lookup_selected (init : List (StatsDev C)) (name : List Char) :
    (∀ t, ((selected filterdev init).map fun x => (x.1.name, x.2)).reverse.lookup name = some t →
      selects filterdev name = true ∧ (∃ e, init[t]? = some e ∧ e.name = name) ∧
        ∀ j e, init[j]? = some e → e.name = name → j ≤ t) ∧
    (((selected filterdev init).map fun x => (x.1.name, x.2)).reverse.lookup name = none →
      selects filterdev name = true → ∀ e ∈ init, e.name ≠ name) := by
  induction init using List.reverseRecOn with
  | nil => simp [selected]
  | append_singleton init d ih =>
    obtain ⟨hsome, hnone⟩ := ih
    rw [selected_append]
    by_cases hd : selects filterdev d.name = true ∧ name = d.name
    · obtain ⟨hsel, rfl⟩ := hd
      rw [if_pos hsel]
      simp only [List.map_append, List.map_cons, List.map_nil, List.reverse_append,
        List.reverse_cons, List.reverse_nil, List.nil_append, List.singleton_append,
        List.lookup_cons_self]
      refine ⟨fun t ht => ?_, fun h => by cases h⟩
      obtain rfl : init.length = t := Option.some.inj ht
      refine ⟨hsel, ⟨d, List.getElem?_concat_length .., rfl⟩, fun j e he _ => ?_⟩
      obtain ⟨hlt, -⟩ := List.getElem?_eq_some_iff.mp he
      rw [List.length_append, List.length_singleton] at hlt
      omega
    · -- the new device is not the one looked for
      have hlookup : ((selected filterdev init ++ if selects filterdev d.name = true then
          [(d, init.length)]
          else []).map fun x => (x.1.name, x.2)).reverse.lookup name =
          ((selected filterdev init).map fun x => (x.1.name, x.2)).reverse.lookup name := by
        split_ifs with hsel
        · have hne : (name == d.name) = false := by
            rw [beq_eq_false_iff_ne]
            exact fun hname => hd ⟨hsel, hname⟩
          simp [List.lookup_cons, hne]
        · rw [List.append_nil]
      rw [hlookup]
      refine ⟨fun t ht => ?_, fun h hsel e he => ?_⟩
      · obtain ⟨hsel, ⟨e, he, hname⟩, hmax⟩ := hsome t ht
        have hlt := (List.getElem?_eq_some_iff.mp he).1
        refine ⟨hsel, ⟨e, ?_, hname⟩, fun j e' he' hname' => ?_⟩
        · rw [List.getElem?_append_left hlt, he]
        · rcases Nat.lt_or_ge j init.length with hj | hj
          · rw [List.getElem?_append_left hj] at he'
            exact hmax j e' he' hname'
          · rw [List.getElem?_append_right hj, List.getElem?_singleton] at he'
            split_ifs at he'
            obtain rfl : d = e' := Option.some.inj he'
            exact absurd ⟨hname' ▸ hsel, hname'.symm⟩ hd
      · rw [List.mem_append, List.mem_singleton] at he
        rcases he with he | rfl
        · exact hnone h hsel e he
        · exact fun hname => hd ⟨hname ▸ hsel, hname.symm⟩

/-- The VQs of a name go to the last device that is registered under it; if there is none, to the
last device. -/
theorem attributee_spec (name : List Char) :
    (selects filterdev name = true ∧ attributee filterdev ds name + 1 < ds.length ∧
      (∃ e, ds[attributee filterdev ds name]? = some e ∧ e.name = name) ∧
      ∀ j e, ds[j]? = some e → e.name = name → j + 1 < ds.length →
      j ≤ attributee filterdev ds name) ∨
    (attributee filterdev ds name = ds.length - 1 ∧
      (selects filterdev name = true → ∀ j e, ds[j]? = some e → e.name = name →
        ds.length ≤ j + 1)) := by
  obtain ⟨hsome, hnone⟩ := @lookup_selected C filterdev ds.dropLast name
  have hinit : ∀ j e, ds.dropLast[j]? = some e ↔ j + 1 < ds.length ∧ ds[j]? = some e := by
    intro j e
    rw [List.getElem?_dropLast]
    split_ifs with hj
    · simp only [show j + 1 < ds.length by omega, true_and]
    · simp only [show ¬ j + 1 < ds.length by omega, false_and]
  unfold attributee
  cases hlookup : ((selected filterdev ds.dropLast).map fun x => (x.1.name, x.2)).reverse.lookup
    name with
  | some t =>
    obtain ⟨hsel, ⟨e, he, hname⟩, hmax⟩ := hsome t hlookup
    obtain ⟨hlt, he⟩ := (hinit t e).mp he
    refine Or.inl ⟨hsel, hlt, ⟨e, he, hname⟩, fun j e' he' hname' hj => ?_⟩
    exact hmax j e' ((hinit j e').mpr ⟨hj, he'⟩) hname'
  | none =>
    refine Or.inr ⟨rfl, fun hsel j e he hname => ?_⟩
    by_contra hj
    exact hnone hlookup hsel e (List.mem_of_getElem? ((hinit j e).mpr ⟨by omega, he⟩)) hname

/-- The VQs of every device are attributed to it, or to none that is returned. -/
structure OwnVqs (filterdev : Option (List Char)) (ds : List (StatsDev C)) : Prop where
  /-- A matching device with VQs shares its name neither with a later device but the last, nor, if
  it is the last, with an earlier one. -/
  twins : ∀ i d, ds[i]? = some d → selects filterdev d.name = true → d.rx.vqList ≠ [] →
    ∀ j e, ds[j]? = some e → e.name = d.name → ¬ (i < j ∧ j + 1 < ds.length) ∧
    ¬ (i + 1 = ds.length ∧ j < i)
  /-- If the last device matches, the other devices with VQs match. -/
  others : ∀ e, ds.getLast? = some e → selects filterdev e.name = true →
    ∀ d ∈ ds, d.rx.vqList ≠ [] → selects filterdev d.name = true

/-- Without a filter it is enough that no two devices have one name. -/
theorem ownVqs_none (hnodup : (ds.map fun d => d.name).Nodup) : OwnVqs none ds where
  twins := by
    intro i d hd _ _ j e he hname
    have hi := (List.getElem?_eq_some_iff.mp hd).1
    have hij : i = j := by
      refine (List.getElem?_inj (by rwa [List.length_map]) hnodup).mp ?_
      rw [List.getElem?_map, List.getElem?_map, hd, he, Option.map_some, Option.map_some, hname]
    omega
  others := fun _ _ _ _ _ _ => rfl

theorem OwnVqs.attributee_eq_iff (h : OwnVqs filterdev ds) {i j : ℕ} {d e : StatsDev C}
    (hd : ds[i]? = some d) (hsel : selects filterdev d.name = true) (he : ds[j]? = some e)
    (hvqs : e.rx.vqList ≠ []) :
    attributee filterdev ds e.name = i ↔ j = i := by
  have hi := (List.getElem?_eq_some_iff.mp hd).1
  have hj := (List.getElem?_eq_some_iff.mp he).1
  rcases @attributee_spec C filterdev ds e.name with ⟨hsele, hlt, ⟨e', he', hname⟩,
    hmax⟩ | ⟨hlast, hnone⟩
  · -- the VQs go to a device of the same name
    have htwins := h.twins j e he hsele hvqs _ e' he' hname
    have hself := hmax j e he rfl
    have heq : attributee filterdev ds e.name = j := by omega
    rw [heq]
  · -- the VQs go to the last device
    rw [hlast]
    constructor
    · intro hi'
      have hlast' : ds.getLast? = some d := by rw [List.getLast?_eq_getElem?, hi', hd]
      have hsele := h.others d hlast' hsel e (List.mem_of_getElem? he) hvqs
      have := hnone hsele j e he rfl
      omega
    · rintro rfl
      obtain rfl : d = e := Option.some.inj (hd.symm.trans he)
      have := hnone hsel j d he rfl
      omega

/-- A loop that does something in one round. -/
theorem flatMap_eq_of_getElem? {α β : Type} {l : List α} {i : ℕ} {a : α}
    (ha : l[i]? = some a) {f : α → List β} (hf : ∀ j b, l[j]? = some b → j ≠ i → f b = []) :
    l.flatMap f = f a := by
  induction l generalizing i with
  | nil => cases ha
  | cons c l ih =>
    cases i with
    | zero =>
      obtain rfl : c = a := Option.some.inj ha
      have hrest : l.flatMap f = [] := by
        rw [List.flatMap_eq_nil_iff]
        intro b hb
        obtain ⟨j, hj⟩ := List.mem_iff_getElem?.mp hb
        exact hf (j + 1) b (by rwa [List.getElem?_cons_succ]) (by omega)
      rw [List.flatMap_cons, hrest, List.append_nil]
    | succ i =>
      rw [List.getElem?_cons_succ] at ha
      have hc : f c = [] := hf 0 c rfl (by omega)
      rw [List.flatMap_cons, hc, List.nil_append]
      exact ih ha fun j b hb hne => hf (j + 1) b (by rwa [List.getElem?_cons_succ]) (by omega)

/-- A loop does at least what it does in two rounds. -/
theorem length_add_length_le_flatMap {α β : Type} {l : List α} {i j : ℕ} (hij : i < j) {a b : α}
    (ha : l[i]? = some a) (hb : l[j]? = some b) (f : α → List β) :
    (f a).length + (f b).length ≤ (l.flatMap f).length := by
  induction l generalizing i j with
  | nil => cases ha
  | cons c l ih =>
    obtain ⟨j, rfl⟩ : ∃ k, j = k + 1 := ⟨j - 1, by omega⟩
    rw [List.getElem?_cons_succ] at hb
    rw [List.flatMap_cons, List.length_append]
    cases i with
    | zero =>
      obtain rfl : c = a := Option.some.inj ha
      have hmem := List.sublist_flatten_of_mem
        (List.mem_map_of_mem (f := f) (List.mem_of_getElem? hb))
      exact Nat.add_le_add_left hmem.length_le _
    | succ i =>
      rw [List.getElem?_cons_succ] at ha
      have := ih (by omega) ha hb
      omega

theorem OwnVqs.attributed_eq (h : OwnVqs filterdev ds) {i : ℕ} {d : StatsDev C}
    (hd : ds[i]? = some d) (hsel : selects filterdev d.name = true) :
    attributed plat filterdev ds ds i = vqsRead plat d := by
  have hnil : ∀ e : StatsDev C, e.rx.vqList = [] → vqsRead plat e = [] := by
    intro e he
    rw [vqsRead, he, List.map_nil]
  have hother : ∀ j e, ds[j]? = some e → j ≠ i →
      (if attributee filterdev ds e.name = i then vqsRead plat e else []) = [] := by
    intro j e he hne
    split_ifs with hi
    · by_cases hvqs : e.rx.vqList = []
      · exact hnil e hvqs
      · exact absurd ((h.attributee_eq_iff hd hsel he hvqs).mp hi) hne
    · rfl
  rw [attributed, flatMap_eq_of_getElem? hd hother]
  split_ifs with hi
  · rfl
  · by_cases hvqs : d.rx.vqList = []
    · exact (hnil d hvqs).symm
    · exact absurd ((h.attributee_eq_iff hd hsel hd hvqs).mpr rfl) hi

/-- A matching device is not returned exactly if it gets its own VQs and those of another. -/
theorem attributed_ne {i t : ℕ} (hit : i ≠ t) {d e : StatsDev C} (hd : ds[i]? = some d)
    (he : ds[t]? = some e) (hdt : attributee filterdev ds d.name = t)
    (het : attributee filterdev ds e.name = t) (hvqs : d.rx.vqList ≠ []) :
    attributed plat filterdev ds ds t ≠ vqsRead plat e := by
  intro heq
  have hpos : 0 < (vqsRead plat d).length := by
    rw [vqsRead, List.length_map]
    exact List.length_pos_of_ne_nil hvqs
  have hlen := congrArg List.length heq
  rw [attributed] at hlen
  rcases Nat.lt_or_gt_of_ne hit with hlt | hlt
  · have hle := length_add_length_le_flatMap hlt hd he
      fun d => if attributee filterdev ds d.name = t then vqsRead plat d else []
    rw [if_pos hdt, if_pos het, hlen] at hle
    omega
  · have hle := length_add_length_le_flatMap hlt he hd
      fun d => if attributee filterdev ds d.name = t then vqsRead plat d else []
    rw [if_pos hdt, if_pos het, hlen] at hle
    omega

theorem vqs_exact_iff : (∀ i d, ds[i]? = some d → selects filterdev d.name = true →
    attributed plat filterdev ds ds i = vqsRead plat d) ↔ OwnVqs filterdev ds := by
  refine ⟨fun h => ?_, fun h i d hd hsel => h.attributed_eq hd hsel⟩
  -- a matching device with VQs keeps them
  have hown : ∀ i d, ds[i]? = some d → selects filterdev d.name = true → d.rx.vqList ≠ [] →
      attributee filterdev ds d.name = i := by
    intro i d hd hsel hvqs
    have hi := (List.getElem?_eq_some_iff.mp hd).1
    rcases @attributee_spec C filterdev ds d.name with ⟨-, -, ⟨e, he, hname⟩, -⟩ | ⟨hlast, hnone⟩
    · by_contra hne
      have hsele : selects filterdev e.name = true := hname ▸ hsel
      exact attributed_ne (Ne.symm hne) hd he rfl (by rw [hname]) hvqs (h _ e he hsele)
    · have := hnone hsel i d hd rfl
      omega
  refine ⟨fun i d hd hsel hvqs j e he hname => ?_, fun e he hsel d hmem hvqs => ?_⟩
  · have hi := hown i d hd hsel hvqs
    rcases @attributee_spec C filterdev ds d.name with ⟨-, hlt, -, hmax⟩ | ⟨hlast, hnone⟩
    · have := hmax j e he hname
      omega
    · have := hnone hsel j e he hname
      omega
  · by_contra hseld
    obtain ⟨i, hd⟩ := List.mem_iff_getElem?.mp hmem
    rw [List.getLast?_eq_getElem?] at he
    rcases @attributee_spec C filterdev ds d.name with ⟨hseld', -⟩ | ⟨hlast, -⟩
    · exact hseld hseld'
    · have hattr := h _ e he hsel
      by_cases hvqse : e.rx.vqList = []
      · -- the last device has no VQs, and gets those of `d`
        rw [vqsRead, hvqse, List.map_nil, attributed, List.flatMap_eq_nil_iff] at hattr
        have hnil := hattr d hmem
        rw [if_pos hlast, vqsRead, List.map_eq_nil_iff] at hnil
        exact hvqs hnil
      · have hne : i ≠ ds.length - 1 := by
          rintro rfl
          obtain rfl : d = e := Option.some.inj (hd.symm.trans he)
          exact hseld hsel
        exact attributed_ne hne hd he hlast (hown _ e he hsel hvqse) hvqs hattr

/-! ### Exactness -/

/-- Every bucket of a matching device holds at most one limiter, and VQs are attributed to their
devices. -/
structure Recoverable (filterdev : Option (List Char)) (ds : List (StatsDev C)) : Prop where
  limiters : ∀ d ∈ ds, selects filterdev d.name = true →
    ∀ k ∈ d.tx.hashed, ∀ b ∈ rlBuckets, ((d.tx.txcs k).rlBucket b).length ≤ 1
  vqs : OwnVqs filterdev ds

theorem outcome_eq_matching_iff :
    outcome plat filterdev ds = matching plat filterdev ds ↔ Recoverable filterdev ds := by
  rw [outcome_eq_iff]
  constructor
  · intro h
    refine ⟨fun d hmem hsel => ?_, vqs_exact_iff.mp fun i d hd hsel => (h i d hd hsel).2⟩
    obtain ⟨i, hd⟩ := List.mem_iff_getElem?.mp hmem
    exact txcsRead_eq_iff.mp (h i d hd hsel).1
  · intro h i d hd hsel
    exact ⟨txcsRead_eq_iff.mpr (h.limiters d (List.mem_of_getElem? hd) hsel),
      vqs_exact_iff.mpr h.vqs i d hd hsel⟩

/-- `stats` returns what `iso_stats_proc_seq_show` printed exactly if no bucket of a matching device
holds two limiters, and no VQs of another device are attributed to a matching one. -/
theorem stats_isoStatsProcSeqShow_iff (plat : Platform) (cpus : Cpus C)
    (filterdev : Option (List Char)) (ds : List (StatsDev C)) (hnames : ∀ d ∈ ds, PlainName d.name)
    (text : List Char) (hshow : isoStatsProcSeqShow plat cpus ds = .ok text) :
    stats filterdev text = some (matching plat filterdev ds) ↔ Recoverable filterdev ds := by
  rw [stats_eq hnames hshow, Option.some_inj, outcome_eq_matching_iff]

/-- A device with a VQ for each of `klasses`, and a class with a limiter for each of `ips`. -/
def busyDev (name : String) (klasses ips : List UInt32) : StatsDev Unit where
  rx := endOr (RxContext.init {} 0 0)
    (RxContext.runFrom .x86 {} [()] 0 0 (klasses.map (.createVq 0 true true)))
  tx := (TxContext.runFrom Unit .x86 {} [.createTxc 0 true (ips.map fun _ => true) 1]).modifyTxc 0
    fun txc => ips.foldl (fun txc ip => (txc.isoPickRl .x86 ip).2) txc
  name := name.toList
  gauges := {}

/-- No bucket of the class holds two limiters. -/
def Uncrowded (txc : TxClass C) : Prop := ∀ b ∈ rlBuckets, (txc.rlBucket b).length ≤ 1

instance (txc : TxClass C) : Decidable (Uncrowded txc) := List.decidableBAll _ rlBuckets

/-- Two devices, with a limiter and with a VQ each, are read back. -/
theorem stats_isoStatsProcSeqShow_pair :
    ∃ text, isoStatsProcSeqShow .x86 ⟨[()], fun _ => 0⟩
        [busyDev "eth0" [1] [0x0b000001], busyDev "eth1" [1] [0x0b000001]] = .ok text ∧
      stats none text =
        some (matching .x86 none [busyDev "eth0" [1] [0x0b000001], busyDev "eth1" [1]
          [0x0b000001]]) := by
  have hshow := eq_ok_endOr [] (x := isoStatsProcSeqShow .x86 ⟨[()], fun _ => 0⟩
    [busyDev "eth0" [1] [0x0b000001], busyDev "eth1" [1] [0x0b000001]]) (by decide +kernel)
  have hnames : ∀ d ∈ [busyDev "eth0" [1] [0x0b000001], busyDev "eth1" [1] [0x0b000001]],
      PlainName d.name := by
    decide +kernel
  have hlimiters : ∀ d ∈ [busyDev "eth0" [1] [0x0b000001], busyDev "eth1" [1] [0x0b000001]],
      selects none d.name = true → ∀ k ∈ d.tx.hashed, Uncrowded (d.tx.txcs k) := by decide +kernel
  exact ⟨_, hshow, (stats_isoStatsProcSeqShow_iff _ _ none _ hnames _ hshow).mpr
    ⟨hlimiters, ownVqs_none (by decide +kernel)⟩⟩

/-- Two limiters of `eth1` are in one bucket, `eth0` has a VQ, and `eth1` is asked for: the second
limiter is missing, and the VQ is returned for `eth1`. -/
theorem stats_not_exact_crowded :
    ∃ text r, isoStatsProcSeqShow .x86 ⟨[()], fun _ => 0⟩
        [busyDev "eth0" [1] [], busyDev "eth1" [] [0x0b000001, 0x0b000069]] = .ok text ∧
      stats (some "eth1".toList) text = some r ∧
      r.map (fun d => (d.dev, d.txcs.map fun t => t.rls.length, d.vqs.length)) =
      [("eth1".toList, [1], 1)] ∧
      (matching .x86 (some "eth1".toList)
        [busyDev "eth0" [1] [], busyDev "eth1" [] [0x0b000001, 0x0b000069]]).map
        (fun d => (d.dev, d.txcs.map fun t => t.rls.length, d.vqs.length)) =
          [("eth1".toList, [2], 0)] := by
  have hshow := eq_ok_endOr [] (x := isoStatsProcSeqShow .x86 ⟨[()], fun _ => 0⟩
    [busyDev "eth0" [1] [], busyDev "eth1" [] [0x0b000001, 0x0b000069]]) (by decide +kernel)
  have hnames : ∀ d ∈ [busyDev "eth0" [1] [], busyDev "eth1" [] [0x0b000001, 0x0b000069]],
      PlainName d.name := by
    decide +kernel
  exact ⟨_, _, hshow, stats_eq hnames hshow, by decide +kernel, by decide +kernel⟩

end EyeQ.Perfiso
