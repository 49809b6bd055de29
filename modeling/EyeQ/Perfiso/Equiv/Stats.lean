import EyeQ.Perfiso.Equiv.Lines
import EyeQ.Text.Words

/-!
# What `stats` returns

`stats_eq` says what `stats` makes of the text of `iso_stats_proc_seq_show`: the devices that
`filterdev` selects, each with its classes, of each class the first limiter of each bucket, and with
the VQs that are attributed to it.  `dev_by_name` holds the selected devices but the last, and the
VQs of a device that is not in it go to the last device, whether that is selected or not
(`attributee`).

So the text is read back exactly if no bucket of a selected device holds two limiters, and the VQs
of every device are attributed to it, or to one that is not returned either
(`stats_isoStatsProcSeqShow_iff`, in the next module).
-/

namespace EyeQ.Perfiso

open Text Stats Machine

variable {C : Type} {plat : Platform} {cpus : Cpus C} {filterdev : Option (List Char)}

/-- A name without blanks and commas. -/
def PlainName (name : List Char) : Prop := ∀ c ∈ name, isSpace c = false ∧ c ≠ ','

instance (name : List Char) : Decidable (PlainName name) := List.decidableBAll _ name

/-! ### The first line of a device -/

theorem PlainName.comma_notMem {name : List Char} (h : PlainName name) : ',' ∉ name :=
  fun hmem => (h _ hmem).2 rfl

theorem PlainName.solid {name : List Char} (h : PlainName name) : Solid name :=
    fun c hc => (h c hc).1

theorem Solid.blank_notMem {w : List Char} (h : Solid w) : ' ' ∉ w :=
    fun hmem => absurd (h _ hmem) (by decide)

/-- A device that begins. -/
def Reader.addDev (st : Reader) (name : List Char) : Reader :=
  { st with
    isoCreated := name :: st.isoCreated
    devObjs := st.devObjs ++ [{ dev := name }]
    dev := some st.devObjs.length
    rlParse := false }

theorem txDev_reads {st st' : Reader} (hst : st.register filterdev = some st') {name : List Char}
    (hname : PlainName name) (txRate rate : ℕ) :
    Reads (Reader.readLine filterdev)
      ("tx->dev ".toList ++ name ++ ", tx_rate ".toList ++ dec txRate ++
      ", rate ".toList ++ dec rate ++ ['\n']) st (st'.addDev name) := by
  have hline : '\n' ∉ "tx->dev ".toList ++ name ++ ", tx_rate ".toList ++ dec txRate ++
      ", rate ".toList ++
      dec rate := by
    have hdec : ∀ n, '\n' ∉ dec n := fun n => (solid_dec n).newline_notMem
    have htx : '\n' ∉ "tx->dev ".toList := by decide
    have htxRate : '\n' ∉ ", tx_rate ".toList := by decide
    have hrate : '\n' ∉ ", rate ".toList := by decide
    simp only [List.mem_append, hdec, htx, htxRate, hrate, hname.solid.newline_notMem, or_false,
      not_false_eq_true]
  refine Reads.line hline ?_
  have htext : "tx->dev ".toList ++ name ++ ", tx_rate ".toList ++ dec txRate ++
      ", rate ".toList ++ dec rate ++
      ['\n'] = "tx->dev".toList ++ ' ' :: name ++ ',' :: (" tx_rate ".toList ++ dec txRate ++
        ", rate ".toList ++ dec rate ++ ['\n']) := by
    have htx : "tx->dev ".toList = "tx->dev".toList ++ [' '] := rfl
    have htxRate : ", tx_rate ".toList = ',' :: " tx_rate ".toList := rfl
    rw [htx, htxRate]
    simp only [List.append_assoc, List.cons_append, List.nil_append]
  rw [htext]
  have hstarts : OnlyStarts .txDev ("tx->dev".toList ++ ' ' :: name ++ ',' :: (" tx_rate ".toList ++
      dec txRate ++ ", rate ".toList ++ dec rate ++ ['\n'])) := by
    rw [List.append_assoc]
    exact onlyStarts_append .txDev _
  have hfirst : ',' ∉ "tx->dev".toList ++ ' ' :: name := by
    have htx : ',' ∉ "tx->dev".toList := by decide
    rw [List.mem_append, List.mem_cons]
    rintro (h | h | h)
    · exact htx h
    · exact absurd h (by decide)
    · exact hname.comma_notMem h
  have hblank : ' ' ∉ "tx->dev".toList := by decide
  have hsplit := splitOn_append_cons hfirst (" tx_rate ".toList ++ dec txRate ++
    ", rate ".toList ++ dec rate ++
    ['\n'])
  have hname' : ("tx->dev".toList ++ ' ' :: name).splitOn ' ' = ["tx->dev".toList, name] := by
    rw [splitOn_append_cons hblank, splitOn_of_notMem hname.solid.blank_notMem]
  rw [hstarts.readLine, Start.read, Reader.txDev, hst, hsplit]
  simp only [Option.bind_eq_bind, Option.bind_some, List.getElem?_cons_zero, hname']
  rfl

/-- The first line of the VQs of a device, with the empty line before it. -/
theorem vqs_reads {st : Reader} {name : List Char} (hname : PlainName name) {rest : List Char}
    (hrest : '\n' ∉ rest) :
    Reads (Reader.readLine filterdev)
      (['\n'] ++ ("vqs->dev ".toList ++ name ++ "   last_update ".toList ++ rest ++
      ['\n'])) st { st with vqDev := some name } := by
  refine (skips_empty st).append (Reads.line ?_ ?_)
  · have hvqs : '\n' ∉ "vqs->dev ".toList := by decide
    have hlast : '\n' ∉ "   last_update ".toList := by decide
    simp only [List.mem_append, hvqs, hlast, hrest, hname.solid.newline_notMem, or_false,
      not_false_eq_true]
  · have htext : "vqs->dev ".toList ++ name ++ "   last_update ".toList ++ rest ++ ['\n'] =
        "vqs->dev".toList ++ ' ' ::
        (name ++ ' ' :: ("  last_update ".toList ++ rest ++ ['\n'])) := by
      have hvqs : "vqs->dev ".toList = "vqs->dev".toList ++ [' '] := rfl
      have hlast : "   last_update ".toList = ' ' :: "  last_update ".toList := rfl
      rw [hvqs, hlast]
      simp only [List.append_assoc, List.cons_append, List.nil_append]
    rw [htext]
    have hstarts : OnlyStarts .vqs
        ("vqs->dev".toList ++ ' ' :: (name ++ ' ' :: ("  last_update ".toList ++ rest ++
        ['\n']))) := onlyStarts_append .vqs _
    have hblank : ' ' ∉ "vqs->dev".toList := by decide
    rw [hstarts.readLine, Start.read, Reader.vqs, splitOn_append_cons hblank,
      splitOn_append_cons hname.solid.blank_notMem]
    rfl

/-! ### The classes of all devices -/

/-- What is read of the classes of a device. -/
def txcsRead (plat : Platform) (d : StatsDev C) : List TxcData :=
  d.tx.hashed.map fun k =>
    txcData plat d.rx (d.tx.txcs k) (d.gauges.txcs k) (rlBuckets.flatMap (firstRl (d.tx.txcs k)))

/-- The devices that `filterdev` selects, with their indexes. -/
def selected (filterdev : Option (List Char)) (ds : List (StatsDev C)) : List (StatsDev C × ℕ) :=
  ds.zipIdx.filter fun x => selects filterdev x.1.name

/-- The variables of `stats` when the devices `ds` have begun, their classes have been read, and VQs
have been attributed to them.  The last one is not registered yet. -/
structure HasRead (plat : Platform) (filterdev : Option (List Char)) (ds : List (StatsDev C))
    (vqs : ℕ → List VqData) (st : Reader) : Prop where
  dev : st.dev = if ds = [] then none else some (ds.length - 1)
  length : st.devObjs.length = ds.length
  objs : ∀ i d, ds[i]? = some d → ∃ ts : List ℕ,
    st.devObjs[i]? = some (⟨d.name, ts, vqs i⟩ : DevObj) ∧
    ts.mapM (fun t => st.txcObjs[t]?) = some (txcsRead plat d)
  devs : st.devs = (selected filterdev ds.dropLast).map Prod.snd
  devByName : st.devByName = ((selected filterdev ds.dropLast).map fun x => (x.1.name, x.2)).reverse
  created : st.isoCreated = (ds.map fun d => d.name).reverse

theorem HasRead.nil : HasRead plat filterdev ([] : List (StatsDev C)) (fun _ => []) {} where
  dev := rfl
  length := rfl
  objs := by simp
  devs := rfl
  devByName := rfl
  created := rfl

theorem selected_append (ds : List (StatsDev C)) (d : StatsDev C) :
    selected filterdev (ds ++ [d]) =
      selected filterdev ds ++ if selects filterdev d.name then [(d, ds.length)] else [] := by
  rw [selected, selected, List.zipIdx_append, List.filter_append, Nat.zero_add,
    List.zipIdx_singleton]
  rw [List.filter_singleton, Bool.cond_eq_ite]

/-- The last device is registered when the next one begins, or after the last line. -/
theorem HasRead.register {ds : List (StatsDev C)} {vqs : ℕ → List VqData} {st : Reader}
    (h : HasRead plat filterdev ds vqs st) :
    st.register filterdev = some { st with
      devs := (selected filterdev ds).map Prod.snd
      devByName := ((selected filterdev ds).map fun x => (x.1.name, x.2)).reverse } := by
  have hdev := h.dev
  have hdevs := h.devs
  have hby := h.devByName
  rcases List.eq_nil_or_concat ds with rfl | ⟨init, d, rfl⟩
  · rw [if_pos rfl] at hdev
    rw [List.dropLast_nil] at hdevs hby
    rw [← hdevs, ← hby, Reader.register]
    simp only [hdev]
    rw [← hdev]
  · rw [List.concat_eq_append] at h hdev hdevs hby ⊢
    rw [if_neg (by simp), List.length_append, List.length_singleton, Nat.add_sub_cancel] at hdev
    rw [List.dropLast_concat] at hdevs hby
    obtain ⟨ts, hobj, -⟩ := h.objs init.length d (by simp)
    rw [Reader.register, selected_append]
    simp only [hdev, hobj, Option.bind_eq_bind, Option.bind_some]
    split_ifs with hsel
    · simp [hdevs, hby]
    · rw [List.append_nil, ← hdevs, ← hby, ← hdev]

theorem addTxc_foldl {st : Reader} {objs : List DevObj} {o : DevObj}
    (hobjs : st.devObjs = objs ++ [o]) (ts : List TxcData) :
    (ts.foldl (Reader.addTxc objs.length) st).devObjs =
        objs ++ [{ o with txcs := o.txcs ++ List.range' st.txcObjs.length ts.length }] ∧
      (ts.foldl (Reader.addTxc objs.length) st).txcObjs = st.txcObjs ++ ts ∧
      (ts.foldl (Reader.addTxc objs.length) st).dev = st.dev ∧
      (ts.foldl (Reader.addTxc objs.length) st).devs = st.devs ∧
      (ts.foldl (Reader.addTxc objs.length) st).devByName = st.devByName ∧
      (ts.foldl (Reader.addTxc objs.length) st).isoCreated = st.isoCreated := by
  induction ts generalizing st o with
  | nil => simp [hobjs]
  | cons t ts ih =>
    have hstep : (st.addTxc objs.length t).devObjs =
        objs ++ [{ o with txcs := o.txcs ++ [st.txcObjs.length] }] := by
      rw [Reader.addTxc, hobjs, modify_length_append]
    obtain ⟨hdev, htxc, hrest⟩ := ih hstep
    refine ⟨?_, ?_, hrest⟩
    · rw [List.foldl_cons, hdev]
      simp [Reader.addTxc, List.range'_succ]
    · rw [List.foldl_cons, htxc]
      simp [Reader.addTxc]

/-- References to the end of a list. -/
theorem mapM_range' {α : Type} (l ts : List α) :
    (List.range' l.length ts.length).mapM (fun t => (l ++ ts)[t]?) = some ts := by
  induction ts generalizing l with
  | nil => rfl
  | cons t ts ih =>
    have hrest := ih (l ++ [t])
    rw [List.length_append, List.length_singleton, List.append_assoc,
      List.singleton_append] at hrest
    rw [List.length_cons, List.range'_succ, List.mapM_cons, hrest]
    simp

/-- References stay valid when the list grows. -/
theorem mapM_getElem?_append {α : Type} {l : List α} {ts : List ℕ} {xs : List α}
    (h : ts.mapM (fun t => l[t]?) = some xs) (l' : List α) :
    ts.mapM (fun t => (l ++ l')[t]?) = some xs := by
  induction ts generalizing xs with
  | nil => exact h
  | cons t ts ih =>
    rw [List.mapM_cons, Option.bind_eq_bind, Option.bind_eq_some_iff] at h
    obtain ⟨x, hx, h⟩ := h
    rw [Option.bind_eq_bind, Option.bind_eq_some_iff] at h
    obtain ⟨ys, hys, h⟩ := h
    obtain ⟨hlt, -⟩ := List.getElem?_eq_some_iff.mp hx
    rw [List.mapM_cons, List.getElem?_append_left hlt, hx, Option.bind_eq_bind,
      Option.bind_some, ih hys]
    exact h

theorem txcs_reads {st : Reader} {i : ℕ} (hdev : st.dev = some i) (d : StatsDev C) (ks : List ℕ) :
    Reads (Reader.readLine filterdev)
      (ks.flatMap fun k => isoTxcShow plat cpus d.rx (d.tx.txcs k) (d.gauges.txcs k)) st
      ((ks.map fun k => txcData plat d.rx (d.tx.txcs k) (d.gauges.txcs k)
        (rlBuckets.flatMap (firstRl (d.tx.txcs k)))).foldl (Reader.addTxc i) st) := by
  rw [List.foldl_map]
  exact Reads.flatMap (P := fun st => st.dev = some i) (fun _ _ _ h => h)
    (fun _ k _ h => isoTxcShow_reads h d.rx (d.tx.txcs k) (d.gauges.txcs k)) hdev

/-- One more device. -/
theorem txShow_reads {ds : List (StatsDev C)} {st : Reader}
    (h : HasRead plat filterdev ds (fun _ => []) st) {d : StatsDev C} (hname : PlainName d.name) :
    ∃ st', Reads (Reader.readLine filterdev) (txShow plat cpus d) st st' ∧
      HasRead plat filterdev (ds ++ [d]) (fun _ => []) st' := by
  have hhead := txDev_reads h.register hname d.gauges.txRate d.gauges.rate
  set st₁ := Reader.addDev { st with
    devs := (selected filterdev ds).map Prod.snd
    devByName := ((selected filterdev ds).map fun x => (x.1.name, x.2)).reverse } d.name with hst₁
  have hdev : st₁.dev = some st.devObjs.length := rfl
  have hobjs : st₁.devObjs = st.devObjs ++ [{ dev := d.name }] := rfl
  obtain ⟨hdevObjs, htxcObjs, hdev', hdevs, hby, hcreated⟩ := addTxc_foldl hobjs (txcsRead plat d)
  refine ⟨_, hhead.append (txcs_reads hdev d d.tx.hashed), ?_⟩
  change HasRead plat filterdev (ds ++ [d]) (fun _ => [])
    ((txcsRead plat d).foldl (Reader.addTxc st.devObjs.length) st₁)
  refine ⟨?_, ?_, ?_, ?_, ?_, ?_⟩
  · rw [hdev', hdev, h.length]
    simp
  · rw [hdevObjs]
    simp [h.length]
  · intro i e he
    rw [hdevObjs, htxcObjs]
    rcases Nat.lt_or_ge i ds.length with hlt | hge
    · -- a device before: its classes have not moved
      rw [List.getElem?_append_left hlt] at he
      obtain ⟨ts, hobj, hts⟩ := h.objs i e he
      refine ⟨ts, ?_, mapM_getElem?_append hts _⟩
      rw [List.getElem?_append_left (by rwa [h.length]), hobj]
    · rw [List.getElem?_append_right hge, List.getElem?_singleton] at he
      split_ifs at he with hi
      obtain rfl : d = e := Option.some.inj he
      obtain rfl : i = ds.length := by omega
      refine ⟨_, ?_, mapM_range' _ _⟩
      rw [← h.length, List.getElem?_concat_length]
      rfl
  · rw [hdevs, List.dropLast_concat]
    rfl
  · rw [hby, List.dropLast_concat]
    rfl
  · rw [hcreated, List.map_append, List.reverse_append, ← h.created]
    rfl

theorem tx_reads {ds : List (StatsDev C)} (hnames : ∀ d ∈ ds, PlainName d.name) :
    ∃ st, Reads (Reader.readLine filterdev) (ds.flatMap (txShow plat cpus)) {} st ∧
      HasRead plat filterdev ds (fun _ => []) st := by
  induction ds using List.reverseRecOn with
  | nil => exact ⟨{}, Reads.nil _, HasRead.nil⟩
  | append_singleton ds d ih =>
    obtain ⟨st, hreads, hst⟩ := ih fun e he => hnames e (List.mem_append_left _ he)
    obtain ⟨st', hreads', hst'⟩ :=
      @txShow_reads C plat cpus filterdev ds st hst d (hnames d (by simp))
    refine ⟨st', ?_, hst'⟩
    rw [List.flatMap_append, List.flatMap_singleton]
    exact hreads.append hreads'

/-! ### The VQs of all devices -/

/-- What is read of the VQs of a device. -/
def vqsRead (plat : Platform) (d : StatsDev C) : List VqData :=
  d.rx.vqList.map fun v => vqData plat (d.rx.vqs v)

/-- The device that the VQs of `name` are attributed to. -/
def attributee (filterdev : Option (List Char)) (ds : List (StatsDev C)) (name : List Char) : ℕ :=
  (((selected filterdev ds.dropLast).map fun x => (x.1.name, x.2)).reverse.lookup name).getD
    (ds.length - 1)

theorem HasRead.whichdev {ds : List (StatsDev C)} {vqs : ℕ → List VqData} {st : Reader}
    (h : HasRead plat filterdev ds vqs st) (hds : ds ≠ []) {name : List Char}
    (hname : st.vqDev = some name) :
    st.whichdev = some (attributee filterdev ds name) := by
  rw [Reader.whichdev, hname, Option.bind_some, h.devByName, attributee, h.dev, if_neg hds]
  cases List.lookup name _ <;> rfl

theorem HasRead.addVq {ds : List (StatsDev C)} {vqs : ℕ → List VqData} {st : Reader}
    (h : HasRead plat filterdev ds vqs st) (t : ℕ) (v : VqData) :
    HasRead plat filterdev ds (Function.update vqs t (vqs t ++ [v])) (st.addVq t v) where
  dev := h.dev
  length := by rw [← h.length, Reader.addVq, List.length_modify]
  objs := by
    intro i d hd
    obtain ⟨ts, hobj, hts⟩ := h.objs i d hd
    refine ⟨ts, ?_, hts⟩
    rw [Reader.addVq, List.getElem?_modify, hobj]
    rcases eq_or_ne t i with rfl | hne
    · simp
    · simp [hne, hne.symm]
  devs := h.devs
  devByName := h.devByName
  created := h.created

theorem vqList_reads {ds : List (StatsDev C)} {vqs : ℕ → List VqData} {st : Reader}
    (h : HasRead plat filterdev ds vqs st) {t : ℕ} (ht : st.whichdev = some t)
    (d : StatsDev C) {vs : List ℕ} {texts : List (List Char)}
    (hshow : vs.mapM (fun v => isoVqShow plat cpus (d.gauges.vqEnabled v) (d.rx.vqs v)) =
      .ok texts) :
    ∃ st', Reads (Reader.readLine filterdev) texts.flatten st st' ∧
      HasRead plat filterdev ds
        (Function.update vqs t (vqs t ++ vs.map fun v => vqData plat (d.rx.vqs v))) st' := by
  induction vs generalizing st vqs texts with
  | nil =>
    obtain rfl : [] = texts := Except.ok.inj hshow
    refine ⟨st, Reads.nil st, ?_⟩
    rwa [List.map_nil, List.append_nil, Function.update_eq_self]
  | cons v vs ih =>
    rw [List.mapM_cons] at hshow
    obtain ⟨text, htext, hshow⟩ := bind_eq_ok hshow
    obtain ⟨texts', htexts, hshow⟩ := bind_eq_ok hshow
    obtain rfl : text :: texts' = texts := Except.ok.inj hshow
    obtain ⟨st', hreads, hst'⟩ := ih (h.addVq t _) ht htexts
    refine ⟨st', (isoVqShow_reads ht htext).append hreads, ?_⟩
    rwa [Function.update_self, Function.update_idem, List.append_assoc,
      List.singleton_append] at hst'

/-- One more device. -/
theorem rxShow_reads {ds : List (StatsDev C)} (hds : ds ≠ []) {vqs : ℕ → List VqData} {st : Reader}
    (h : HasRead plat filterdev ds vqs st) {d : StatsDev C} (hname : PlainName d.name)
    {text : List Char} (hshow : rxShow plat cpus d = .ok text) :
    ∃ st', Reads (Reader.readLine filterdev) text st st' ∧
      HasRead plat filterdev ds (Function.update vqs (attributee filterdev ds d.name)
        (vqs (attributee filterdev ds d.name) ++ vqsRead plat d)) st' := by
  obtain ⟨texts, htexts, hshow⟩ := bind_eq_ok hshow
  have hst₁ : HasRead plat filterdev ds vqs { st with vqDev := some d.name } :=
    ⟨h.dev, h.length, h.objs, h.devs, h.devByName, h.created⟩
  obtain ⟨st', hreads, hst'⟩ := vqList_reads hst₁ (hst₁.whichdev hds rfl) d htexts
  refine ⟨st', ?_, hst'⟩
  obtain rfl := Except.ok.inj hshow
  have hrest : '\n' ∉ hex d.gauges.vqLastUpdateTime ++ "   active_rate ".toList ++
      decInt d.gauges.vqActiveRate ++
      "   rx_rate ".toList ++ decInt (s32 d.rx.rxRate) ++ "   rcp_rate ".toList ++
      decInt (s32 d.rx.rcpRate) := by
    have hhex : ∀ n, '\n' ∉ hex n := fun n => (solid_hex n).newline_notMem
    have hdec : ∀ n, '\n' ∉ decInt n := fun n => (solid_decInt n).newline_notMem
    have hactive : '\n' ∉ "   active_rate ".toList := by decide
    have hrx : '\n' ∉ "   rx_rate ".toList := by decide
    have hrcp : '\n' ∉ "   rcp_rate ".toList := by decide
    simp only [List.mem_append, hhex, hdec, hactive, hrx, hrcp, or_false, not_false_eq_true]
  have hhead : Reads (Reader.readLine filterdev) _ st { st with vqDev := some d.name } :=
    vqs_reads hname hrest
  simp only [← List.append_assoc] at hhead ⊢
  exact hhead.append hreads

/-- The VQs of `ds'` that are attributed to the device with index `i`. -/
def attributed (plat : Platform) (filterdev : Option (List Char))
    (ds ds' : List (StatsDev C)) (i : ℕ) :
    List VqData :=
  ds'.flatMap fun d => if attributee filterdev ds d.name = i then vqsRead plat d else []

theorem rx_reads {ds : List (StatsDev C)} {vqs : ℕ → List VqData} {st : Reader}
    (h : HasRead plat filterdev ds vqs st) {ds' : List (StatsDev C)} (hsub : ∀ d ∈ ds', d ∈ ds)
    (hnames : ∀ d ∈ ds, PlainName d.name) {texts : List (List Char)}
    (hshow : ds'.mapM (rxShow plat cpus) = .ok texts) :
    ∃ st', Reads (Reader.readLine filterdev) texts.flatten st st' ∧
      HasRead plat filterdev ds (fun i => vqs i ++ attributed plat filterdev ds ds' i) st' := by
  induction ds' generalizing st vqs texts with
  | nil =>
    obtain rfl : [] = texts := Except.ok.inj hshow
    refine ⟨st, Reads.nil st, ?_⟩
    simpa only [attributed, List.flatMap_nil, List.append_nil] using h
  | cons d ds' ih =>
    rw [List.mapM_cons] at hshow
    obtain ⟨text, htext, hshow⟩ := bind_eq_ok hshow
    obtain ⟨texts', htexts, hshow⟩ := bind_eq_ok hshow
    obtain rfl : text :: texts' = texts := Except.ok.inj hshow
    have hd := hsub d List.mem_cons_self
    obtain ⟨st₁, hreads₁, hst₁⟩ := rxShow_reads (List.ne_nil_of_mem hd) h (hnames d hd) htext
    obtain ⟨st', hreads, hst'⟩ := ih hst₁ (fun e he => hsub e (List.mem_cons_of_mem _ he)) htexts
    refine ⟨st', hreads₁.append hreads, ?_⟩
    convert hst' using 2 with i
    rw [attributed, List.flatMap_cons, ← List.append_assoc, ← attributed]
    congr 1
    rcases eq_or_ne (attributee filterdev ds d.name) i with rfl | hne
    · rw [if_pos rfl, Function.update_self]
    · rw [if_neg hne, Function.update_of_ne hne.symm, List.append_nil]

/-! ### What is returned -/

/-- The selected devices, with the first limiters of the buckets, and the VQs that are attributed to
them. -/
def outcome (plat : Platform) (filterdev : Option (List Char)) (ds : List (StatsDev C)) :
    List DevData :=
  (selected filterdev ds).map fun x =>
    ⟨x.1.name, txcsRead plat x.1, attributed plat filterdev ds ds x.2⟩

theorem HasRead.resolve {ds : List (StatsDev C)} {vqs : ℕ → List VqData} {st : Reader}
    (h : HasRead plat filterdev ds vqs st) {x : StatsDev C × ℕ} (hx : x ∈ selected filterdev ds) :
    st.resolve x.2 = some ⟨x.1.name, txcsRead plat x.1, vqs x.2⟩ := by
  rw [selected, List.mem_filter, List.mem_zipIdx_iff_getElem?] at hx
  obtain ⟨ts, hobj, hts⟩ := h.objs x.2 x.1 hx.1
  simp only [Reader.resolve, hobj, Option.bind_eq_bind, Option.bind_some, hts]

theorem mapM_map_of_some {α β γ : Type} {f : α → β} {g : β → Option γ} {k : α → γ} {l : List α}
    (h : ∀ x ∈ l, g (f x) = some (k x)) : (l.map f).mapM g = some (l.map k) := by
  induction l with
  | nil => rfl
  | cons x l ih =>
    rw [List.map_cons, List.mapM_cons, h x List.mem_cons_self,
      ih fun y hy => h y (List.mem_cons_of_mem _ hy)]
    rfl

theorem readStats_hasRead {ds : List (StatsDev C)} (hnames : ∀ d ∈ ds, PlainName d.name)
    {text : List Char} (hshow : isoStatsProcSeqShow plat cpus ds = .ok text) :
    ∃ st, readStats filterdev text = some st ∧
    HasRead plat filterdev ds (attributed plat filterdev ds ds) st := by
  obtain ⟨texts, htexts, hshow⟩ := bind_eq_ok hshow
  obtain rfl := Except.ok.inj hshow
  obtain ⟨st₁, hreads₁, hst₁⟩ := @tx_reads C plat cpus filterdev ds hnames
  obtain ⟨st₂, hreads₂, hst₂⟩ := rx_reads hst₁ (fun _ hd => hd) hnames htexts
  simp only [List.nil_append] at hst₂
  exact ⟨st₂, (hreads₁.append hreads₂).eq, hst₂⟩

theorem stats_eq {ds : List (StatsDev C)} (hnames : ∀ d ∈ ds, PlainName d.name) {text : List Char}
    (hshow : isoStatsProcSeqShow plat cpus ds = .ok text) :
    stats filterdev text = some (outcome plat filterdev ds) := by
  obtain ⟨st, hread, hst⟩ := @readStats_hasRead C plat cpus filterdev ds hnames text hshow
  rw [stats, hread, Option.bind_eq_bind, Option.bind_some, hst.register, Option.bind_some]
  exact mapM_map_of_some fun x hx => hst.resolve hx

end EyeQ.Perfiso
