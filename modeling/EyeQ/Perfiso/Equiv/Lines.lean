import EyeQ.Perfiso.Stats

/-!
# What `stats` reads of the lines that are printed

A line of which `stats` takes something is a row of fields (`Tidy`), and `reSpacesSplit` gives them
back.  All other lines begin with `ip`, a tab or nothing, and are skipped (`isoRlShow_skips`).

* `isoTxcShow_reads`: of a class, its two lines and the first limiter of each bucket.
* `isoVqShow_reads`: of a VQ, its line.
-/

namespace EyeQ.Perfiso

open Text Stats

variable {C : Type} {plat : Platform} {cpus : Cpus C} {filterdev : Option (List Char)}

/-! ### Fields -/

/-- Characters that are no blanks. -/
def Solid (w : List Char) : Prop := ∀ c ∈ w, isSpace c = false

instance (w : List Char) : Decidable (Solid w) := List.decidableBAll _ w

theorem Solid.append {w w' : List Char} (h : Solid w) (h' : Solid w') : Solid (w ++ w') := by
  intro c hc
  rcases List.mem_append.mp hc with hc | hc
  · exact h c hc
  · exact h' c hc

theorem solid_hexDigits : Solid hexDigits := by decide

theorem solid_dec (n : ℕ) : Solid (dec n) := forall_mem_dec solid_hexDigits n

theorem solid_hex (n : ℕ) : Solid (hex n) := forall_mem_hex solid_hexDigits n

theorem solid_decInt (z : ℤ) : Solid (decInt z) := forall_mem_decInt solid_hexDigits (by decide) z

theorem solid_ptr (n : ℕ) : Solid (ptr n) := forall_mem_padLeft (by decide) (solid_hex n)

theorem solid_quad (addr : UInt32) : Solid (quad addr) := by
  have hdot : Solid ".".toList := by decide
  unfold quad
  exact ((((((solid_dec _).append hdot).append (solid_dec _)).append hdot).append
    (solid_dec _)).append hdot).append (solid_dec _)

theorem decInt_ne_nil (z : ℤ) : decInt z ≠ [] := by
  cases z with
  | ofNat n => exact dec_ne_nil n
  | negSucc n => exact List.cons_ne_nil _ _

/-- A field of a line. -/
structure Field (w : List Char) : Prop where
  ne_nil : w ≠ []
  solid : Solid w

theorem field_of {w : List Char} (h : w ≠ [] ∧ Solid w) : Field w := ⟨h.1, h.2⟩

theorem Field.append {w w' : List Char} (h : Field w) (h' : Solid w') : Field (w ++ w') :=
  ⟨List.append_ne_nil_of_left_ne_nil h.ne_nil w', h.solid.append h'⟩

theorem field_dec (n : ℕ) : Field (dec n) := ⟨dec_ne_nil n, solid_dec n⟩

theorem field_hex (n : ℕ) : Field (hex n) := ⟨hex_ne_nil n, solid_hex n⟩

theorem field_decInt (z : ℤ) : Field (decInt z) := ⟨decInt_ne_nil z, solid_decInt z⟩

theorem field_quad (addr : UInt32) : Field (quad addr) := by
  refine ⟨?_, solid_quad addr⟩
  unfold quad
  simp [dec_ne_nil]

theorem field_assocShow (rx : RxContext C) (txc : TxClass C) : Field (assocShow plat rx txc) := by
  unfold assocShow
  split
  · exact field_quad _
  · exact ⟨by decide, by decide⟩

/-- The blanks between two fields. -/
def IsGap (gap : List Char) : Prop := gap ≠ [] ∧ ∀ c ∈ gap, c = ' '

instance (gap : List Char) : Decidable (IsGap gap) :=
  haveI : Decidable (∀ c ∈ gap, c = ' ') := List.decidableBAll _ gap
  inferInstanceAs (Decidable (_ ∧ _))

/-- Fields with blanks behind each. -/
def Tidy (row : Row Char) : Prop := ∀ f ∈ row, Field f.1 ∧ f.2 ≠ [] ∧ ∀ c ∈ f.2, c = ' '

theorem tidy_nil : Tidy [] := by simp [Tidy]

theorem Tidy.cons {w gap : List Char} {row : Row Char} (hw : Field w)
    (hgap : IsGap gap) (h : Tidy row) :
    Tidy ((w, gap) :: row) := by
  intro f hf
  rcases List.mem_cons.mp hf with rfl | hf
  · exact ⟨hw, hgap⟩
  · exact h f hf

theorem Solid.newline_notMem {w : List Char} (h : Solid w) : '\n' ∉ w := by
  intro hmem
  exact absurd (h _ hmem) (by decide)

theorem Tidy.newline_notMem {row : Row Char} (h : Tidy row) : '\n' ∉ Row.text row := by
  intro hmem
  obtain ⟨f, hf, hmem⟩ := List.mem_flatMap.mp hmem
  obtain ⟨hw, -, hgap⟩ := h f hf
  rcases List.mem_append.mp hmem with hmem | hmem
  · exact hw.solid.newline_notMem hmem
  · exact absurd (hgap _ hmem) (by decide)

/-- The fields of a line are read back. -/
theorem Tidy.reSpacesSplit {row : Row Char} (h : Tidy row) {last : List Char} (hlast : Field last) :
    reSpacesSplit (Row.text row ++ last ++ ['\n']) = row.map Prod.fst ++ [last, []] := by
  have hproper : Row.Proper isSpace (row ++ [(last, ['\n'])]) := by
    intro f hf
    rcases List.mem_append.mp hf with hf | hf
    · obtain ⟨hw, hne, hgap⟩ := h f hf
      refine ⟨hw.ne_nil, hw.solid, hne, fun c hc => ?_⟩
      rw [hgap c hc]
      decide
    · obtain rfl := List.mem_singleton.mp hf
      exact ⟨hlast.ne_nil, hlast.solid, show ['\n'] ≠ [] by decide,
        List.forall_mem_singleton.mpr rfl⟩
  have htext : Row.text (row ++ [(last, ['\n'])]) = Row.text row ++ last ++ ['\n'] := by
    simp [Row.text]
  rw [Perfiso.reSpacesSplit, ← htext, splitRuns_row hproper]
  simp

/-! ### What a line begins with -/

/-- What `stats` looks for at the beginning of a line. -/
inductive Start where
  | txDev
  | txcClass
  | txcRl
  | rateLimiters
  | hash
  | vqs
  | vqClass
deriving DecidableEq

namespace Start

def text : Start → String
  | txDev => "tx->dev"
  | txcClass => "txc class"
  | txcRl => "txc rl"
  | rateLimiters => "rate limiters:"
  | hash => "hash"
  | vqs => "vqs"
  | vqClass => "vq class"

/-- What it does with such a line. -/
def read (filterdev : Option (List Char)) (line : List Char) (st : Reader) : Start → Option Reader
  | txDev => st.txDev filterdev line
  | txcClass => st.txcClass line
  | txcRl => st.txcRl line
  | rateLimiters => some { st with rlParse := true }
  | hash => if st.rlParse then st.hash line else some st
  | vqs => st.vqs line
  | vqClass => st.vqClass line

/-- None of them is the beginning of another. -/
theorem not_prefix {a b : Start} (h : a ≠ b) : ¬ a.text.toList <+: b.text.toList := by
  revert h
  cases a <;> cases b <;> decide +kernel

end Start

/-- A line begins in at most one of these ways. -/
theorem readLine_eq (start : Option Start) {line : List Char}
    (h : ∀ o : Start, startswith o.text line = decide (some o = start)) (st : Reader) :
    st.readLine filterdev line = start.elim (some st) fun o => o.read filterdev line st := by
  have htxDev : startswith "tx->dev" line = _ := h .txDev
  have htxcClass : startswith "txc class" line = _ := h .txcClass
  have htxcRl : startswith "txc rl" line = _ := h .txcRl
  have hrateLimiters : startswith "rate limiters:" line = _ := h .rateLimiters
  have hhash : startswith "hash" line = _ := h .hash
  have hvqs : startswith "vqs" line = _ := h .vqs
  have hvqClass : startswith "vq class" line = _ := h .vqClass
  rw [Reader.readLine, htxDev, htxcClass, htxcRl, hrateLimiters, hhash, hvqs, hvqClass]
  rcases start with _ | _ | _ <;> simp [Start.read]

/-- The first character is enough to tell that nothing is read. -/
theorem readLine_of_head {c : Char} (hc : c ∉ ['t', 'r', 'h', 'v'])
    (line : List Char) (st : Reader) :
    st.readLine filterdev (c :: line) = some st := by
  refine readLine_eq none (fun o => ?_) st
  obtain ⟨a, tail, htext, ha⟩ : ∃ a tail, o.text.toList = a :: tail ∧ a ∈ ['t', 'r', 'h', 'v'] := by
    cases o <;> exact ⟨_, _, rfl, by decide⟩
  have hne : a ≠ c := by
    rintro rfl
    exact hc ha
  rw [startswith, htext]
  show (a == c && tail.isPrefixOf line) = false
  simp [hne]

theorem skips_line {line : List Char} {c : Char} (hhead : line.head? = some c)
    (hc : c ∉ ['t', 'r', 'h', 'v']) (hline : '\n' ∉ line) :
    Skips (Reader.readLine filterdev) (line ++ ['\n']) := by
  intro st
  obtain ⟨tail, rfl⟩ := List.head?_eq_some_iff.mp hhead
  exact Reads.line hline (readLine_of_head hc _ st)

theorem skips_empty : Skips (Reader.readLine filterdev) ['\n'] := by
  intro st
  have hempty : '\n' ∉ ([] : List Char) := List.not_mem_nil
  exact Reads.line hempty (readLine_of_head (by decide) [] st)

/-- A line that begins like this, and like nothing else that `stats` looks for. -/
def OnlyStarts (start : Start) (line : List Char) : Prop :=
  ∀ o : Start, startswith o.text line = decide (o = start)

theorem OnlyStarts.readLine {start : Start} {line : List Char} (h : OnlyStarts start line)
    (st : Reader) : st.readLine filterdev line = start.read filterdev line st := by
  refine readLine_eq (some start) (fun o => ?_) st
  rw [h o]
  simp

theorem onlyStarts_append (start : Start) (rest : List Char) :
    OnlyStarts start (start.text.toList ++ rest) := by
  intro o
  rw [Bool.eq_iff_iff, startswith, List.isPrefixOf_iff_prefix, decide_eq_true_eq]
  constructor
  · intro hprefix
    by_contra hne
    rcases List.prefix_or_prefix_of_prefix hprefix (List.prefix_append _ _) with h | h
    · exact Start.not_prefix hne h
    · exact Start.not_prefix (Ne.symm hne) h
  · rintro rfl
    exact List.prefix_append _ _

theorem onlyStarts_words {start : Start} {a b : List Char}
    (hword : start.text.toList = a ++ (" ".toList ++ b)) (gap : List Char) (row : Row Char)
    (rest : List Char) :
    OnlyStarts start (Row.text ((a, " ".toList) :: (b, gap) :: row) ++ rest) := by
  have happend := onlyStarts_append start (gap ++ Row.text row ++ rest)
  rw [hword] at happend
  simpa only [Row.text_cons, List.append_assoc] using happend

/-! ### Limiters -/

/-- What follows the first line of a limiter. -/
def rlRest (cpus : Cpus C) (rl : Rl C) (g : RlGauges C) : List Char :=
  (if cpus.online = [] then []
    else "\tcpu   len   first_len   queued   fbacklog   tokens  active?".toList ++ ['\n']) ++
    cpus.online.flatMap (queueLine cpus rl g)

/-- The first line of a limiter. -/
def rlRow (rl : Rl C) : Row Char :=
  [("ip".toList, " ".toList), (hex rl.ip.toNat, "   ".toList), ("rate".toList, " ".toList),
    (dec rl.rate, "   ".toList), ("total_tokens".toList, " ".toList),
    (dec rl.totalTokens, "   ".toList),
    ("last".toList, " ".toList), (hex rl.lastUpdateTime, "   ".toList)]

theorem isoRlShow_eq (rl : Rl C) (g : RlGauges C) :
    isoRlShow cpus rl g = Row.text (rlRow rl) ++ ptr g.addr ++ ['\n'] ++ rlRest cpus rl g := by
  unfold isoRlShow rlRow rlRest
  have hip : "ip ".toList = "ip".toList ++ " ".toList := rfl
  have hrate : "   rate ".toList = "   ".toList ++ ("rate".toList ++ " ".toList) := rfl
  have htokens : "   total_tokens ".toList =
      "   ".toList ++ ("total_tokens".toList ++ " ".toList) := rfl
  have hlast : "   last ".toList = "   ".toList ++ ("last".toList ++ " ".toList) := rfl
  rw [hip, hrate, htokens, hlast]
  simp only [Row.text_cons, Row.text_nil, List.append_assoc, List.nil_append]

theorem rlRow_tidy (rl : Rl C) : Tidy (rlRow rl) := by
  refine .cons (field_of (by decide)) (by decide) (.cons (field_hex _) (by decide) ?_)
  refine .cons (field_of (by decide)) (by decide) (.cons (field_dec _) (by decide) ?_)
  refine .cons (field_of (by decide)) (by decide) (.cons (field_dec _) (by decide) ?_)
  exact .cons (field_of (by decide)) (by decide) (.cons (field_hex _) (by decide) tidy_nil)

theorem newline_notMem_padLeft {width : ℕ} {s : List Char} (h : Solid s) :
    '\n' ∉ padLeft width ' ' s := by
  intro hmem
  have hne : ∀ c ∈ padLeft width ' ' s, c ≠ '\n' :=
    forall_mem_padLeft (by decide) fun c hc heq => h.newline_notMem (heq ▸ hc)
  exact hne _ hmem rfl

theorem queueLine_skips (rl : Rl C) (g : RlGauges C) (c : C) :
    Skips (Reader.readLine filterdev) (queueLine cpus rl g c) := by
  unfold queueLine
  dsimp only
  split_ifs
  · have hdec : ∀ width n, '\n' ∉ padLeft width ' ' (dec n) :=
      fun _ n => newline_notMem_padLeft (solid_dec n)
    have hbit : ∀ b, '\n' ∉ bit b := fun b => (solid_dec _).newline_notMem
    have hgap : '\n' ∉ "   ".toList := by decide
    have hcomma : '\n' ∉ ",".toList := by decide
    have htab : "\t".toList = ['\t'] := rfl
    have htab' : '\n' ∉ ['\t'] := by decide
    rw [htab]
    refine skips_line (c := '\t') ?_ (by decide) ?_
    · simp only [List.append_assoc, List.cons_append, List.nil_append, List.head?_cons]
    · simp only [List.mem_append, hdec, hbit, hgap, hcomma, htab', or_false, not_false_eq_true]
  · exact Reads.nil

theorem rlRest_skips (rl : Rl C) (g : RlGauges C) :
    Skips (Reader.readLine filterdev) (rlRest cpus rl g) := by
  refine Skips.append ?_ (Skips.flatMap fun c _ => queueLine_skips rl g c)
  split_ifs
  · exact Reads.nil
  · exact skips_line (c := '\t') rfl (by decide) (by decide)

/-- A limiter without `hash` before it is skipped. -/
theorem isoRlShow_skips (rl : Rl C) (g : RlGauges C) :
    Skips (Reader.readLine filterdev) (isoRlShow cpus rl g) := by
  rw [isoRlShow_eq]
  refine Skips.append ?_ (rlRest_skips rl g)
  have hline : '\n' ∉ Row.text (rlRow rl) ++ ptr g.addr := by
    rw [List.mem_append, not_or]
    exact ⟨(rlRow_tidy rl).newline_notMem, (solid_ptr _).newline_notMem⟩
  exact fun st => Reads.line hline (readLine_of_head (by decide) _ st)

theorem modify_length_append {α : Type} (l : List α) (a : α) (f : α → α) :
    (l ++ [a]).modify l.length f = l ++ [f a] := by
  induction l with
  | nil => rfl
  | cons b l ih => simp [ih]

/-- What is read of a limiter. -/
def rlData (rl : Rl C) : RlData := ⟨quad rl.ip, dec rl.rate⟩

/-- The first limiter of a bucket. -/
def firstRl (txc : TxClass C) (b : UInt32) : List RlData :=
  (txc.rlBucket b).head?.toList.map fun j => rlData (txc.rls j)

theorem ip_hex (addr : UInt32) : ip (hex addr.toNat) = some (quad addr) := by
  rw [ip, hexValue_hex, Option.bind_some, if_pos addr.toNat_lt, UInt32.ofNat_toNat]

def hashRow (b : UInt32) (rl : Rl C) : Row Char :=
  ("hash".toList, " ".toList) :: (dec b.toNat, " ".toList) :: rlRow rl

theorem hashRow_tidy (b : UInt32) (rl : Rl C) : Tidy (hashRow b rl) :=
  .cons (field_of (by decide)) (by decide) (.cons (field_dec _) (by decide) (rlRow_tidy rl))

/-- A limiter with `hash` before it is read. -/
theorem hash_reads {st : Reader} (hrl : st.rlParse = true) {objs : List TxcData} {t : TxcData}
    (hobjs : st.txcObjs = objs ++ [t]) (htxc : st.txc = some objs.length) (b : UInt32) (rl : Rl C)
    (g : RlGauges C) :
    Reads (Reader.readLine filterdev) ("hash ".toList ++ dec b.toNat ++ " ".toList ++
      isoRlShow cpus rl g) st { st with txcObjs :=
      objs ++ [{ t with rls := t.rls ++ [rlData rl] }] } := by
  have hhash : "hash ".toList = "hash".toList ++ " ".toList := rfl
  have htext : "hash ".toList ++ dec b.toNat ++ " ".toList ++ isoRlShow cpus rl g
      = Row.text (hashRow b rl) ++ ptr g.addr ++ ['\n'] ++ rlRest cpus rl g := by
    rw [hhash, isoRlShow_eq, hashRow]
    simp only [Row.text_cons, List.append_assoc]
  have hline : '\n' ∉ Row.text (hashRow b rl) ++ ptr g.addr := by
    rw [List.mem_append, not_or]
    exact ⟨(hashRow_tidy b rl).newline_notMem, (solid_ptr _).newline_notMem⟩
  have hptr : Field (ptr g.addr) := ⟨by simp [ptr, padLeft, hex_ne_nil], solid_ptr _⟩
  rw [htext]
  refine Reads.append (Reads.line hline ?_) (rlRest_skips rl g _)
  have hstarts : OnlyStarts .hash (Row.text (hashRow b rl) ++ ptr g.addr ++ ['\n']) := by
    rw [hashRow, Row.text_cons, List.append_assoc, List.append_assoc]
    exact onlyStarts_append .hash _
  have hdst : ((hashRow b rl).map Prod.fst ++ [ptr g.addr, []])[3]? = some (hex rl.ip.toNat) := rfl
  have hrate : ((hashRow b rl).map Prod.fst ++ [ptr g.addr, []])[5]? = some (dec rl.rate) := rfl
  rw [hstarts.readLine, Start.read, if_pos hrl, Reader.hash, (hashRow_tidy b rl).reSpacesSplit hptr]
  simp only [hdst, hrate, htxc, hobjs, Option.bind_some, ip_hex, Option.bind_eq_bind,
    modify_length_append]
  rfl

theorem bucketShow_reads {st : Reader} (hrl : st.rlParse = true) {objs : List TxcData} {t : TxcData}
    (hobjs : st.txcObjs = objs ++ [t]) (htxc : st.txc = some objs.length)
    (txc : TxClass C) (g : TxcGauges C) (b : UInt32) :
    Reads (Reader.readLine filterdev) (bucketShow cpus txc g b) st
      { st with txcObjs := objs ++ [{ t with rls := t.rls ++ firstRl txc b }] } := by
  unfold bucketShow firstRl
  cases txc.rlBucket b with
  | nil =>
    simp only [List.head?_nil, Option.toList_none, List.map_nil, List.append_nil, ← hobjs]
    exact Reads.nil st
  | cons j js =>
    rw [if_neg (List.cons_ne_nil j js), List.flatMap_cons, ← List.append_assoc]
    refine (hash_reads hrl hobjs htxc b (txc.rls j) (g.rls j)).append ?_
    exact Skips.flatMap (fun j _ => isoRlShow_skips (txc.rls j) (g.rls j)) _

/-- Of each bucket, the first limiter is read. -/
theorem buckets_reads {st : Reader} (hrl : st.rlParse = true) {objs : List TxcData} {t : TxcData}
    (hobjs : st.txcObjs = objs ++ [t]) (htxc : st.txc = some objs.length)
    (txc : TxClass C) (g : TxcGauges C) (bs : List UInt32) :
    Reads (Reader.readLine filterdev) (bs.flatMap (bucketShow cpus txc g)) st
      { st with txcObjs := objs ++ [{ t with rls := t.rls ++ bs.flatMap (firstRl txc) }] } := by
  induction bs generalizing st t with
  | nil =>
    simp only [List.flatMap_nil, List.append_nil, ← hobjs]
    exact Reads.nil st
  | cons b bs ih =>
    rw [List.flatMap_cons, List.flatMap_cons, ← List.append_assoc]
    refine (bucketShow_reads hrl hobjs htxc txc g b).append ?_
    exact @ih { st with txcObjs := objs ++ [{ t with rls := t.rls ++ firstRl txc b }] } hrl _ rfl
      htxc

/-! ### Classes -/

/-- What is read of a class. -/
def txcData (plat : Platform) (rx : RxContext C) (txc : TxClass C) (g : TxcGauges C)
    (rls : List RlData) :
    TxcData where
  klass := isoClassShow plat txc.klass
  weight := dec txc.weight
  assoc := assocShow plat rx txc
  rate := dec txc.rl.rate
  txRate := dec g.txRateSmooth
  minRate := dec txc.minRate
  rls := rls

/-- A class that has been read, of the device `i`. -/
def Reader.addTxc (i : ℕ) (st : Reader) (t : TxcData) : Reader :=
  { st with
    txcObjs := st.txcObjs ++ [t]
    txc := some st.txcObjs.length
    rlParse := true
    devObjs := st.devObjs.modify i fun d => { d with txcs := d.txcs ++ [st.txcObjs.length] } }

def classRow (plat : Platform) (rx : RxContext C) (txc : TxClass C) : Row Char :=
  [("txc".toList, " ".toList), ("class".toList, " ".toList),
    (isoClassShow plat txc.klass, "   ".toList), ("weight".toList, " ".toList),
    (dec txc.weight, "   ".toList), ("assoc".toList, " ".toList),
    ("vq".toList, " ".toList), (assocShow plat rx txc, "   ".toList),
    ("freelist".toList, " ".toList)]

theorem classRow_tidy (rx : RxContext C) (txc : TxClass C) : Tidy (classRow plat rx txc) := by
  refine .cons (field_of (by decide)) (by decide) (.cons (field_of (by decide)) (by decide) ?_)
  refine .cons (field_quad _) (by decide) (.cons (field_of (by decide)) (by decide) ?_)
  refine .cons (field_dec _) (by decide) (.cons (field_of (by decide)) (by decide) ?_)
  refine .cons (field_of (by decide)) (by decide) (.cons (field_assocShow rx txc) (by decide) ?_)
  exact .cons (field_of (by decide)) (by decide) tidy_nil

def classRlRow (txc : TxClass C) (g : TxcGauges C) : Row Char :=
  [("txc".toList, " ".toList), ("rl".toList, " ".toList), ("tx_rate".toList, " ".toList),
    (dec g.txRate ++ ",".toList ++ dec g.txRateSmooth, "   ".toList), ("rate".toList, " ".toList),
    (dec txc.rl.rate, "   ".toList), ("min_rate".toList, " ".toList),
    (dec txc.minRate, "   ".toList),
    ("xmit".toList, " ".toList), (dec g.rl.accumXmit, "   ".toList), ("queued".toList, " ".toList)]

theorem classRlRow_tidy (txc : TxClass C) (g : TxcGauges C) : Tidy (classRlRow txc g) := by
  have hrates : Field (dec g.txRate ++ ",".toList ++ dec g.txRateSmooth) :=
    ((field_dec _).append (by decide)).append (solid_dec _)
  refine .cons (field_of (by decide)) (by decide) (.cons (field_of (by decide)) (by decide) ?_)
  refine .cons (field_of (by decide)) (by decide) (.cons hrates (by decide) ?_)
  refine .cons (field_of (by decide)) (by decide) (.cons (field_dec _) (by decide) ?_)
  refine .cons (field_of (by decide)) (by decide) (.cons (field_dec _) (by decide) ?_)
  refine .cons (field_of (by decide)) (by decide) (.cons (field_dec _) (by decide) ?_)
  exact .cons (field_of (by decide)) (by decide) tidy_nil

theorem comma_notMem_dec (n : ℕ) : ',' ∉ dec n := by
  have hdigits : ',' ∉ hexDigits := by decide
  have hne : ∀ c ∈ dec n, c ≠ ',' := forall_mem_dec (fun c hc => ne_of_mem_of_not_mem hc hdigits) n
  exact fun hmem => hne _ hmem rfl

theorem splitOn_pair {a b : List Char} {c : Char} (ha : c ∉ a) (hb : c ∉ b) :
    (a ++ [c] ++ b).splitOn c = [a, b] := by
  have hparts : ∀ l ∈ [a, b], c ∉ l := by simp [ha, hb]
  have hjoin : [c].intercalate [a, b] = a ++ [c] ++ b := by simp [List.intercalate]
  rw [← hjoin, List.splitOn_intercalate c hparts (by simp)]

/-- The two lines of a class. -/
theorem classLines_reads {st : Reader} {i : ℕ} (hdev : st.dev = some i)
    (rx : RxContext C) (txc : TxClass C) (g : TxcGauges C) :
    Reads (Reader.readLine filterdev)
      (Row.text (classRow plat rx txc) ++ decInt txc.freelistCount ++ ['\n'] ++
        (Row.text (classRlRow txc g) ++ dec g.rl.accumEnqueued ++ ['\n'])) st
      { st.addTxc i (txcData plat rx txc g []) with rlParse := false } := by
  have hclass : '\n' ∉ Row.text (classRow plat rx txc) ++ decInt txc.freelistCount := by
    rw [List.mem_append, not_or]
    exact ⟨(classRow_tidy rx txc).newline_notMem, (solid_decInt _).newline_notMem⟩
  have hrl : '\n' ∉ Row.text (classRlRow txc g) ++ dec g.rl.accumEnqueued := by
    rw [List.mem_append, not_or]
    exact ⟨(classRlRow_tidy txc g).newline_notMem, (solid_dec _).newline_notMem⟩
  refine (Reads.line (t := { st with
    txcObjs := st.txcObjs ++ [⟨isoClassShow plat txc.klass, dec txc.weight,
      assocShow plat rx txc, [], [], [], []⟩]
    txc := some st.txcObjs.length
    rlParse := false }) hclass ?_).append (Reads.line hrl ?_)
  · have hstarts : OnlyStarts .txcClass
        (Row.text (classRow plat rx txc) ++ decInt txc.freelistCount ++ ['\n']) := by
      rw [List.append_assoc]
      exact onlyStarts_words rfl _ _ _
    rw [hstarts.readLine, Start.read, Reader.txcClass,
      (classRow_tidy rx txc).reSpacesSplit (field_decInt _)]
    rfl
  · have hstarts : OnlyStarts .txcRl (Row.text (classRlRow txc g) ++
        dec g.rl.accumEnqueued ++ ['\n']) := by
      rw [List.append_assoc]
      exact onlyStarts_words rfl _ _ _
    have hrates : ((classRlRow txc g).map Prod.fst ++ [dec g.rl.accumEnqueued, []])[3]?
        = some (dec g.txRate ++ ",".toList ++ dec g.txRateSmooth) := rfl
    have hrate : ((classRlRow txc g).map Prod.fst ++ [dec g.rl.accumEnqueued, []])[5]?
        = some (dec txc.rl.rate) := rfl
    have hmin : ((classRlRow txc g).map Prod.fst ++ [dec g.rl.accumEnqueued, []])[7]?
        = some (dec txc.minRate) := rfl
    have hsplit : (dec g.txRate ++ ",".toList ++ dec g.txRateSmooth).splitOn ','
        = [dec g.txRate, dec g.txRateSmooth] :=
        splitOn_pair (comma_notMem_dec _) (comma_notMem_dec _)
    rw [hstarts.readLine, Start.read, Reader.txcRl,
      (classRlRow_tidy txc g).reSpacesSplit (field_dec _)]
    simp only [hrates, hrate, hmin, hsplit, hdev, Option.bind_eq_bind, Option.bind_some,
      modify_length_append, Reader.addTxc]
    rfl

theorem isoTxcShow_eq (rx : RxContext C) (txc : TxClass C) (g : TxcGauges C) :
    isoTxcShow plat cpus rx txc g = Row.text (classRow plat rx txc) ++
    decInt txc.freelistCount ++ ['\n'] ++
      (Row.text (classRlRow txc g) ++ dec g.rl.accumEnqueued ++ ['\n']) ++
      (isoRlShow cpus txc.rl g.rl ++ ['\n'] ++ ("rate limiters:".toList ++ ['\n']) ++
        rlBuckets.flatMap (bucketShow cpus txc g) ++ ['\n']) := by
  unfold isoTxcShow classRow classRlRow
  have hclass : "txc class ".toList =
      "txc".toList ++ (" ".toList ++ ("class".toList ++ " ".toList)) := rfl
  have hweight : "   weight ".toList = "   ".toList ++ ("weight".toList ++ " ".toList) := rfl
  have hassoc : "   assoc vq ".toList
      = "   ".toList ++ ("assoc".toList ++ (" ".toList ++ ("vq".toList ++ " ".toList))) := rfl
  have hfreelist : "   freelist ".toList = "   ".toList ++ ("freelist".toList ++ " ".toList) := rfl
  have hrl : "txc rl tx_rate ".toList
      = "txc".toList ++ (" ".toList ++
        ("rl".toList ++ (" ".toList ++ ("tx_rate".toList ++ " ".toList)))) := rfl
  have hrate : "   rate ".toList = "   ".toList ++ ("rate".toList ++ " ".toList) := rfl
  have hmin : "   min_rate ".toList = "   ".toList ++ ("min_rate".toList ++ " ".toList) := rfl
  have hxmit : "   xmit ".toList = "   ".toList ++ ("xmit".toList ++ " ".toList) := rfl
  have hqueued : "   queued ".toList = "   ".toList ++ ("queued".toList ++ " ".toList) := rfl
  rw [hclass, hweight, hassoc, hfreelist, hrl, hrate, hmin, hxmit, hqueued]
  simp only [Row.text_cons, Row.text_nil, List.append_assoc, List.nil_append]

/-- Of a class, its two lines and the first limiter of each bucket are read. -/
theorem isoTxcShow_reads {st : Reader} {i : ℕ} (hdev : st.dev = some i)
    (rx : RxContext C) (txc : TxClass C) (g : TxcGauges C) :
    Reads (Reader.readLine filterdev) (isoTxcShow plat cpus rx txc g) st
      (st.addTxc i (txcData plat rx txc g (rlBuckets.flatMap (firstRl txc)))) := by
  have hlimiters : ∀ st : Reader, Reads (Reader.readLine filterdev)
      ("rate limiters:".toList ++ ['\n']) st { st with rlParse := true } := by
    intro st
    exact Reads.line (by decide) ((onlyStarts_append .rateLimiters _).readLine st)
  have hskip : Skips (Reader.readLine filterdev) (isoRlShow cpus txc.rl g.rl ++ ['\n']) :=
    (isoRlShow_skips txc.rl g.rl).append skips_empty
  have hbuckets : Reads (Reader.readLine filterdev) (rlBuckets.flatMap (bucketShow cpus txc g))
      (st.addTxc i (txcData plat rx txc g []))
      (st.addTxc i (txcData plat rx txc g (rlBuckets.flatMap (firstRl txc)))) :=
    @buckets_reads C cpus filterdev (st.addTxc i (txcData plat rx txc g [])) rfl _ _ rfl
      rfl txc g rlBuckets
  rw [isoTxcShow_eq]
  refine (classLines_reads hdev rx txc g).append (Reads.append ?_ (skips_empty _))
  exact ((hskip _).append (hlimiters _)).append hbuckets

/-! ### VQs -/

/-- What is read of a VQ. -/
def vqData (plat : Platform) (vq : Vq C) : VqData where
  klass := isoClassShow plat vq.klass
  rate := dec vq.rate
  rxRate := dec vq.rxRate
  fbRate := dec vq.feedbackRate
  alpha := dec vq.alpha ++ "/".toList ++ dec 1024
  weight := dec vq.weight

/-- A VQ that has been read, of the device `i`. -/
def Reader.addVq (i : ℕ) (st : Reader) (v : VqData) : Reader :=
  { st with devObjs := st.devObjs.modify i fun d => { d with vqs := d.vqs ++ [v] } }

def vqRow (plat : Platform) (enabled : ℕ) (vq : Vq C) : Row Char :=
  [("vq".toList, " ".toList), ("class".toList, " ".toList),
    (isoClassShow plat vq.klass, "   ".toList), ("flags".toList, " ".toList),
    (dec enabled ++ ",".toList ++ bit vq.isStatic, "   ".toList),
    ("rate".toList, " ".toList), (dec vq.rate, "  ".toList), ("rx_rate".toList, " ".toList),
    (dec vq.rxRate, "  ".toList), ("fb_rate".toList, " ".toList),
    (dec vq.feedbackRate, "  ".toList),
    ("alpha".toList, " ".toList), (dec vq.alpha ++ "/".toList ++ dec 1024, "   ".toList),
    ("backlog".toList, " ".toList), ("-".toList, "   ".toList), ("weight".toList, " ".toList),
    (dec vq.weight, "   ".toList), ("refcnt".toList, " ".toList)]

theorem vqRow_tidy (enabled : ℕ) (vq : Vq C) : Tidy (vqRow plat enabled vq) := by
  have hflags : Field (dec enabled ++ ",".toList ++ bit vq.isStatic) :=
    ((field_dec _).append (by decide)).append (solid_dec _)
  have halpha : Field (dec vq.alpha ++ "/".toList ++ dec 1024) :=
    ((field_dec _).append (by decide)).append (solid_dec _)
  refine .cons (field_of (by decide)) (by decide) (.cons (field_of (by decide)) (by decide) ?_)
  refine .cons (field_quad _) (by decide) (.cons (field_of (by decide)) (by decide) ?_)
  refine .cons hflags (by decide) (.cons (field_of (by decide)) (by decide) ?_)
  refine .cons (field_dec _) (by decide) (.cons (field_of (by decide)) (by decide) ?_)
  refine .cons (field_dec _) (by decide) (.cons (field_of (by decide)) (by decide) ?_)
  refine .cons (field_dec _) (by decide) (.cons (field_of (by decide)) (by decide) ?_)
  refine .cons halpha (by decide) (.cons (field_of (by decide)) (by decide) ?_)
  refine .cons (field_of (by decide)) (by decide) (.cons (field_of (by decide)) (by decide) ?_)
  exact .cons (field_dec _) (by decide) (.cons (field_of (by decide)) (by decide) tidy_nil)

theorem vqCpuLine_skips (stats : C → Vq.Stats) (c : C) :
    Skips (Reader.readLine filterdev) (vqCpuLine cpus stats c) := by
  unfold vqCpuLine
  split_ifs
  · have hpad : ∀ width n, '\n' ∉ padLeft width ' ' (dec n) :=
      fun _ n => newline_notMem_padLeft (solid_dec n)
    have hdec : ∀ n, '\n' ∉ dec n := fun n => (solid_dec n).newline_notMem
    have htab : '\n' ∉ "\t ".toList := by decide
    have hgap : '\n' ∉ "   ".toList := by decide
    have hgap' : '\n' ∉ "  ".toList := by decide
    refine skips_line (c := '\t') rfl (by decide) ?_
    simp only [List.mem_append, hpad, hdec, hgap, hgap', htab, or_false, not_false_eq_true]
  · exact Reads.nil

theorem vqLine_eq (enabled : ℕ) (vq : Vq C) :
    vqLine plat enabled vq = Row.text (vqRow plat enabled vq) ++ decInt vq.refcnt ++ ['\n'] := by
  unfold vqLine vqRow
  have hclass : "vq class ".toList =
      "vq".toList ++ (" ".toList ++ ("class".toList ++ " ".toList)) := rfl
  have hflags : "   flags ".toList = "   ".toList ++ ("flags".toList ++ " ".toList) := rfl
  have hrate : "   rate ".toList = "   ".toList ++ ("rate".toList ++ " ".toList) := rfl
  have hrx : "  rx_rate ".toList = "  ".toList ++ ("rx_rate".toList ++ " ".toList) := rfl
  have hfb : "  fb_rate ".toList = "  ".toList ++ ("fb_rate".toList ++ " ".toList) := rfl
  have halpha : "  alpha ".toList = "  ".toList ++ ("alpha".toList ++ " ".toList) := rfl
  have hweight : "   backlog -   weight ".toList =
      "   ".toList ++ ("backlog".toList ++ (" ".toList ++
      ("-".toList ++ ("   ".toList ++ ("weight".toList ++ " ".toList))))) := rfl
  have hrefcnt : "   refcnt ".toList = "   ".toList ++ ("refcnt".toList ++ " ".toList) := rfl
  rw [hclass, hflags, hrate, hrx, hfb, halpha, hweight, hrefcnt]
  simp only [Row.text_cons, Row.text_nil, List.append_assoc, List.nil_append]

theorem vqLine_reads {st : Reader} {i : ℕ} (hdev : st.whichdev = some i) (enabled : ℕ) (vq : Vq C) :
    Reads (Reader.readLine filterdev) (vqLine plat enabled vq) st
      (st.addVq i (vqData plat vq)) := by
  have hline : '\n' ∉ Row.text (vqRow plat enabled vq) ++ decInt vq.refcnt := by
    rw [List.mem_append, not_or]
    exact ⟨(vqRow_tidy enabled vq).newline_notMem, (solid_decInt _).newline_notMem⟩
  have hstarts : OnlyStarts .vqClass (Row.text (vqRow plat enabled vq) ++
      decInt vq.refcnt ++ ['\n']) := by
    rw [List.append_assoc]
    exact onlyStarts_words rfl _ _ _
  rw [vqLine_eq]
  refine Reads.line hline ?_
  rw [hstarts.readLine, Start.read, Reader.vqClass, (vqRow_tidy enabled vq).reSpacesSplit
    (field_decInt _), hdev]
  rfl

/-- Of a VQ, its line is read. -/
theorem isoVqShow_reads {st : Reader} {i : ℕ} (hdev : st.whichdev = some i)
    {enabled : ℕ} {vq : Vq C} {text : List Char}
    (hshow : isoVqShow plat cpus enabled vq = .ok text) :
    Reads (Reader.readLine filterdev) text st (st.addVq i (vqData plat vq)) := by
  have hline : Reads (Reader.readLine filterdev) (vqLine plat enabled vq) st
      (st.addVq i (vqData plat vq)) :=
    vqLine_reads hdev enabled vq
  unfold isoVqShow at hshow
  split at hshow
  · rw [← Except.ok.inj hshow]
    exact hline
  · exact nomatch hshow
  · rw [← Except.ok.inj hshow]
    refine (hline.append (skips_line (c := '\t') rfl (by decide) (by decide) _)).append ?_
    exact Skips.flatMap (fun c _ => vqCpuLine_skips _ c) _

end EyeQ.Perfiso
