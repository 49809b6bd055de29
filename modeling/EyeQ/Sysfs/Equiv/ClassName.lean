import EyeQ.Scanf.Print
import EyeQ.Stats.Show
import EyeQ.Sysfs.Equiv.Truth

/-!
# Names of classes

A class is named by an address.  `iso_class_show` writes it and `iso_class_parse` reads it, each
with a conversion of the byte order.

* `className_roundTrip`: what was written is read back, and what was read from a plain name is
  written as that name.
* `className_checked_iff`: `iso_class_parse` has no failure to report.  A word that is no address
  names a class as well, mostly `0`, which is created unless it exists; and numbers beyond 255 spill
  into the byte before.
-/

namespace EyeQ.Sysfs

open Text Stats Scanf

variable {C : Type} {plat : Platform} {p : Params}

/-! ### The bytes of an address -/

def bitAt (x : UInt32) (i : ℕ) : Bool := x.toBitVec.getLsbD i

theorem eq_of_bitAt_eq {x y : UInt32} (h : ∀ i < 32, bitAt x i = bitAt y i) : x = y :=
  UInt32.eq_of_toBitVec_eq (BitVec.eq_of_getLsbD_eq h)

theorem bitAt_or (x y : UInt32) (i : ℕ) : bitAt (x ||| y) i = (bitAt x i || bitAt y i) := by
  simp [bitAt]

theorem bitAt_and (x y : UInt32) (i : ℕ) : bitAt (x &&& y) i = (bitAt x i && bitAt y i) := by
  simp [bitAt]

theorem bitAt_shiftLeft (x : UInt32) {k : UInt32} (hk : k.toNat < 32) (i : ℕ) :
    bitAt (x <<< k) i = (decide (i < 32) && !decide (i < k.toNat) && bitAt x (i - k.toNat)) := by
  have hmod : k.toNat % 32 = k.toNat := Nat.mod_eq_of_lt hk
  simp [bitAt, hmod]

theorem bitAt_shiftRight (x : UInt32) {k : UInt32} (hk : k.toNat < 32) (i : ℕ) :
    bitAt (x >>> k) i = bitAt x (k.toNat + i) := by
  have hmod : k.toNat % 32 = k.toNat := Nat.mod_eq_of_lt hk
  simp [bitAt, hmod]

/-- Words are taken apart and put together: by `ntohl`, by writing an address, and by reading
one. -/
theorem bytes_identities (x a b c d : UInt32) :
    bswap32 (bswap32 x) = x ∧
    address ((x &&& 0xFF000000) >>> 24) ((x &&& 0x00FF0000) >>> 16) ((x &&& 0x0000FF00) >>> 8)
      (x &&& 0x000000FF) = x ∧
    (address (a &&& 255) (b &&& 255) (c &&& 255) (d &&& 255) &&& 0xFF000000) >>> 24 = a &&& 255 ∧
    (address (a &&& 255) (b &&& 255) (c &&& 255) (d &&& 255) &&& 0x00FF0000) >>> 16 = b &&& 255 ∧
    (address (a &&& 255) (b &&& 255) (c &&& 255) (d &&& 255) &&& 0x0000FF00) >>> 8 = c &&& 255 ∧
    address (a &&& 255) (b &&& 255) (c &&& 255) (d &&& 255) &&& 0x000000FF = d &&& 255 := by
  refine ⟨?_, ?_, ?_, ?_, ?_, ?_⟩
  all_goals
    -- bit by bit, once the shifts are out of the way
    refine eq_of_bitAt_eq fun i hi => ?_
    simp (disch := decide) only [bswap32, address, bitAt_or, bitAt_and,
      bitAt_shiftLeft, bitAt_shiftRight, UInt32.reduceToNat]
    interval_cases i
    all_goals simp (disch := decide) only [bitAt, BitVec.getLsbD_of_ge, UInt32.toBitVec_ofNat,
      BitVec.reduceGetLsb, Nat.reduceLT, Nat.reduceAdd, Nat.reduceSub, decide_true,
      decide_false, Bool.not_true,
      Bool.not_false, Bool.true_and, Bool.and_true, Bool.false_and, Bool.and_false,
      Bool.or_false, Bool.false_or]

theorem address_bytes (addr : UInt32) :
    address ((addr &&& 0xFF000000) >>> 24) ((addr &&& 0x00FF0000) >>> 16)
      ((addr &&& 0x0000FF00) >>> 8) (addr &&& 0x000000FF) = addr :=
  (bytes_identities addr 0 0 0 0).2.1

theorem and_byte_of_le {x : UInt32} (h : x.toNat ≤ 255) : x &&& 255 = x := by
  apply UInt32.toNat_inj.mp
  rw [UInt32.toNat_and]
  exact (Nat.and_two_pow_sub_one_eq_mod x.toNat 8).trans (Nat.mod_eq_of_lt (by omega))

theorem bytes_address {a b c d : UInt32} (ha : a.toNat ≤ 255) (hb : b.toNat ≤ 255)
    (hc : c.toNat ≤ 255) (hd : d.toNat ≤ 255) :
    (address a b c d &&& 0xFF000000) >>> 24 = a ∧ (address a b c d &&& 0x00FF0000) >>> 16 = b ∧
    (address a b c d &&& 0x0000FF00) >>> 8 = c ∧ address a b c d &&& 0x000000FF = d := by
  rw [← and_byte_of_le ha, ← and_byte_of_le hb, ← and_byte_of_le hc, ← and_byte_of_le hd]
  exact (bytes_identities 0 a b c d).2.2

/-- Numbers of at most 255 can be told from the address. -/
theorem address_inj {a b c d a' b' c' d' : UInt32}
    (h : ∀ x ∈ [a, b, c, d, a', b', c', d'], x.toNat ≤ 255)
    (heq : address a b c d = address a' b' c' d') : [a, b, c, d] = [a', b', c', d'] := by
  obtain ⟨ha, hb, hc, hd⟩ := bytes_address (h a (by simp)) (h b (by simp))
    (h c (by simp)) (h d (by simp))
  obtain ⟨ha', hb', hc', hd'⟩ :=
    bytes_address (h a' (by simp)) (h b' (by simp)) (h c' (by simp)) (h d' (by simp))
  rw [heq] at ha hb hc hd
  rw [← ha, ← hb, ← hc, ← hd, ha', hb', hc', hd']

theorem toNat_byte_le (addr : UInt32) {mask k : UInt32} (h : (mask >>> k).toNat ≤ 255) :
    ((addr &&& mask) >>> k).toNat ≤ 255 := by
  rw [UInt32.toNat_shiftRight, Nat.shiftRight_eq_div_pow] at h ⊢
  have hand : (addr &&& mask).toNat ≤ mask.toNat := by
    rw [UInt32.toNat_and]
    exact Nat.and_le_right
  exact (Nat.div_le_div_right hand).trans h

/-! ### The byte order -/

theorem bswap32_involutive : Function.Involutive bswap32 := fun x => (bytes_identities x 0 0 0 0).1

/-- A machine of either byte order. -/
def Endian (plat : Platform) : Prop := plat.ntohl = id ∨ plat.ntohl = bswap32

theorem Endian.involutive (h : Endian plat) : Function.Involutive plat.ntohl := by
  rcases h with h | h
  · rw [h]
    exact fun _ => rfl
  · rw [h]
    exact bswap32_involutive

/-! ### Writing and reading -/

/-- An address as it is written, by its four numbers. -/
theorem quad_address {a b c d : UInt32} (ha : a.toNat ≤ 255) (hb : b.toNat ≤ 255)
    (hc : c.toNat ≤ 255) (hd : d.toNat ≤ 255) : quad (address a b c d) =
      dec a.toNat ++ '.' :: (dec b.toNat ++ '.' :: (dec c.toNat ++ '.' :: dec d.toNat)) := by
  have hdot : ".".toList = ['.'] := rfl
  obtain ⟨ha', hb', hc', hd'⟩ := bytes_address ha hb hc hd
  unfold quad
  rw [hdot, ha', hb', hc', hd']
  simp only [List.append_assoc, List.nil_append, List.cons_append]

/-- The four numbers of an address. -/
theorem exists_quad (addr : UInt32) : ∃ a b c d : UInt32, addr = address a b c d ∧
    quad addr = dec a.toNat ++ '.' :: (dec b.toNat ++ '.' :: (dec c.toNat ++ '.' :: dec d.toNat)) ∧
    a.toNat ≤ 255 ∧ b.toNat ≤ 255 ∧ c.toNat ≤ 255 ∧ d.toNat ≤ 255 := by
  have ha : ((addr &&& 0xFF000000) >>> 24).toNat ≤ 255 := toNat_byte_le addr (by decide)
  have hb : ((addr &&& 0x00FF0000) >>> 16).toNat ≤ 255 := toNat_byte_le addr (by decide)
  have hc : ((addr &&& 0x0000FF00) >>> 8).toNat ≤ 255 := toNat_byte_le addr (by decide)
  have hd : (addr &&& 0x000000FF).toNat ≤ 255 := by
    rw [UInt32.toNat_and]
    exact Nat.and_le_right
  have hquad := quad_address ha hb hc hd
  rw [address_bytes] at hquad
  exact ⟨_, _, _, _, (address_bytes addr).symm, hquad, ha, hb, hc, hd⟩

theorem dottedQuad_quad (addr : UInt32) : dottedQuad (quad addr) = some addr := by
  obtain ⟨a, b, c, d, haddr, hquad, ha, hb, hc, hd⟩ := exists_quad addr
  have hdot : ∀ n, '.' ∉ dec n := by
    intro n hmem
    exact absurd (isDigit_of_mem_dec hmem) (by decide)
  have hsplit : (quad addr).splitOn '.' = [dec a.toNat, dec b.toNat, dec c.toNat, dec d.toNat] := by
    rw [hquad, splitOn_append_cons (hdot _), splitOn_append_cons (hdot _),
      splitOn_append_cons (hdot _), splitOn_of_notMem (hdot _)]
  unfold dottedQuad
  rw [hsplit]
  dsimp only
  rw [if_pos ⟨isOctet_dec ha, isOctet_dec hb, isOctet_dec hc, isOctet_dec hd⟩]
  simp only [digitsValue_dec, UInt32.ofNat_toNat, haddr]

/-- The name of a class is read as the class. -/
theorem isoClassParse_show (hntohl : Function.Involutive plat.ntohl) (klass : UInt32) :
    isoClassParse plat (isoClassShow plat klass) = klass := by
  rw [isoClassShow, isoClassParse_of_dottedQuad (dottedQuad_quad _), hntohl]

/-- A number of at most 255 without leading zeros. -/
def IsPlainOctet (digits : List Char) : Prop :=
  IsOctet digits ∧ (digits.head? = some '0' → digits = ['0'])

instance (digits : List Char) : Decidable (IsPlainOctet digits) :=
  inferInstanceAs (Decidable (_ ∧ _))

/-- Four numbers of at most 255, without leading zeros, with dots in between. -/
def IsPlainQuad (word : List Char) : Prop :=
  (word.splitOn '.').length = 4 ∧ ∀ digits ∈ word.splitOn '.', IsPlainOctet digits

theorem IsPlainOctet.dec_toNat {digits : List Char} (h : IsPlainOctet digits) :
    (UInt32.ofNat (digitsValue digits)).toNat ≤ 255 ∧
      dec (UInt32.ofNat (digitsValue digits)).toNat = digits := by
  have hle := h.1.2.2
  rw [UInt32.toNat_ofNat', Nat.mod_eq_of_lt (by omega)]
  exact ⟨hle, dec_digitsValue h.1.1 h.1.2.1 h.2⟩

/-- A plain name is written as it was read. -/
theorem quad_of_isPlainQuad {word : List Char} (h : IsPlainQuad word) :
    ∃ addr, dottedQuad word = some addr ∧ quad addr = word := by
  have hjoin : ['.'].intercalate (word.splitOn '.') = word := List.intercalate_splitOn '.'
  obtain ⟨hlen, hplain⟩ := h
  obtain ⟨a, b, c, d, hsplit⟩ := List.length_eq_four.mp hlen
  rw [hsplit] at hplain
  have ha := hplain a (by simp)
  have hb := hplain b (by simp)
  have hc := hplain c (by simp)
  have hd := hplain d (by simp)
  refine ⟨address (.ofNat (digitsValue a)) (.ofNat (digitsValue b)) (.ofNat (digitsValue c))
    (.ofNat (digitsValue d)), ?_, ?_⟩
  · unfold dottedQuad
    rw [hsplit]
    dsimp only
    rw [if_pos ⟨ha.1, hb.1, hc.1, hd.1⟩]
  · rw [quad_address ha.dec_toNat.1 hb.dec_toNat.1 hc.dec_toNat.1 hd.dec_toNat.1, ha.dec_toNat.2,
      hb.dec_toNat.2, hc.dec_toNat.2, hd.dec_toNat.2, ← hjoin, hsplit]
    simp [List.intercalate]

/-- **Names of classes round-trip**, on a machine of either byte order. -/
theorem className_roundTrip (horder : Endian plat) :
    (∀ klass, isoClassParse plat (isoClassShow plat klass) = klass) ∧
      ∀ word, IsPlainQuad word → isoClassShow plat (isoClassParse plat word) = word := by
  refine ⟨isoClassParse_show horder.involutive, fun word hword => ?_⟩
  obtain ⟨addr, haddr, hquad⟩ := quad_of_isPlainQuad hword
  rw [isoClassParse_of_dottedQuad haddr, isoClassShow, horder.involutive, hquad]

theorem className_roundTrip_x86 :
    IsPlainQuad "11.0.1.2".toList ∧
      isoClassShow .x86 (isoClassParse .x86 "11.0.1.2".toList) = "11.0.1.2".toList := by
  have hplain : IsPlainQuad "11.0.1.2".toList := by
    unfold IsPlainQuad
    decide +kernel
  exact ⟨hplain, (className_roundTrip (Or.inr rfl)).2 _ hplain⟩

/-! ### What is no name -/

/-- A command is refused: it returns an error, and the device is as it was. -/
def Refused (d : Dev C) (result : Except Halt (ℤ × Dev C)) : Prop :=
  ∃ ret, ret ≠ 0 ∧ result = .ok (ret, d)

/-- `create_txc` is refused only if the class exists or there is no memory. -/
theorem refused_createTxc_iff (d : Dev C) (now : ℕ) (kmalloc : Alloc) (rounds : List Bool)
    (klass : UInt32) :
    Refused d (d.exec plat p (.createTxc now kmalloc rounds klass)) ↔
      (d.tx.isoTxcFind plat klass).isSome ∨ kmalloc.addr d.tx.brk d.tx.freed = none := by
  unfold Dev.exec Dev.isoTxcMarkInstall
  dsimp only
  cases d.tx.isoTxcFind plat klass with
  | some k => exact iff_of_true ⟨-1, by decide, rfl⟩ (Or.inl rfl)
  | none =>
    cases kmalloc.addr d.tx.brk d.tx.freed with
    | none => exact iff_of_true ⟨-1, by decide, rfl⟩ (Or.inr rfl)
    | some k =>
      refine iff_of_false ?_ (by simp)
      rintro ⟨ret, hret, heq⟩
      -- a class that is allocated is created, if the walk along the classes ends
      unfold Dev.isoTxcAlloc Dev.walked at heq
      dsimp only at heq
      split_ifs at heq
      exact hret (congrArg Prod.fst (Except.ok.inj heq)).symm

/-- `create_vq` is refused only if the lookup ends, and the VQ exists or there is no memory. -/
theorem refused_createVq_iff (d : Dev C) (now : ℕ) (kmalloc : Alloc) (percpu : Bool) (stale : ℤ)
    (klass : UInt32) :
    Refused d (d.exec plat p (.createVq now kmalloc percpu stale klass)) ↔
      ∃ found, d.isoVqFind plat klass = .ok found ∧
        (found.isSome ∨ kmalloc.addr d.rx.brk d.vqFreed = none) := by
  unfold Dev.exec Dev.isoVqInstall
  dsimp only
  cases d.isoVqFind plat klass with
  | error e => exact iff_of_false (fun ⟨_, _, h⟩ => nomatch h) fun ⟨_, h, _⟩ => nomatch h
  | ok found =>
    cases found with
    | some v => exact iff_of_true ⟨-1, by decide, rfl⟩ ⟨some v, rfl, Or.inl rfl⟩
    | none =>
      cases kmalloc.addr d.rx.brk d.vqFreed with
      | none => exact iff_of_true ⟨-1, by decide, rfl⟩ ⟨none, rfl, Or.inr rfl⟩
      | some v =>
        refine iff_of_false ?_ ?_
        · rintro ⟨ret, hret, heq⟩
          obtain ⟨found, hfound, heq⟩ := Machine.bind_eq_ok heq
          obtain rfl := Except.ok.inj hfound
          obtain ⟨d', -, heq⟩ := Machine.bind_eq_ok heq
          exact hret (congrArg Prod.fst (Except.ok.inj heq)).symm
        · rintro ⟨found, hfound, h⟩
          obtain rfl := Except.ok.inj hfound
          simp at h

/-- `iso_class_parse` accepts the word, and has read these numbers. -/
def ReadsQuad (word : List Char) (a b c d : UInt32) : Prop :=
  sscanf (format "%u.%u.%u.%u".toList) word = [.uint a, .uint b, .uint c, .uint d]

instance (word : List Char) (a b c d : UInt32) : Decidable (ReadsQuad word a b c d) :=
  inferInstanceAs (Decidable (_ = _))

theorem ReadsQuad.isoClassParse_eq {word : List Char} {a b c d : UInt32}
    (h : ReadsQuad word a b c d) :
    isoClassParse plat word = plat.ntohl (address a b c d) := by
  rw [isoClassParse, h, address]

/-- Numbers beyond 255 are not told apart: 256 in the last place and the lowest bit in the place
before it are the same bit. -/
theorem distinct_iff (horder : Endian plat) (m : ℕ) :
    (∀ word word' a b c d a' b' c' d', ReadsQuad word a b c d → ReadsQuad word' a' b' c' d' →
      (∀ x ∈ [a, b, c, d, a', b', c', d'], x.toNat ≤ m) →
      isoClassParse plat word = isoClassParse plat word' → [a, b, c, d] = [a', b', c', d']) ↔
      m ≤ 255 := by
  constructor
  · intro h
    by_contra hm
    have hbound : ∀ x ∈ ([1, 2, 3, 256, 1, 2, 3, 0] : List UInt32), x.toNat ≤ m := by
      have hall :
          ([1, 2, 3, 256, 1, 2, 3, 0] : List UInt32).all (fun x => x.toNat ≤ 256) = true := by
        decide
      exact fun x hx => (of_decide_eq_true (List.all_eq_true.mp hall x hx)).trans (by omega)
    have hspill : ReadsQuad "1.2.3.256".toList 1 2 3 256 := by decide +kernel
    have hplain : ReadsQuad "1.2.3.0".toList 1 2 3 0 := by decide +kernel
    have hsame : isoClassParse plat "1.2.3.256".toList = isoClassParse plat "1.2.3.0".toList := by
      rw [hspill.isoClassParse_eq, hplain.isoClassParse_eq,
        show address 1 2 3 256 = address 1 2 3 0 by decide]
    exact absurd (h _ _ _ _ _ _ _ _ _ _ hspill hplain hbound hsame) (by decide)
  · intro hm word word' a b c d a' b' c' d' h h' hbound heq
    rw [h.isoClassParse_eq, h'.isoClassParse_eq] at heq
    exact address_inj (fun x hx => (hbound x hx).trans hm) (horder.involutive.injective heq)

/-- **Names of classes are not checked.**  A command that creates a class refuses a word that is no
address only if it would refuse its class anyway; and words denote the same class only if they have
the same numbers, as long as these are at most 255. -/
theorem className_checked_iff (C : Type) (p : Params) (horder : Endian plat) :
    (∀ (d : Dev C) now kmalloc rounds word,
      (dottedQuad word = none →
        Refused d (d.exec plat p (.createTxc now kmalloc rounds (isoClassParse plat word)))) ↔
      (dottedQuad word).isSome ∨ (d.tx.isoTxcFind plat (isoClassParse plat word)).isSome ∨
        kmalloc.addr d.tx.brk d.tx.freed = none) ∧
    (∀ (d : Dev C) now kmalloc percpu stale word,
      (dottedQuad word = none →
        Refused d (d.exec plat p (.createVq now kmalloc percpu stale (isoClassParse plat word)))) ↔
      (dottedQuad word).isSome ∨ ∃ found, d.isoVqFind plat (isoClassParse plat word) = .ok found ∧
        (found.isSome ∨ kmalloc.addr d.rx.brk d.vqFreed = none)) ∧
    ∀ m, (∀ word word' a b c d a' b' c' d', ReadsQuad word a b c d → ReadsQuad word' a' b' c' d' →
      (∀ x ∈ [a, b, c, d, a', b', c', d'], x.toNat ≤ m) →
      isoClassParse plat word = isoClassParse plat word' → [a, b, c, d] = [a', b', c', d']) ↔
      m ≤ 255 := by
  have hname : ∀ (word : List Char) (P : Prop),
      (dottedQuad word = none → P) ↔ (dottedQuad word).isSome ∨ P := by
    intro word P
    cases dottedQuad word <;> simp
  refine ⟨fun d now kmalloc rounds word => ?_, fun d now kmalloc percpu stale word => ?_,
    distinct_iff horder⟩
  · rw [hname, refused_createTxc_iff]
  · rw [hname, refused_createVq_iff]

/-- A name that is no address is refused at least when there is no memory. -/
theorem className_checked_iff_x86 :
    Refused (Dev.init {} 0 0 : Dev Unit) ((Dev.init {} 0 0 : Dev Unit).exec .x86 {}
      (.createTxc 0 .fail [] (isoClassParse .x86 "web".toList))) :=
  ((className_checked_iff Unit {} (Or.inr rfl)).1 _ _ _ _ _).mpr (Or.inr (Or.inr rfl))
    (by decide +kernel)

/-- `create_txc` and `create_vq` of the class "web" on a new device: both return `0`, and the class
is `0`, the class of every packet that is not IP.  The names 1.2.3.256 and 1.2.3.0 are those of one
class. -/
theorem className_not_checked :
    let d : Dev Unit := Dev.init {} 0 0
    (dottedQuad "web".toList = none ∧ isoClassParse .x86 "web".toList = 0 ∧
      ¬ Refused d (d.exec .x86 {} (.createTxc 0 .fresh [] (isoClassParse .x86 "web".toList))) ∧
      ¬ Refused d (d.exec .x86 {} (.createVq 0 .fresh true 0 (isoClassParse .x86 "web".toList)))) ∧
    ReadsQuad "1.2.3.256".toList 1 2 3 256 ∧ ReadsQuad "1.2.3.0".toList 1 2 3 0 ∧
      isoClassParse .x86 "1.2.3.256".toList = isoClassParse .x86 "1.2.3.0".toList := by
  intro d
  refine ⟨⟨by decide +kernel, by decide +kernel, ?_, ?_⟩, by decide +kernel, by decide +kernel,
    by decide +kernel⟩
  · rintro ⟨ret, hret, heq⟩
    have hzero : (d.exec .x86 {} (.createTxc 0 .fresh [] (isoClassParse .x86 "web".toList))).map
        Prod.fst = .ok 0 := by decide +kernel
    rw [heq] at hzero
    exact hret (Except.ok.inj hzero)
  · rintro ⟨ret, hret, heq⟩
    have hzero : (d.exec .x86 {} (.createVq 0 .fresh true 0 (isoClassParse .x86 "web".toList))).map
        Prod.fst = .ok 0 := by decide +kernel
    rw [heq] at hzero
    exact hret (Except.ok.inj hzero)

end EyeQ.Sysfs
