import EyeQ.Params

/-!
# Packets

`Skb` is a `struct sk_buff` with the fields the rate limiters and the receive path read: the
length, and from the Ethernet and IPv4 headers the protocol, the addresses, the type of service and
the identification.  `ptr` stands for the address of the buffer: two buffers alive in one run have
different addresses, and no function of the model looks at it.

An IPv4 datagram has a 16-bit length, so `len` is at most `maxLen` (the link header included) and
`skb_size` is a small positive `int`.
-/

namespace EyeQ

/-- `ETH_HLEN`. -/
def ethHlen : ℕ := 14

/-- The longest packet: a full IPv4 datagram behind its link header. -/
def maxLen : ℕ := 65535 + ethHlen

structure Skb where
  ptr : ℕ
  len : ℕ
  /-- `eth_hdr(skb)->h_proto == htons(ETH_P_IP)`. -/
  isIp : Bool
  saddr : UInt32
  daddr : UInt32
  protocol : UInt8
  tos : UInt8
  ipId : UInt16
  len_le : len ≤ maxLen
deriving DecidableEq

namespace Skb

/-- An IPv4 packet with these fields; it has no more than `maxLen` bytes. -/
def datagram (ptr len : ℕ) (saddr daddr : UInt32) (protocol tos : UInt8) (ipId : UInt16) : Skb :=
  ⟨ptr, min len maxLen, true, saddr, daddr, protocol, tos, ipId, min_le_right len maxLen⟩

/-- `skb_size`. -/
def size (skb : Skb) : ℕ := ethHlen + skb.len

/-- `skb_trim`: cut the packet down to `n` bytes, unless it is shorter. -/
def trim (skb : Skb) (n : ℕ) : Skb :=
  { skb with len := min skb.len n, len_le := (min_le_left ..).trans skb.len_le }

/-- The packet as it is received: the kernel has pulled the link header when `iso_rx_handler` is
called. -/
def pulled (skb : Skb) : Skb :=
  { skb with len := skb.len - ethHlen, len_le := (Nat.sub_le ..).trans skb.len_le }

/-- `ipv4_change_dsfield(iph, mask, value)`. -/
def changeDsfield (skb : Skb) (mask value : UInt8) : Skb :=
  { skb with tos := skb.tos &&& mask ||| value }

/-- `iso_enable_ecn`: set ECT(0). -/
def isoEnableEcn (skb : Skb) : Skb := skb.changeDsfield 0xff (skb.tos ||| 0x2)

/-- `iso_clear_ecn`. -/
def isoClearEcn (skb : Skb) : Skb := skb.changeDsfield 0xff (skb.tos &&& ~~~0x3)

/-- The upper six bits of `tos`: the differentiated services codepoint. -/
def dscp (skb : Skb) : UInt8 := skb.tos >>> 2

/-- The lower two bits of `tos`: `0` for a transport without ECN, `1` and `2` for ECT(1) and ECT(0),
`3` for a mark (CE). -/
def ecn (skb : Skb) : UInt8 := skb.tos &&& 3

/-- What a packet keeps along its way through the limiters: which buffer it is and how long. -/
def tag (skb : Skb) : ℕ × ℕ := (skb.ptr, skb.len)

theorem size_le (skb : Skb) : skb.size ≤ maxLen + ethHlen := by
  have := skb.len_le
  unfold size
  omega

@[simp] theorem size_changeDsfield (skb : Skb) (mask value : UInt8) :
    (skb.changeDsfield mask value).size = skb.size := rfl

@[simp] theorem tag_changeDsfield (skb : Skb) (mask value : UInt8) :
    (skb.changeDsfield mask value).tag = skb.tag := rfl

/-! ### The type of service -/

theorem dscp_eq_of_tos {skb skb' : Skb} (h : skb.tos = skb'.tos) : skb.dscp = skb'.dscp := by
  rw [dscp, h, dscp]

theorem ecn_eq_of_tos {skb skb' : Skb} (h : skb.tos = skb'.tos) : skb.ecn = skb'.ecn := by
  rw [ecn, h, ecn]

theorem ecn_cases (skb : Skb) : skb.ecn = 0 ∨ skb.ecn = 1 ∨ skb.ecn = 2 ∨ skb.ecn = 3 := by
  show skb.tos &&& 3 = 0 ∨ skb.tos &&& 3 = 1 ∨ skb.tos &&& 3 = 2 ∨ skb.tos &&& 3 = 3
  obtain ⟨bits⟩ := skb.tos
  revert bits
  decide +kernel

@[simp] theorem dscp_isoEnableEcn (skb : Skb) : skb.isoEnableEcn.dscp = skb.dscp := by
  show (skb.tos &&& 0xff ||| (skb.tos ||| 0x2)) >>> 2 = skb.tos >>> 2
  obtain ⟨bits⟩ := skb.tos
  revert bits
  decide +kernel

/-- Setting the bit of ECT(0) turns ECT(1) into a mark. -/
theorem ecn_isoEnableEcn_eq_three_iff (skb : Skb) :
    skb.isoEnableEcn.ecn = 3 ↔ skb.ecn = 1 ∨ skb.ecn = 3 := by
  show (skb.tos &&& 0xff ||| (skb.tos ||| 0x2)) &&& 3 = 3 ↔ skb.tos &&& 3 = 1 ∨ skb.tos &&& 3 = 3
  obtain ⟨bits⟩ := skb.tos
  revert bits
  decide +kernel

/-- The mask keeps every bit, and a bit that is kept cannot be cleared. -/
@[simp] theorem isoClearEcn_eq (skb : Skb) : skb.isoClearEcn = skb := by
  have hbits : ∀ tos : UInt8, tos &&& 0xff ||| tos &&& ~~~0x3 = tos := by
    rintro ⟨bits⟩
    revert bits
    decide +kernel
  rw [isoClearEcn, changeDsfield, hbits]

/-- The mask of a mark keeps no bit. -/
@[simp] theorem dscp_changeDsfield_mark (skb : Skb) : (skb.changeDsfield 0 0x3).dscp = 0 := by
  rw [dscp, changeDsfield, UInt8.and_zero, UInt8.zero_or]
  exact show (3 : UInt8) >>> 2 = 0 by decide

@[simp] theorem ecn_changeDsfield_mark (skb : Skb) : (skb.changeDsfield 0 0x3).ecn = 3 := by
  rw [ecn, changeDsfield, UInt8.and_zero, UInt8.zero_or]
  exact show (3 : UInt8) &&& 3 = 3 by decide

theorem size_eq_of_tag {skb skb' : Skb} (h : skb.tag = skb'.tag) : skb.size = skb'.size := by
  unfold size
  rw [show skb.len = skb'.len from (Prod.mk.inj h).2]

end Skb

end EyeQ
