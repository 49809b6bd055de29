import Mathlib.Data.Nat.Notation

/-!
# The platform

What the code takes from the machine and the kernel it is compiled for: the byte order, and the hash
function `jhash_1word` with which tables are indexed.  All results hold on every `Platform`;
`Platform.x86` is a little-endian machine with the hash of Linux 3.x.

What the machine does not survive is a `Fault`.  A function that divides, or follows a pointer that
may be no object, returns `Except Fault`.
-/

namespace EyeQ

/-- The functions of the platform. -/
structure Platform where
  /-- `jhash_1word(a, initval)`. -/
  jhash1word : UInt32 → UInt32 → UInt32
  /-- `ntohl`. -/
  ntohl : UInt32 → UInt32

/-- The number of buckets of every table, `ISO_MAX_STATE_BUCKETS` and the like, is a power of two;
an index is a hash with this mask. -/
def bucketMask : UInt32 := 255

/-! ### Faults -/

inductive Fault where
  /-- A division by zero. -/
  | divide
  /-- An access through a pointer that is not to an object. -/
  | wild
deriving DecidableEq

/-- The division of unsigned integers. -/
def udiv (a b : ℕ) : Except Fault ℕ := if b = 0 then .error .divide else .ok (a / b)

theorem udiv_of_pos {b : ℕ} (a : ℕ) (hb : 0 < b) : udiv a b = .ok (a / b) :=
  if_neg (Nat.pos_iff_ne_zero.1 hb)

/-! ### Linux 3.x on a little-endian machine -/

def rol32 (x n : UInt32) : UInt32 := x <<< n ||| x >>> (32 - n)

/-- `jhash_1word` of Linux 3.x: `__jhash_final` of the word, nothing, and the initial value. -/
def jhash1word (a initval : UInt32) : UInt32 :=
  let a := a + 0xdeadbeef
  let b := 0xdeadbeef
  let c := initval
  let c := (c ^^^ b) - rol32 b 14
  let a := (a ^^^ c) - rol32 c 11
  let b := (b ^^^ a) - rol32 a 25
  let c := (c ^^^ b) - rol32 b 16
  let a := (a ^^^ c) - rol32 c 4
  let b := (b ^^^ a) - rol32 a 14
  (c ^^^ b) - rol32 b 24

def bswap32 (x : UInt32) : UInt32 :=
  let mask : UInt32 := 0xff00
  (x <<< 24) ||| ((x &&& mask) <<< 8) ||| ((x >>> 8) &&& mask) ||| (x >>> 24)

def Platform.x86 : Platform := ⟨EyeQ.jhash1word, bswap32⟩

end EyeQ
