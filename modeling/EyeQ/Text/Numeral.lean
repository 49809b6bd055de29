import Mathlib.Data.List.Basic
import Mathlib.Tactic.IntervalCases

/-!
# Numbers in a text

Numbers as `printf` writes them: `%u` (`dec`), `%d` (`decInt`) and `%x` (`hex`), with a field width
(`padLeft`).

* `hexValue_hex`: a hexadecimal number is read back.
* `mem_hexDigits_of_mem_toDigits`: which characters a number has.
-/

namespace EyeQ.Text

/-- `%u` and its kin. -/
def dec (n : ℕ) : List Char := Nat.toDigits 10 n

/-- `%d`. -/
def decInt : ℤ → List Char
  | .ofNat n => dec n
  | .negSucc n => '-' :: dec (n + 1)

/-- `%x` and its kin. -/
def hex (n : ℕ) : List Char := Nat.toDigits 16 n

/-- A field of a width, filled up from the left. -/
def padLeft (width : ℕ) (fill : Char) (s : List Char) : List Char :=
  List.replicate (width - s.length) fill ++ s

/-! ### Characters -/

def hexDigits : List Char := "0123456789abcdef".toList

theorem digitChar_mem_hexDigits {n : ℕ} (h : n < 16) : n.digitChar ∈ hexDigits := by
  interval_cases n
  all_goals decide

/-- The digits of a number. -/
theorem mem_hexDigits_of_mem_toDigits {b : ℕ} (hb : 1 < b) (hb' : b ≤ 16) {n : ℕ} {c : Char}
    (hc : c ∈ Nat.toDigits b n) : c ∈ hexDigits := by
  induction n using Nat.strong_induction_on with
  | _ n ih =>
    rw [Nat.toDigits_eq_if hb] at hc
    split_ifs at hc with hlt
    · obtain rfl := List.mem_singleton.mp hc
      exact digitChar_mem_hexDigits (by omega)
    · rcases List.mem_append.mp hc with hc | hc
      · exact ih (n / b) (Nat.div_lt_self (by omega) hb) hc
      · obtain rfl := List.mem_singleton.mp hc
        have hmod := Nat.mod_lt n (by omega : b > 0)
        exact digitChar_mem_hexDigits (by omega)

/-- A property of all digits holds for all characters of a number. -/
theorem forall_mem_dec {P : Char → Prop} (h : ∀ c ∈ hexDigits, P c) (n : ℕ) : ∀ c ∈ dec n, P c :=
  fun c hc => h c (mem_hexDigits_of_mem_toDigits (by decide) (by decide) hc)

theorem forall_mem_hex {P : Char → Prop} (h : ∀ c ∈ hexDigits, P c) (n : ℕ) : ∀ c ∈ hex n, P c :=
  fun c hc => h c (mem_hexDigits_of_mem_toDigits (by decide) (by decide) hc)

theorem forall_mem_decInt {P : Char → Prop} (h : ∀ c ∈ hexDigits, P c) (hminus : P '-') (z : ℤ) :
    ∀ c ∈ decInt z, P c := by
  cases z with
  | ofNat n => exact forall_mem_dec h n
  | negSucc n =>
    intro c hc
    rcases List.mem_cons.mp hc with rfl | hc
    · exact hminus
    · exact forall_mem_dec h _ c hc

theorem forall_mem_padLeft {P : Char → Prop} {width : ℕ} {fill : Char}
    {s : List Char} (hfill : P fill) (h : ∀ c ∈ s, P c) : ∀ c ∈ padLeft width fill s, P c := by
  intro c hc
  rcases List.mem_append.mp hc with hc | hc
  · rwa [List.eq_of_mem_replicate hc]
  · exact h c hc

theorem dec_ne_nil (n : ℕ) : dec n ≠ [] := Nat.toDigits_ne_nil

theorem hex_ne_nil (n : ℕ) : hex n ≠ [] := Nat.toDigits_ne_nil

/-! ### Hexadecimal numbers -/

/-- The value of a hexadecimal digit. -/
def hexDigit (c : Char) : Option ℕ :=
  if c.isDigit then some (c.toNat - '0'.toNat)
  else if 'a' ≤ c ∧ c ≤ 'f' then some (c.toNat - 'a'.toNat + 10)
  else if 'A' ≤ c ∧ c ≤ 'F' then some (c.toNat - 'A'.toNat + 10)
  else none

/-- The number that hexadecimal digits write. -/
def hexValue (s : List Char) : Option ℕ :=
  if s = [] then none else s.foldlM (fun n c => (hexDigit c).map (16 * n + ·)) 0

theorem hexDigit_digitChar {n : ℕ} (h : n < 16) : hexDigit n.digitChar = some n := by
  interval_cases n
  all_goals decide

theorem foldlM_hexDigit_toDigits (n : ℕ) :
    (Nat.toDigits 16 n).foldlM (fun n c => (hexDigit c).map (16 * n + ·)) 0 = some n := by
  induction n using Nat.strong_induction_on with
  | _ n ih =>
    rw [Nat.toDigits_eq_if (by decide)]
    split_ifs with hlt
    · simp [hexDigit_digitChar hlt]
    · rw [List.foldlM_append, ih (n / 16) (by omega)]
      have hmod : n % 16 < 16 := Nat.mod_lt n (by decide)
      have hdiv := Nat.div_add_mod n 16
      simp [hexDigit_digitChar hmod, hdiv]

theorem hexValue_hex (n : ℕ) : hexValue (hex n) = some n := by
  rw [hexValue, if_neg (hex_ne_nil n), hex, foldlM_hexDigit_toDigits]

end EyeQ.Text
