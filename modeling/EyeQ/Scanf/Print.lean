import EyeQ.Scanf.Exact
import EyeQ.Text.Numeral
import Mathlib.Data.List.Induction
import Mathlib.Tactic.IntervalCases

/-!
# Reading what was printed

A number that `printf` has written is read back by `sscanf`, and so are words with single blanks in
between (`line`), if none of them has a blank.

* `numeral_decInt`: `%d`.
* `isOctet_dec`: a byte in an address.
* `sscanf_line`: a command, word by word.
-/

namespace EyeQ.Scanf

open Text

/-! ### Numbers -/

theorem digitsValue_dec (n : ℕ) : digitsValue (dec n) = n := Nat.ofDigitChars_ten_toDigits

theorem isDigit_of_mem_dec {n : ℕ} {c : Char} (hc : c ∈ dec n) : c.isDigit = true :=
  Nat.isDigit_of_mem_toDigits (by decide) (by decide) hc

/-- A number does not begin with a sign. -/
theorem head?_dec_ne (n : ℕ) : (dec n).head? ≠ some '-' := by
  intro h
  have hdigit := isDigit_of_mem_dec (List.mem_of_mem_head? h)
  exact absurd hdigit (by decide)

theorem numeral_dec (n : ℕ) : numeral (dec n) = some (n : ℤ) := by
  have hdigits : dec n ≠ [] ∧ (dec n).all Char.isDigit = true :=
    ⟨dec_ne_nil n, List.all_eq_true.mpr fun c hc => isDigit_of_mem_dec hc⟩
  unfold numeral
  dsimp only
  rw [if_neg (head?_dec_ne n), if_neg (head?_dec_ne n), if_pos hdigits, digitsValue_dec]

theorem numeral_decInt (z : ℤ) : numeral (decInt z) = some z := by
  cases z with
  | ofNat n => exact numeral_dec n
  | negSucc n =>
    have hdigits : dec (n + 1) ≠ [] ∧ (dec (n + 1)).all Char.isDigit = true :=
      ⟨dec_ne_nil _, List.all_eq_true.mpr fun c hc => isDigit_of_mem_dec hc⟩
    have hsign : ('-' :: dec (n + 1)).head? = some '-' := rfl
    unfold numeral decInt
    dsimp only
    rw [if_pos hsign, if_pos hsign, List.tail_cons, if_pos hdigits, digitsValue_dec]
    rfl

theorem digitChar_of_isDigit {c : Char} (h : c.isDigit = true) :
    c.toNat - '0'.toNat < 10 ∧ Nat.digitChar (c.toNat - '0'.toNat) = c := by
  have hbounds : 48 ≤ c.toNat ∧ c.toNat ≤ 57 := by
    simpa [Char.isDigit, UInt32.le_iff_toNat_le] using h
  have hc : Char.ofNat c.toNat = c := Char.ofNat_toNat c
  generalize c.toNat = n at hbounds hc
  obtain ⟨hlo, hhi⟩ := hbounds
  subst hc
  interval_cases n
  all_goals decide

/-- A number without leading zeros is printed as it was read. -/
theorem dec_digitsValue {w : List Char} (hne : w ≠ []) (hdigits : ∀ c ∈ w, c.isDigit = true)
    (hzero : w.head? = some '0' → w = ['0']) : dec (digitsValue w) = w := by
  induction w using List.reverseRecOn with
  | nil => exact absurd rfl hne
  | append_singleton l c ih =>
    obtain ⟨hlt, hchar⟩ := digitChar_of_isDigit (hdigits c (by simp))
    have hvalue : digitsValue (l ++ [c]) = 10 * digitsValue l + (c.toNat - '0'.toNat) := by
      simp [digitsValue]
    generalize c.toNat - '0'.toNat = digit at hlt hchar hvalue
    rw [hvalue, dec]
    by_cases hl : l = []
    · subst hl
      rw [show digitsValue [] = 0 from rfl, Nat.mul_zero, Nat.zero_add,
        Nat.toDigits_of_lt_base hlt, hchar]
      rfl
    · -- the digits before the last one do not begin with a zero, so their value is not 0
      have hhead : l.head? ≠ some '0' := by
        intro h
        have hlen := congrArg List.length (hzero (by rw [List.head?_append, h]; rfl))
        exact hl (by simpa using hlen)
      have hinit := ih hl (fun x hx => hdigits x (List.mem_append_left _ hx))
        fun h => absurd h hhead
      have hpos : digitsValue l ≠ 0 := by
        intro h
        rw [h] at hinit
        exact hhead (by rw [← hinit]; rfl)
      rw [Nat.toDigits_of_base_le (by decide) (by omega),
        show (10 * digitsValue l + digit) / 10 = digitsValue l by omega,
        show (10 * digitsValue l + digit) % 10 = digit by omega, hchar]
      exact congrArg (· ++ [c]) hinit

theorem isOctet_dec {n : ℕ} (h : n ≤ 255) : IsOctet (dec n) :=
  ⟨dec_ne_nil n, fun _ hc => isDigit_of_mem_dec hc, by rwa [digitsValue_dec]⟩

theorem length_dec_le {n : ℕ} (h : n ≤ 255) : (dec n).length ≤ 3 := by
  interval_cases n
  all_goals decide

/-! ### Words -/

/-- A word that `%s` reads as a whole. -/
structure Word (w : List Char) : Prop where
  ne : w ≠ []
  solid : ∀ c ∈ w, isSpace c = false

/-- Words with single blanks in between. -/
def line (ws : List (List Char)) : List Char := [' '].intercalate ws

theorem line_singleton (w : List Char) : line [w] = w := by simp [line]

theorem line_cons {w : List Char} {ws : List (List Char)} (h : ws ≠ []) :
    line (w :: ws) = w ++ ' ' :: line ws := by
  obtain ⟨w', ws, rfl⟩ := List.exists_cons_of_ne_nil h
  rfl

theorem line_concat {ws : List (List Char)} (hne : ws ≠ []) (w : List Char) :
    line (ws ++ [w]) = line ws ++ ' ' :: w := by
  induction ws with
  | nil => exact absurd rfl hne
  | cons w' ws ih =>
    by_cases hnil : ws = []
    · subst hnil
      rw [List.singleton_append, line_cons (List.cons_ne_nil _ _), line_singleton, line_singleton]
    · have hrest : ws ++ [w] ≠ [] := List.append_ne_nil_of_left_ne_nil hnil _
      rw [List.cons_append, line_cons hrest, ih hnil, line_cons hnil,
        List.append_assoc, List.cons_append]

theorem words_line {ws : List (List Char)} (h : ∀ w ∈ ws, Word w) :
    words isSpace (line ws ++ ['\n']) = ws := by
  induction ws with
  | nil => decide
  | cons w ws ih =>
    obtain ⟨hw, hws⟩ := List.forall_mem_cons.mp h
    by_cases hne : ws = []
    · subst hne
      have hend : words isSpace ['\n'] = [] := by decide
      rw [line_singleton, words_append hw.ne hw.solid (by simp [isSpace]), hend]
    · have hblank : ∀ c ∈ (' ' :: (line ws ++ ['\n'])).head?, isSpace c = true := by simp [isSpace]
      rw [line_cons hne, List.append_assoc, List.cons_append, words_append hw.ne hw.solid hblank,
        words_cons_of_sep (by decide), ih hws]

/-- A command whose first word is not preceded by a blank. -/
theorem sscanf_line {ps : List Piece} {ws : List (List Char)} {values : List Value}
    (hws : ∀ w ∈ ws, Word w) (hne : ws ≠ []) (h : matchWords ps ws = some values) :
    sscanf (directives ps).tail (line ws ++ ['\n']) = values.map Value.cut := by
  have hscan : sscanf (directives ps) (line ws ++ ['\n']) = values.map Value.cut := by
    refine sscanf_directives ?_
    rw [words_line hws, h]
  obtain ⟨w, ws, rfl⟩ := List.exists_cons_of_ne_nil hne
  have hw := hws w List.mem_cons_self
  -- the blank before the first word reads nothing
  have hskip : skipSpaces (line (w :: ws) ++ ['\n']) = line (w :: ws) ++ ['\n'] := by
    by_cases hnil : ws = []
    · subst hnil
      rw [line_singleton, skipSpaces_word hw.ne hw.solid]
    · rw [line_cons hnil, List.append_assoc, skipSpaces_word hw.ne hw.solid]
  have hblank : ∃ fmt, directives ps = .blank :: fmt := by
    cases ps with
    | nil => exact nomatch h
    | cons p ps => cases p <;> exact ⟨_, rfl⟩
  obtain ⟨fmt, hfmt⟩ := hblank
  rw [hfmt, sscanf_blank, hskip] at hscan
  rw [hfmt, List.tail_cons, hscan]

end EyeQ.Scanf
