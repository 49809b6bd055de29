import EyeQ.Scanf.Basic
import EyeQ.Text.Words
import Mathlib.Tactic.FinCases

/-!
# What was written

`sscanf` cuts a number to the type it is stored in, needs no blank where its format has one, does
not look at what follows the last conversion, and accepts more than addresses for `%u.%u.%u.%u`.
What the writer of a command has meant is read here: `matchWords` wants the words of the command to
be those of the format, with whole numbers in place of `%d`, and `dottedQuad` wants four numbers of
at most 255 with dots in between.

* `sscanf_directives`: of a command that is written like that, `sscanf` stores what was written,
  cut.
* `sscanf_dottedQuad`: of an address, `%u.%u.%u.%u` reads the four numbers.
-/

namespace EyeQ.Scanf

open Text

/-! ### Commands -/

/-- A word of a format. -/
inductive Piece where
  /-- This word. -/
  | word (w : List Char)
  /-- `%s`. -/
  | str
  /-- `%d`. -/
  | int
deriving DecidableEq

/-- The directives for a word, with the blank before it. -/
def Piece.directives : Piece → List Directive
  | .word w => .blank :: w.map .char
  | .str => [.blank, .str]
  | .int => [.blank, .int]

/-- The directives of a format of words. -/
def directives (ps : List Piece) : List Directive := ps.flatMap Piece.directives

/-- The number that a word writes. -/
def numeral (w : List Char) : Option ℤ :=
  let neg := w.head? = some '-'
  let digits := if neg then w.tail else w
  if digits ≠ [] ∧ digits.all Char.isDigit then
    let n : ℤ := digitsValue digits
    some (if neg then -n else n)
  else none

/-- The values that a command writes, if its words are those of the format. -/
def matchWords : List Piece → List (List Char) → Option (List Value)
  | [], [] => some []
  | .word w :: ps, w' :: ws => if w = w' then matchWords ps ws else none
  | .str :: ps, w :: ws => (matchWords ps ws).map (.str w :: ·)
  | .int :: ps, w :: ws => (numeral w).bind fun n => (matchWords ps ws).map (.int n :: ·)
  | _, _ => none

/-- What is stored of a value. -/
def Value.cut : Value → Value
  | .int n => .int (s32 n)
  | v => v

theorem not_isSpace_of_isDigit {c : Char} (h : c.isDigit = true) : isSpace c = false := by
  by_contra hspace
  rw [Bool.not_eq_false, isSpace, decide_eq_true_eq] at hspace
  fin_cases hspace
  all_goals exact absurd h (by decide)

theorem not_isDigit_of_isSpace {c : Char} (h : isSpace c = true) : c.isDigit = false := by
  by_contra hdigit
  rw [Bool.not_eq_false] at hdigit
  exact absurd h (by simp [not_isSpace_of_isDigit hdigit])

/-- Digits up to what is none. -/
theorem span_digits {digits rest : List Char} (hdigits : ∀ c ∈ digits, c.isDigit = true)
    (hrest : ∀ c ∈ rest.head?, c.isDigit = false) :
    (digits ++ rest).takeWhile Char.isDigit = digits ∧
    (digits ++ rest).dropWhile Char.isDigit = rest := by
  rw [List.takeWhile_append_of_pos hdigits, List.dropWhile_append_of_pos hdigits]
  cases rest with
  | nil => simp
  | cons c rest =>
    have hc : c.isDigit = false := hrest c rfl
    rw [List.takeWhile_cons_of_neg (by simp [hc]), List.dropWhile_cons_of_neg (by simp [hc])]
    exact ⟨List.append_nil _, rfl⟩

theorem strtol_numeral {w rest : List Char} {n : ℤ} (hw : numeral w = some n)
    (hrest : ∀ c ∈ rest.head?, isSpace c = true) : strtol (w ++ rest) = some (s32 n, rest) := by
  have hstop : ∀ c ∈ rest.head?, c.isDigit = false :=
    fun c hc => not_isDigit_of_isSpace (hrest c hc)
  unfold numeral at hw
  dsimp only at hw
  split_ifs at hw with hneg hdigits hdigits
  · -- a minus sign is no digit
    obtain ⟨c, w, rfl⟩ := List.exists_cons_of_ne_nil (l := w) (by rintro rfl; simp at hneg)
    obtain rfl : c = '-' := Option.some.inj hneg
    rw [List.tail_cons] at hdigits hw
    have hspan := span_digits (List.all_eq_true.mp hdigits.2) hstop
    obtain rfl := Option.some.inj hw
    simp only [strtol, List.cons_append, List.head?_cons, if_true, List.tail_cons]
    rw [hspan.1, hspan.2, if_neg hdigits.1]
  · have hspan := span_digits (List.all_eq_true.mp hdigits.2) hstop
    obtain rfl := Option.some.inj hw
    have hhead : (w ++ rest).head? ≠ some '-' := by
      rwa [List.head?_append_of_ne_nil _ hdigits.1]
    simp only [strtol, if_neg hhead]
    rw [hspan.1, hspan.2, if_neg hdigits.1]

section

variable {w rest : List Char}

theorem skipSpaces_word (hne : w ≠ []) (hw : ∀ c ∈ w, isSpace c = false) (rest : List Char) :
    skipSpaces (w ++ rest) = w ++ rest := by
  obtain ⟨c, w, rfl⟩ := List.exists_cons_of_ne_nil hne
  have hc := hw c List.mem_cons_self
  rw [skipSpaces, List.cons_append, List.dropWhile_cons_of_neg (by simp [hc])]

theorem sscanf_str (hne : w ≠ []) (hw : ∀ c ∈ w, isSpace c = false)
    (hrest : ∀ c ∈ rest.head?, isSpace c = true) (fmt : List Directive) :
    sscanf (.str :: fmt) (w ++ rest) = .str w :: sscanf fmt rest := by
  have hskip := skipSpaces_word hne hw rest
  have hw' : ∀ c ∈ w, (! isSpace c) = true := fun c hc => by simp [hw c hc]
  have htake : (w ++ rest).takeWhile (! isSpace ·) = w := by
    rw [List.takeWhile_append_of_pos hw']
    cases rest with
    | nil => simp
    | cons c rest => simp [hrest c rfl]
  have hdrop : (w ++ rest).dropWhile (! isSpace ·) = rest := by
    rw [List.dropWhile_append_of_pos hw']
    cases rest with
    | nil => simp
    | cons c rest => simp [hrest c rfl]
  obtain ⟨c, s, hcons⟩ : ∃ c s, w ++ rest = c :: s := by
    obtain ⟨c, w, rfl⟩ := List.exists_cons_of_ne_nil hne
    exact ⟨c, w ++ rest, rfl⟩
  rw [hcons] at hskip htake hdrop ⊢
  simp only [sscanf, hskip, htake, hdrop]

theorem sscanf_int {n : ℤ} (hn : numeral w = some n) (hne : w ≠ [])
    (hw : ∀ c ∈ w, isSpace c = false) (hrest : ∀ c ∈ rest.head?, isSpace c = true)
    (fmt : List Directive) :
    sscanf (.int :: fmt) (w ++ rest) = .int (s32 n) :: sscanf fmt rest := by
  have hskip := skipSpaces_word hne hw rest
  have hstrtol := strtol_numeral hn hrest
  obtain ⟨c, s, hcons⟩ : ∃ c s, w ++ rest = c :: s := by
    obtain ⟨c, w, rfl⟩ := List.exists_cons_of_ne_nil hne
    exact ⟨c, w ++ rest, rfl⟩
  rw [hcons] at hskip hstrtol ⊢
  simp only [sscanf, hskip, hstrtol]

end

/-- Of a command in the words of the format, `sscanf` stores what was written, cut. -/
theorem sscanf_directives {ps : List Piece} {s : List Char} {values : List Value}
    (h : matchWords ps (words isSpace s) = some values) :
    sscanf (directives ps) s = values.map Value.cut := by
  induction ps generalizing s values with
  | nil =>
    cases hwords : words isSpace s with
    | nil =>
      rw [hwords] at h
      obtain rfl := Option.some.inj h
      rfl
    | cons w ws =>
      rw [hwords] at h
      exact nomatch h
  | cons piece ps ih =>
    cases hwords : words isSpace s with
    | nil =>
      rw [hwords] at h
      cases piece <;> exact nomatch h
    | cons w ws =>
      obtain ⟨gap, rest, rfl, hgap, hne, hw, hrest, rfl⟩ := words_eq_cons hwords
      have hskip : skipSpaces (gap ++ (w ++ rest)) = w ++ rest := by
        rw [skipSpaces, List.dropWhile_append_of_pos hgap]
        exact skipSpaces_word hne hw rest
      rw [hwords] at h
      rw [directives, List.flatMap_cons, ← directives]
      cases piece with
      | word w' =>
        rw [matchWords] at h
        split_ifs at h with heq
        subst heq
        rw [Piece.directives, List.cons_append, sscanf_blank, hskip, sscanf_word]
        exact ih h
      | str =>
        obtain ⟨values', hvalues, rfl⟩ := Option.map_eq_some_iff.mp h
        rw [Piece.directives, List.cons_append, sscanf_blank, hskip, List.cons_append,
          sscanf_str hne hw hrest, List.nil_append, ih hvalues]
        rfl
      | int =>
        obtain ⟨n, hn, h⟩ := Option.bind_eq_some_iff.mp h
        obtain ⟨values', hvalues, rfl⟩ := Option.map_eq_some_iff.mp h
        rw [Piece.directives, List.cons_append, sscanf_blank, hskip, List.cons_append,
          sscanf_int hn hne hw hrest, List.nil_append, ih hvalues]
        rfl

/-- A format begins without a blank: then nothing is stored, or what would be with one. -/
theorem sscanf_tail_directives {c : Char} (hc : isSpace c = false) (w : List Char) (ps : List Piece)
    (s : List Char) :
    sscanf (directives (.word (c :: w) :: ps)).tail s = [] ∨
      sscanf (directives (.word (c :: w) :: ps)).tail s =
      sscanf (directives (.word (c :: w) :: ps)) s := by
  have hcons : directives (.word (c :: w) :: ps) =
      .blank :: (directives (.word (c :: w) :: ps)).tail := rfl
  cases s with
  | nil => exact Or.inl (sscanf_nil _)
  | cons c' s =>
    by_cases hc' : isSpace c' = true
    · left
      have hne : c ≠ c' := by
        rintro rfl
        simp [hc] at hc'
      show sscanf (.char c :: _) (c' :: s) = []
      rw [sscanf, if_neg hne]
    · right
      rw [hcons, sscanf_blank, skipSpaces, List.dropWhile_cons_of_neg hc', ← hcons]

theorem strtol_lt {s rest : List Char} {n : ℤ} (h : strtol s = some (n, rest)) : n < 2 ^ 31 := by
  unfold strtol at h
  dsimp only at h
  generalize (if s.head? = some '-' then s.tail else s) = digits at h
  split_ifs at h
  all_goals
    obtain ⟨hn, -⟩ := Prod.mk.inj (Option.some.inj h)
    rw [← hn]
    apply s32_lt

/-- What is stored for `%d` is an `int`. -/
theorem sscanf_int_lt {fmt : List Directive} {s : List Char} {n : ℤ} (h : .int n ∈ sscanf fmt s) :
    n < 2 ^ 31 := by
  induction fmt generalizing s with
  | nil => simp [sscanf] at h
  | cons dir fmt ih =>
    cases s with
    | nil => simp at h
    | cons c s =>
      cases dir with
      | blank => exact ih h
      | char c' =>
        rw [sscanf] at h
        split_ifs at h
        · exact ih h
        · simp at h
      | str =>
        simp only [sscanf, List.mem_cons, reduceCtorEq, false_or] at h
        exact ih h
      | int =>
        simp only [sscanf] at h
        split at h
        · rename_i n' s' hstrtol
          rcases List.mem_cons.mp h with heq | h
          · rw [Value.int.inj heq]
            exact strtol_lt hstrtol
          · exact ih h
        · simp at h
      | uint =>
        simp only [sscanf] at h
        split at h
        · simp only [List.mem_cons, reduceCtorEq, false_or] at h
          exact ih h
        · simp at h

/-! ### Addresses -/

/-- A number of at most 255. -/
def IsOctet (digits : List Char) : Prop :=
  digits ≠ [] ∧ (∀ c ∈ digits, c.isDigit = true) ∧ digitsValue digits ≤ 255

instance (digits : List Char) : Decidable (IsOctet digits) :=
  haveI : Decidable (∀ c ∈ digits, c.isDigit = true) := List.decidableBAll _ digits
  inferInstanceAs (Decidable (_ ∧ _ ∧ _))

/-- The word with the four numbers in its bytes. -/
def address (a b c d : UInt32) : UInt32 := a <<< 24 ||| b <<< 16 ||| c <<< 8 ||| d

/-- The address that a word writes, in host order. -/
def dottedQuad (word : List Char) : Option UInt32 :=
  match word.splitOn '.' with
  | [a, b, c, d] =>
    if IsOctet a ∧ IsOctet b ∧ IsOctet c ∧ IsOctet d then
      some (address (.ofNat (digitsValue a)) (.ofNat (digitsValue b)) (.ofNat (digitsValue c))
        (.ofNat (digitsValue d)))
    else none
  | _ => none

example : dottedQuad "11.0.1.2".toList = some 0x0b000102 := by decide +kernel

example : dottedQuad "11.0.1.2x".toList = none := by decide +kernel

/-- `%u` reads digits up to what is none. -/
theorem sscanf_uint {digits rest : List Char} (hne : digits ≠ [])
    (hdigits : ∀ c ∈ digits, c.isDigit = true) (hrest : ∀ c ∈ rest.head?, c.isDigit = false)
    (fmt : List Directive) :
    sscanf (.uint :: fmt) (digits ++ rest) = .uint (.ofNat (digitsValue digits)) ::
    sscanf fmt rest := by
  have hspan := span_digits hdigits hrest
  have hstrtoul : strtoul (digits ++ rest) = some (.ofNat (digitsValue digits), rest) := by
    unfold strtoul
    dsimp only
    rw [hspan.1, hspan.2, if_neg hne]
  obtain ⟨c, s, hcons⟩ : ∃ c s, digits ++ rest = c :: s := by
    obtain ⟨c, digits, rfl⟩ := List.exists_cons_of_ne_nil hne
    exact ⟨c, digits ++ rest, rfl⟩
  have hskip := skipSpaces_word hne (fun c hc => not_isSpace_of_isDigit (hdigits c hc)) rest
  rw [hcons] at hskip hstrtoul ⊢
  simp only [sscanf, hskip, hstrtoul]

theorem IsOctet.sscanf_uint_dot {digits : List Char} (h : IsOctet digits) (rest : List Char)
    (fmt : List Directive) :
    sscanf (.uint :: .char '.' :: fmt) (digits ++ '.' :: rest)
      = .uint (.ofNat (digitsValue digits)) :: sscanf fmt rest := by
  have hdot : ∀ c ∈ ('.' :: rest).head?, c.isDigit = false := by
    intro c hc
    obtain rfl : '.' = c := Option.some.inj hc
    decide
  rw [sscanf_uint h.1 h.2.1 hdot, sscanf, if_pos rfl]

/-- Of an address, `%u.%u.%u.%u` reads the four numbers. -/
theorem sscanf_dottedQuad {word : List Char} {addr : UInt32} (h : dottedQuad word = some addr) :
    ∃ a b c d : UInt32, addr = address a b c d ∧
      sscanf (format "%u.%u.%u.%u".toList) word = [.uint a, .uint b, .uint c, .uint d] := by
  have hjoin : ['.'].intercalate (word.splitOn '.') = word := List.intercalate_splitOn '.'
  unfold dottedQuad at h
  split at h
  · rename_i a b c d hsplit
    split_ifs at h with hoctets
    obtain ⟨ha, hb, hc, hd⟩ := hoctets
    have hword : word = a ++ '.' :: (b ++ '.' :: (c ++ '.' :: d)) := by
      rw [← hjoin, hsplit]
      simp [List.intercalate]
    have hformat : format "%u.%u.%u.%u".toList
        = [.uint, .char '.', .uint, .char '.', .uint, .char '.', .uint] := rfl
    have hlast : sscanf [.uint] d = [.uint (.ofNat (digitsValue d))] := by
      have hend : ∀ c ∈ ([] : List Char).head?, c.isDigit = false := by simp
      have hscan := sscanf_uint hd.1 hd.2.1 hend []
      rwa [List.append_nil, sscanf_nil] at hscan
    refine ⟨_, _, _, _, (Option.some.inj h).symm, ?_⟩
    rw [hformat, hword, ha.sscanf_uint_dot, hb.sscanf_uint_dot, hc.sscanf_uint_dot, hlast]
  · exact nomatch h

end EyeQ.Scanf
