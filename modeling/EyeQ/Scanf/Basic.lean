import EyeQ.Word.Basic
import Mathlib.Data.List.Basic
import Mathlib.Data.List.DropRight

/-!
# `sscanf`

`sscanf` of the Linux kernel (`vsscanf`), for formats of words, blanks and the conversions `%s`,
`%d` and `%u` without a field width.  A C string is the list of its characters before the
terminating null.  A format is read into directives (`format`), and `sscanf` returns the values it
stores, in order; the C function returns their number.  Conversion stops where the input ends, where
a character of the format does not match, and where a number has no digit.

* `sscanf_word`, `sscanf_word_of_not_prefix`: a format that begins with a word.
* `sscanf_blank_str`: a format that ends with a blank and `%s`.
-/

namespace EyeQ.Scanf

/-- `isspace` of the kernel, which counts the no-break space of Latin-1. -/
def isSpace (c : Char) : Bool := c ∈ [' ', '\t', '\n', '\x0b', '\x0c', '\r', '\xa0']

/-- `skip_spaces`. -/
def skipSpaces (s : List Char) : List Char := s.dropWhile isSpace

/-- A part of a format. -/
inductive Directive where
  /-- Any number of blanks, or none. -/
  | blank
  /-- This character. -/
  | char (c : Char)
  /-- `%s`. -/
  | str
  /-- `%d`. -/
  | int
  /-- `%u`. -/
  | uint
deriving DecidableEq

/-- The directives of a format string. -/
def format : List Char → List Directive
  | '%' :: 's' :: fmt => .str :: format fmt
  | '%' :: 'd' :: fmt => .int :: format fmt
  | '%' :: 'u' :: fmt => .uint :: format fmt
  | c :: fmt => (if isSpace c then .blank else .char c) :: format fmt
  | [] => []

/-- A value that is stored. -/
inductive Value where
  | str (s : List Char)
  | int (n : ℤ)
  | uint (n : UInt32)
deriving DecidableEq

/-- The number that a list of digits writes. -/
def digitsValue (digits : List Char) : ℕ :=
  digits.foldl (fun n c => 10 * n + (c.toNat - '0'.toNat)) 0

/-- `simple_strtol`, cut to an `int`: the number at the beginning of the input and what follows it,
or `none` if there is no digit. -/
def strtol (s : List Char) : Option (ℤ × List Char) :=
  let neg := s.head? = some '-'
  let rest := if neg then s.tail else s
  let digits := rest.takeWhile Char.isDigit
  if digits = [] then none
  else
    let n : ℤ := digitsValue digits
    some (s32 (if neg then -n else n), rest.dropWhile Char.isDigit)

/-- `simple_strtoul`, cut to an `unsigned int`. -/
def strtoul (s : List Char) : Option (UInt32 × List Char) :=
  let digits := s.takeWhile Char.isDigit
  if digits = [] then none
  else some (UInt32.ofNat (digitsValue digits), s.dropWhile Char.isDigit)

/-- The values that `sscanf` stores. -/
def sscanf : List Directive → List Char → List Value
  | [], _ => []
  | _ :: _, [] => []
  | .blank :: fmt, s => sscanf fmt (skipSpaces s)
  | .char c :: fmt, c' :: s => if c = c' then sscanf fmt s else []
  | .str :: fmt, s =>
    let s := skipSpaces s
    .str (s.takeWhile (! isSpace ·)) :: sscanf fmt (s.dropWhile (! isSpace ·))
  | .int :: fmt, s =>
    match strtol (skipSpaces s) with
    | some (n, s) => .int n :: sscanf fmt s
    | none => []
  | .uint :: fmt, s =>
    match strtoul (skipSpaces s) with
    | some (n, s) => .uint n :: sscanf fmt s
    | none => []

example : sscanf (format "dev %s %s weight %d".toList) "dev eth0 11.0.1.1 weight -7x".toList
    = [.str "eth0".toList, .str "11.0.1.1".toList, .int (-7)] := by decide +kernel

@[simp] theorem sscanf_nil (fmt : List Directive) : sscanf fmt [] = [] := by
  cases fmt <;> simp [sscanf]

/-- A word of the format that the input begins with. -/
theorem sscanf_word (word : List Char) (fmt : List Directive) (s : List Char) :
    sscanf (word.map .char ++ fmt) (word ++ s) = sscanf fmt s := by
  induction word with
  | nil => rfl
  | cons c word ih => simp [sscanf, ih]

/-- A word of the format that the input does not begin with. -/
theorem sscanf_word_of_not_prefix {word s : List Char} (h : ¬ word <+: s) (fmt : List Directive) :
    sscanf (word.map .char ++ fmt) s = [] := by
  induction word generalizing s with
  | nil => exact absurd (List.nil_prefix) h
  | cons c word ih =>
    cases s with
    | nil => exact sscanf_nil _
    | cons c' s =>
      rw [List.map_cons, List.cons_append, sscanf]
      split_ifs with hc
      · subst hc
        exact ih fun hword => h (List.cons_prefix_cons.mpr ⟨rfl, hword⟩)
      · rfl

theorem sscanf_blank (fmt : List Directive) (s : List Char) :
    sscanf (.blank :: fmt) s = sscanf fmt (skipSpaces s) := by
  cases s with
  | nil => simp [skipSpaces]
  | cons c s => rfl

/-- A blank and `%s` store a value if the input is not blank. -/
theorem sscanf_blank_str (s : List Char) :
    sscanf [.blank, .str] s = if s.all isSpace then []
      else [.str ((skipSpaces s).takeWhile (! isSpace ·))] := by
  have hblank : skipSpaces s = [] ↔ s.all isSpace :=
    List.dropWhile_eq_nil_iff.trans List.all_eq_true.symm
  have hagain : skipSpaces (skipSpaces s) = skipSpaces s := List.dropWhile_idempotent _ s
  rw [sscanf_blank]
  split_ifs with hall
  · rw [hblank.mpr hall, sscanf_nil]
  · rw [← hblank] at hall
    obtain ⟨c, rest, hskip⟩ := List.exists_cons_of_ne_nil hall
    rw [hskip] at hagain ⊢
    rw [sscanf, hagain, sscanf]
    simp

end EyeQ.Scanf
