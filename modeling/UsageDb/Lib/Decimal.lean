import UsageDb.Lib.Word
import Mathlib.Data.Nat.Digits.Defs
import Mathlib.Data.String.Basic

/-!
# Numbers in base ten

A number is written in digits, with zeros before it up to a width (`padded`), and a text of
digits is read back (`parseDigits`), so different numbers have different texts
(`padded_injective`). Numbers of a fixed width are read with the error that Rust's `parse` reports
(`parseUInt`, `parseSigned`). What was written is read as the number if it fits
(`parseUInt_padded`).
-/

namespace UsageDb.Lib

open List

variable {n r : ℕ} {ds : List Char}

/-- The digits of a number in base ten. -/
def parseDigits : List Char → ℕ → Option ℕ
  | [], n => some n
  | c :: cs, n => if c.isDigit then parseDigits cs (10 * n + (c.toNat - '0'.toNat)) else none

/-- The digits of a number, with zeros before them up to a width. -/
def padded (width n : ℕ) : List Char := List.replicate (width - (Nat.toDigits 10 n).length) '0' ++
    Nat.toDigits 10 n

theorem isDigit_of_mem_toDigits {c : Char} (h : c ∈ Nat.toDigits 10 n) : c.isDigit :=
  Nat.isDigit_of_mem_toDigits (by decide) (by decide) h

theorem parseDigits_eq (h : ∀ c ∈ ds, c.isDigit) (n : ℕ) :
    parseDigits ds n = some (Nat.ofDigitChars 10 ds n) := by
  induction ds generalizing n with
  | nil => rfl
  | cons c cs ih =>
    rw [parseDigits, if_pos (h c (by simp)), ih fun c hc => h c (by simp [hc])]
    rfl

/-- The digits of a number are read back. -/
theorem parseDigits_toDigits (n : ℕ) : parseDigits (Nat.toDigits 10 n) 0 = some n := by
  rw [parseDigits_eq fun c hc => isDigit_of_mem_toDigits hc, Nat.ofDigitChars_ten_toDigits]

theorem toList_repr (n : ℕ) : n.repr.toList = Nat.toDigits 10 n := by
  rw [Nat.repr_eq_ofList_toDigits, String.toList_ofList]

/-- Zeros before a number do not change it. -/
theorem parseDigits_zeros (k : ℕ) (ds : List Char) : parseDigits (List.replicate k '0' ++ ds) 0 =
    parseDigits ds 0 := by
  induction k with
  | zero => rfl
  | succ k ih =>
    rw [replicate_succ, cons_append, parseDigits, if_pos (by decide)]
    exact ih

theorem isDigit_of_mem_padded {width : ℕ} {c : Char} (h : c ∈ padded width n) : c.isDigit := by
  rcases mem_append.1 h with h | h
  · rw [eq_of_mem_replicate h]
    decide
  · exact isDigit_of_mem_toDigits h

theorem parseDigits_padded (width n : ℕ) : parseDigits (padded width n) 0 = some n := by
  rw [padded, parseDigits_zeros, parseDigits_toDigits]

theorem padded_injective (width : ℕ) : Function.Injective (padded width) := by
  intro n m h
  have hparse := congrArg (parseDigits · 0) h
  simpa only [parseDigits_padded, Option.some.injEq] using hparse

theorem padded_zero (n : ℕ) : padded 0 n = n.repr.toList := by
  rw [padded, Nat.zero_sub, toList_repr]
  rfl

/-! ### Numbers of a fixed width -/

/-- `IntErrorKind`. -/
inductive ParseIntError where
  /-- There is no text. -/
  | empty
  /-- A character is not a digit, or there are no digits after the sign. -/
  | invalidDigit
  /-- The number is too large. -/
  | posOverflow
  /-- The number is too small. -/
  | negOverflow
  deriving DecidableEq, Repr

/-- The text of the error. -/
def ParseIntError.message : ParseIntError → String
  | .empty => "cannot parse integer from empty string"
  | .invalidDigit => "invalid digit found in string"
  | .posOverflow => "number too large to fit in target type"
  | .negOverflow => "number too small to fit in target type"

/-- The digits of an unsigned number below `bound`, read up to the first that is none or with which
the number no longer fits. -/
def parseUnsignedDigits (bound : ℕ) : List Char → ℕ → Except ParseIntError ℕ
  | [], n => .ok n
  | c :: cs, n =>
    if c.isDigit then
      let next := 10 * n + (c.toNat - '0'.toNat)
      if next < bound then parseUnsignedDigits bound cs next else .error .posOverflow
    else .error .invalidDigit

/-- `str::parse` for an unsigned integer of `w` bits. -/
def parseUInt (w : ℕ) (text : String) : Except ParseIntError ℕ :=
  match text.toList with
  | [] => .error .empty
  | ['+'] | ['-'] => .error .invalidDigit
  | '+' :: ds => parseUnsignedDigits (2 ^ w) ds 0
  | ds => parseUnsignedDigits (2 ^ w) ds 0

theorem parseUnsignedDigits_lt {bound : ℕ} (hn : n < bound)
    (h : parseUnsignedDigits bound ds n = .ok r) : r < bound := by
  induction ds generalizing n with
  | nil =>
    cases h
    exact hn
  | cons c cs ih =>
    simp only [parseUnsignedDigits] at h
    split_ifs at h with hdigit hfits
    exact ih hfits h

theorem parseUInt_lt {w : ℕ} {text : String} (h : parseUInt w text = .ok r) : r < 2 ^ w := by
  unfold parseUInt at h
  split at h
  · cases h
  · cases h
  · cases h
  · exact parseUnsignedDigits_lt (Nat.two_pow_pos w) h
  · exact parseUnsignedDigits_lt (Nat.two_pow_pos w) h

theorem le_of_parseDigits (h : parseDigits ds n = some r) : n ≤ r := by
  induction ds generalizing n with
  | nil => exact (Option.some.inj h).le
  | cons c cs ih =>
    rw [parseDigits] at h
    split_ifs at h
    have hle := ih h
    omega

/-- A number that fits is read, and another is too large. -/
theorem parseUnsignedDigits_eq {bound : ℕ} (hn : n < bound)
    (h : parseDigits ds n = some r) :
    parseUnsignedDigits bound ds n = if r < bound then .ok r else .error .posOverflow := by
  induction ds generalizing n with
  | nil =>
    cases h
    rw [if_pos hn]
    rfl
  | cons c cs ih =>
    rw [parseDigits] at h
    split_ifs at h with hdigit
    rw [parseUnsignedDigits, if_pos hdigit]
    dsimp only
    split_ifs with hfits hr hr
    · rw [ih hfits h, if_pos hr]
    · rw [ih hfits h, if_neg hr]
    · exact absurd ((le_of_parseDigits h).trans_lt hr) hfits
    · rfl

/-- **What was written is read as the number**, if it fits. -/
theorem parseUInt_padded (w width n : ℕ) : parseUInt w (String.ofList (padded width n)) =
    if n < 2 ^ w then .ok n else .error .posOverflow := by
  have hdigits := parseUnsignedDigits_eq (Nat.two_pow_pos w) (parseDigits_padded width n)
  have hdigit : ∀ c ∈ padded width n, c.isDigit := fun c hc => isDigit_of_mem_padded hc
  have hne : padded width n ≠ [] := append_ne_nil_of_right_ne_nil _ Nat.toDigits_ne_nil
  rw [parseUInt, String.toList_ofList]
  generalize padded width n = ds at *
  split
  · exact absurd rfl hne
  · exact absurd (hdigit '+' mem_cons_self) (by decide)
  · exact absurd (hdigit '-' mem_cons_self) (by decide)
  · exact absurd (hdigit '+' mem_cons_self) (by decide)
  · exact hdigits

/-- The digits of a positive or of a negative number, read up to the first that is none or with
which the number no longer fits. -/
def parseSignedDigits (w : ℕ) (negative : Bool) : List Char → SInt w → Except ParseIntError (SInt w)
  | [], n => .ok n
  | c :: cs, n =>
    if c.isDigit then
      let digit : ℤ := (c.toNat - '0'.toNat : ℕ)
      let next : ℤ := if negative then 10 * n - digit else 10 * n + digit
      if h : InRange w next then parseSignedDigits w negative cs ⟨next, h⟩
      else .error (if negative then .negOverflow else .posOverflow)
    else .error .invalidDigit

/-- `str::parse` for a signed integer of `w + 1` bits. -/
def parseSigned (w : ℕ) (text : String) : Except ParseIntError (SInt w) :=
  match text.toList with
  | [] => .error .empty
  | ['+'] | ['-'] => .error .invalidDigit
  | '+' :: ds => parseSignedDigits w false ds 0
  | '-' :: ds => parseSignedDigits w true ds 0
  | ds => parseSignedDigits w false ds 0

example : (parseSigned 63 "-9223372036854775808").toOption.map Subtype.val =
    some (-2 ^ 63) := by decide +kernel

end UsageDb.Lib
