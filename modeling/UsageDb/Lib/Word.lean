import Mathlib.Data.Int.Order.Basic
import Mathlib.Data.List.Basic
import Mathlib.Tactic.Linarith

/-!
# Fixed-width integers

Signed machine integers as the integers of their range, with the two ways a
sum can be kept inside it: wrapping (`wrap`) and saturating (`satAdd`), and the
little-endian bytes of a natural number.

A value of `SInt w` carries the proof that it fits in `w + 1` bits, so no later
statement has to say so again.
-/

namespace UsageDb.Lib

/-- The integer fits in `w + 1` bits, two's complement. -/
def InRange (w : ℕ) (x : ℤ) : Prop := -2 ^ w ≤ x ∧ x < 2 ^ w

instance (w : ℕ) (x : ℤ) : Decidable (InRange w x) := inferInstanceAs (Decidable (_ ∧ _))

/-- The signed integers of `w + 1` bits. -/
abbrev SInt (w : ℕ) := {x : ℤ // InRange w x}

/-- `i64`. -/
abbrev I64 := SInt 63

/-- `i128`. -/
abbrev I128 := SInt 127

namespace SInt

variable {w : ℕ}

instance : DecidableLT (SInt w) := fun x y => inferInstanceAs (Decidable ((x : ℤ) < y))

instance : DecidableLE (SInt w) := fun x y => inferInstanceAs (Decidable ((x : ℤ) ≤ y))

/-- The value of range `w` that is `x` modulo `2 ^ (w + 1)`. -/
def wrap (w : ℕ) (x : ℤ) : SInt w :=
  ⟨(x + 2 ^ w) % 2 ^ (w + 1) - 2 ^ w, by
    have hpos : (0 : ℤ) < 2 ^ w := by positivity
    have h0 := Int.emod_nonneg (x + 2 ^ w) (show (2 : ℤ) ^ (w + 1) ≠ 0 by positivity)
    have h1 := Int.emod_lt_of_pos (x + 2 ^ w) (show (0 : ℤ) < 2 ^ (w + 1) by positivity)
    rw [pow_succ] at h0 h1 ⊢
    constructor <;> omega⟩

theorem wrap_val (x : SInt w) : wrap w x = x := by
  obtain ⟨x, hlo, hhi⟩ := x
  apply Subtype.ext
  have hmod : (x + 2 ^ w) % 2 ^ (w + 1) = x + 2 ^ w := by
    apply Int.emod_eq_of_lt
    · omega
    · rw [pow_succ]; omega
  simp only [wrap, hmod]
  omega

/-- An integer that fits wraps to itself. -/
theorem wrap_of_inRange {x : ℤ} (h : InRange w x) : (wrap w x : ℤ) = x :=
  congrArg Subtype.val (wrap_val ⟨x, h⟩)

/-- Two integers that agree modulo `2 ^ (w + 1)` wrap to the same value. -/
theorem wrap_congr {x y : ℤ} (h : x % 2 ^ (w + 1) = y % 2 ^ (w + 1)) : wrap w x = wrap w y := by
  apply Subtype.ext
  simp only [wrap]
  rw [Int.add_emod x, Int.add_emod y, h]

theorem wrap_emod (x : ℤ) : ((wrap w x : SInt w) : ℤ) % 2 ^ (w + 1) = x % 2 ^ (w + 1) := by
  simp only [wrap]
  rw [Int.sub_emod, Int.emod_emod_of_dvd _ dvd_rfl, ← Int.sub_emod]
  congr 1
  omega

/-- An integer wraps to `y` when `y` is in range and differs from it by a multiple of `2 ^ (w +
1)`. -/
theorem wrap_eq_iff {x y : ℤ} : (wrap w x : ℤ) = y ↔ InRange w y ∧ 2 ^ (w + 1) ∣ y - x := by
  constructor
  · rintro rfl
    exact ⟨(wrap w x).2,
      Int.dvd_of_emod_eq_zero (Int.emod_eq_emod_iff_emod_sub_eq_zero.1 (wrap_emod x))⟩
  · rintro ⟨hin, hdvd⟩
    have hmod := Int.emod_eq_emod_iff_emod_sub_eq_zero.2 (Int.emod_eq_zero_of_dvd hdvd)
    rw [wrap_congr hmod.symm]
    exact wrap_of_inRange hin

/-- Wrapping difference then wrapping sum gives the value back. -/
theorem wrap_add_wrap_sub (v p : SInt w) : wrap w (p + wrap w (v - p)) = v := by
  rw [wrap_congr (y := (v : ℤ)), wrap_val]
  rw [Int.add_emod, wrap_emod, ← Int.add_emod]
  congr 1
  omega

instance : Zero (SInt w) := ⟨⟨0, by constructor <;> simp⟩⟩

@[simp] theorem val_zero : ((0 : SInt w) : ℤ) = 0 := rfl

/-- `saturating_add`. -/
def satAdd (a b : SInt w) : SInt w :=
  ⟨max (-2 ^ w) (min (2 ^ w - 1) (a + b)), by
    have hpos : (0 : ℤ) < 2 ^ w := by positivity
    constructor <;> omega⟩

/-- Saturation does nothing to a sum that fits. -/
theorem satAdd_val {a b : SInt w} (h : InRange w ((a : ℤ) + b)) : (satAdd a b : ℤ) = a + b := by
  obtain ⟨hlo, hhi⟩ := h
  simp only [satAdd]
  omega

end SInt

/-! ### Little-endian bytes -/

/-- A string of bytes. -/
abbrev Bytes := List UInt8

/-- The `n` low bytes of `x`, least significant first. -/
def leBytes : ℕ → ℕ → Bytes
  | 0, _ => []
  | n + 1, x => UInt8.ofNat x :: leBytes n (x / 256)

/-- The number a string of bytes writes, least significant byte first. -/
def ofLe : Bytes → ℕ
  | [] => 0
  | b :: bs => b.toNat + 256 * ofLe bs

@[simp] theorem length_leBytes (n x : ℕ) : (leBytes n x).length = n := by
  induction n generalizing x with
  | zero => rfl
  | succ n ih => simp [leBytes, ih]

theorem ofLe_leBytes (n x : ℕ) : ofLe (leBytes n x) = x % 256 ^ n := by
  induction n generalizing x with
  | zero => simp [leBytes, ofLe, Nat.mod_one]
  | succ n ih =>
    have hbyte : (UInt8.ofNat x).toNat = x % 256 := by simp
    rw [leBytes, ofLe, ih, hbyte, pow_succ 256, Nat.mul_comm (256 ^ n), Nat.mod_mul]

/-- Bytes enough for the number give it back. -/
theorem ofLe_leBytes_of_lt {n x : ℕ} (h : x < 256 ^ n) : ofLe (leBytes n x) = x := by
  rw [ofLe_leBytes, Nat.mod_eq_of_lt h]

theorem ofLe_lt (bs : Bytes) : ofLe bs < 256 ^ bs.length := by
  induction bs with
  | nil => decide
  | cons b bs ih =>
    have hb := b.toNat_lt
    rw [ofLe, List.length_cons, pow_succ]
    omega

end UsageDb.Lib
