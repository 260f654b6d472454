import UsageDb.Lib.Word
import Mathlib.Algebra.Order.BigOperators.Group.List

/-!
# Saturating sums

A sum that is taken with `saturating_add` is the exact sum, cut to the range once, as long as it
moves in one direction or stays inside the range (`satSum_of_balanced`). Then it depends neither on
the order of the summands nor on how they are put together to partial sums (`satSum_blocks`).
Otherwise it depends on the order: adding what is positive first gives less than adding what is
negative first (`satSum_order_of_not_balanced`). -/

namespace UsageDb.Lib.SInt

open List

variable {w : ℕ} {l l' : List (SInt w)}

/-- The value of range `w` that is nearest to `x`. -/
def clamp (w : ℕ) (x : ℤ) : ℤ := max (-2 ^ w) (min (2 ^ w - 1) x)

theorem satAdd_eq_clamp (a b : SInt w) : (satAdd a b : ℤ) = clamp w (a + b) := rfl

/-- The numbers of a list added to `a`. -/
def satAddAll (a : SInt w) (l : List (SInt w)) : SInt w := l.foldl satAdd a

/-- The saturating sum of a list. -/
def satSum (l : List (SInt w)) : SInt w := satAddAll 0 l

/-- The exact sum. -/
def total (l : List (SInt w)) : ℤ := (l.map fun x : SInt w => (x : ℤ)).sum

/-- The sum of the positive numbers of a list. -/
def gains (l : List (SInt w)) : ℤ := (l.map fun x : SInt w => max (x : ℤ) 0).sum

/-- The sum of its negative numbers, without the sign. -/
def losses (l : List (SInt w)) : ℤ := (l.map fun x : SInt w => max (-(x : ℤ)) 0).sum

/-- Gains and losses both fit, or there are only gains, or only losses. -/
def Balanced (l : List (SInt w)) : Prop :=
  (gains l ≤ 2 ^ w - 1 ∧ losses l ≤ 2 ^ w) ∨ losses l = 0 ∨ gains l = 0

theorem satAddAll_cons (a x : SInt w) (l : List (SInt w)) :
    satAddAll a (x :: l) = satAddAll (satAdd a x) l := rfl

theorem satAddAll_append (a : SInt w) (l l' : List (SInt w)) :
    satAddAll a (l ++ l') = satAddAll (satAddAll a l) l' := foldl_append

@[simp] theorem total_cons (x : SInt w) (l : List (SInt w)) : total (x :: l) = x + total l := by
  simp [total]

@[simp] theorem gains_cons (x : SInt w) (l : List (SInt w)) : gains (x :: l) = max (x : ℤ) 0 +
    gains l := by simp [gains]

@[simp] theorem losses_cons (x : SInt w) (l : List (SInt w)) : losses (x :: l) = max (-(x : ℤ)) 0 +
    losses l := by
  simp [losses]

@[simp] theorem total_append (l l' : List (SInt w)) : total (l ++ l') = total l +
    total l' := by simp [total]

@[simp] theorem gains_append (l l' : List (SInt w)) : gains (l ++ l') = gains l +
    gains l' := by simp [gains]

@[simp] theorem losses_append (l l' : List (SInt w)) : losses (l ++ l') = losses l +
    losses l' := by simp [losses]

theorem total_eq (l : List (SInt w)) : total l = gains l - losses l := by
  induction l with
  | nil => rfl
  | cons x l ih =>
    rw [total_cons, gains_cons, losses_cons, ih]
    omega

theorem gains_nonneg (l : List (SInt w)) : 0 ≤ gains l := by
  refine sum_nonneg fun y hy => ?_
  obtain ⟨x, -, rfl⟩ := mem_map.1 hy
  exact le_max_right _ _

theorem losses_nonneg (l : List (SInt w)) : 0 ≤ losses l := by
  refine sum_nonneg fun y hy => ?_
  obtain ⟨x, -, rfl⟩ := mem_map.1 hy
  exact le_max_right _ _

theorem total_perm (h : l.Perm l') : total l = total l' := (h.map _).sum_eq

theorem gains_perm (h : l.Perm l') : gains l = gains l' := (h.map _).sum_eq

theorem losses_perm (h : l.Perm l') : losses l = losses l' := (h.map _).sum_eq

theorem Balanced.perm (h : Balanced l) (hperm : l.Perm l') : Balanced l' := by
  rwa [Balanced, ← gains_perm hperm, ← losses_perm hperm]

instance (l : List (SInt w)) : Decidable (Balanced l) := inferInstanceAs (Decidable (_ ∨ _ ∨ _))

/-! ### Folds -/

/-- Nothing saturates while start, gains and losses stay inside the range. -/
theorem satAddAll_of_fits (l : List (SInt w)) {a : SInt w} (hlo : -2 ^ w ≤ (a : ℤ) - losses l)
    (hhi : (a : ℤ) + gains l ≤ 2 ^ w - 1) : (satAddAll a l : ℤ) = a + total l := by
  induction l generalizing a with
  | nil => simp [total, satAddAll]
  | cons x l ih =>
    have hg := gains_nonneg l
    have hl := losses_nonneg l
    rw [gains_cons] at hhi
    rw [losses_cons] at hlo
    have hstep : (satAdd a x : ℤ) = a + x := satAdd_val ⟨by omega, by omega⟩
    rw [satAddAll_cons, ih (by omega) (by omega), hstep, total_cons]
    omega

/-- In one direction, a sum is cut once. -/
theorem satAddAll_of_oneSign (a : SInt w) (h : losses l = 0 ∨ gains l = 0) :
    (satAddAll a l : ℤ) = clamp w (a + total l) := by
  induction l generalizing a with
  | nil =>
    have ha := a.property
    simp only [InRange] at ha
    simp only [satAddAll, foldl_nil, total, map_nil, sum_nil, clamp]
    omega
  | cons x l ih =>
    have hg := gains_nonneg l
    have hl := losses_nonneg l
    have hpos : (0 : ℤ) < 2 ^ w := by positivity
    have hsum := total_eq l
    have ha := a.property
    simp only [InRange] at ha
    simp only [losses_cons, gains_cons] at h
    rw [satAddAll_cons, ih _ (by omega), total_cons, satAdd_eq_clamp]
    simp only [clamp]
    omega

/-- **A balanced sum is the exact sum, cut to the range.** -/
theorem satSum_of_balanced (h : Balanced l) : (satSum l : ℤ) = clamp w (total l) := by
  have hg := gains_nonneg l
  have hl := losses_nonneg l
  rcases h with ⟨hhi, hlo⟩ | hone
  · have hsum := total_eq l
    rw [satSum, satAddAll_of_fits l (by rw [val_zero]; omega) (by rw [val_zero]; omega),
      val_zero, clamp]
    omega
  · rw [satSum, satAddAll_of_oneSign 0 hone, val_zero, zero_add]

/-! ### Partial sums -/

theorem gains_satSum_le (l : List (SInt w)) (h : gains l ≤ 2 ^ w - 1 ∧ losses l ≤ 2 ^ w) :
    max (satSum l : ℤ) 0 ≤ gains l ∧ max (-(satSum l : ℤ)) 0 ≤ losses l ∧ (satSum l : ℤ) = total l := by
  have hg := gains_nonneg l
  have hl := losses_nonneg l
  have hsum := total_eq l
  have hsat : (satSum l : ℤ) = total l := by
    rw [satSum, satAddAll_of_fits l (by rw [val_zero]; omega) (by rw [val_zero]; omega),
      val_zero, zero_add]
  refine ⟨?_, ?_, hsat⟩ <;> omega

/-- In one direction it does not matter whether summands come one by one or as partial sums. -/
theorem satAddAll_map_satSum (blocks : List (List (SInt w))) {a : SInt w}
    (h : 0 ≤ (a : ℤ) ∧ losses blocks.flatten = 0 ∨ (a : ℤ) ≤ 0 ∧ gains blocks.flatten = 0) :
    satAddAll a (blocks.map satSum) = satAddAll a blocks.flatten := by
  induction blocks generalizing a with
  | nil => rfl
  | cons b blocks ih =>
    have hg := gains_nonneg b
    have hl := losses_nonneg b
    have hg' := gains_nonneg blocks.flatten
    have hl' := losses_nonneg blocks.flatten
    have hpos : (0 : ℤ) < 2 ^ w := by positivity
    have hsum := total_eq b
    simp only [flatten_cons, losses_append, gains_append] at h
    have hblock : (satSum b : ℤ) = clamp w (total b) := satSum_of_balanced (.inr (by omega))
    have hstep : satAdd a (satSum b) = satAddAll a b := by
      refine Subtype.ext ?_
      rw [satAddAll_of_oneSign a (by omega), satAdd_eq_clamp, hblock]
      simp only [clamp]
      omega
    rw [map_cons, satAddAll_cons, flatten_cons, satAddAll_append, ← hstep]
    refine ih ?_
    simp only [satAdd_eq_clamp, hblock, clamp]
    omega

/-- Partial sums that fit have no larger gains and losses than their summands, and the same
total. -/
theorem totals_map_satSum (blocks : List (List (SInt w))) (h : gains blocks.flatten ≤ 2 ^ w - 1 ∧
    losses blocks.flatten ≤ 2 ^ w) :
    gains (blocks.map satSum) ≤ gains blocks.flatten ∧ losses (blocks.map satSum) ≤
      losses blocks.flatten ∧ total (blocks.map satSum) = total blocks.flatten := by
  induction blocks with
  | nil => exact ⟨le_rfl, le_rfl, rfl⟩
  | cons b blocks ih =>
    simp only [flatten_cons, gains_append, losses_append] at h
    have hg := gains_nonneg blocks.flatten
    have hl := losses_nonneg blocks.flatten
    have hg' := gains_nonneg b
    have hl' := losses_nonneg b
    obtain ⟨ihg, ihl, iht⟩ := ih ⟨by omega, by omega⟩
    obtain ⟨hbg, hbl, hbt⟩ := gains_satSum_le b ⟨by omega, by omega⟩
    simp only [map_cons, flatten_cons, gains_cons, losses_cons, total_cons, gains_append,
      losses_append, total_append]
    exact ⟨by omega, by omega, by omega⟩

/-- **Partial sums do not matter** to a balanced sum. -/
theorem satSum_blocks {blocks : List (List (SInt w))} (h : Balanced blocks.flatten) :
    satSum (blocks.map satSum) = satSum blocks.flatten := by
  rcases h with hfits | hone
  · obtain ⟨hg, hl, ht⟩ := totals_map_satSum blocks hfits
    refine Subtype.ext ?_
    rw [satSum_of_balanced (.inl ⟨by omega, by omega⟩), satSum_of_balanced (.inl hfits), ht]
  · exact satAddAll_map_satSum blocks (hone.imp (fun h => ⟨le_rfl, h⟩) fun h => ⟨le_rfl, h⟩)

/-! ### Where the order matters -/

theorem totals_filter_nonneg (l : List (SInt w)) :
    total (l.filter fun x : SInt w => 0 ≤ (x : ℤ)) = gains l ∧
      losses (l.filter fun x : SInt w => 0 ≤ (x : ℤ)) = 0 := by
  induction l with
  | nil => exact ⟨rfl, rfl⟩
  | cons x l ih =>
    rw [filter_cons, gains_cons]
    split
    · rename_i hx
      rw [total_cons, losses_cons, ih.1, ih.2, max_eq_left (of_decide_eq_true hx)]
      have := of_decide_eq_true hx
      exact ⟨rfl, by omega⟩
    · rename_i hx
      have := of_decide_eq_false (Bool.not_eq_true _ ▸ hx)
      exact ⟨by omega, ih.2⟩

theorem totals_filter_neg (l : List (SInt w)) :
    total (l.filter fun x : SInt w => ¬ 0 ≤ (x : ℤ)) = -losses l ∧
      gains (l.filter fun x : SInt w => ¬ 0 ≤ (x : ℤ)) = 0 := by
  induction l with
  | nil => exact ⟨rfl, rfl⟩
  | cons x l ih =>
    rw [filter_cons, losses_cons]
    split
    · rename_i hx
      have := of_decide_eq_true hx
      rw [total_cons, gains_cons, ih.1, ih.2]
      exact ⟨by omega, by omega⟩
    · rename_i hx
      have := of_decide_eq_false (Bool.not_eq_true _ ▸ hx)
      exact ⟨by omega, ih.2⟩

/-- **Without balance the order matters**: the gains first, or the losses first. -/
theorem satSum_order_of_not_balanced (h : ¬ Balanced l) :
    satSum (l.filter (fun x : SInt w => 0 ≤ (x : ℤ)) ++ l.filter fun x : SInt w => ¬ 0 ≤ (x : ℤ)) ≠
      satSum
        (l.filter (fun x : SInt w => ¬ 0 ≤ (x : ℤ)) ++ l.filter fun x : SInt w => 0 ≤ (x : ℤ)) := by
  obtain ⟨hgain, hnoloss⟩ := totals_filter_nonneg l
  obtain ⟨hloss, hnogain⟩ := totals_filter_neg l
  have hg := gains_nonneg l
  have hl := losses_nonneg l
  have hpos : (0 : ℤ) < 2 ^ w := by positivity
  simp only [Balanced, not_or, not_and_or, not_le] at h
  intro heq
  have hval := congrArg (fun x : SInt w => (x : ℤ)) heq
  simp only [satSum, satAddAll_append] at hval
  rw [satAddAll_of_oneSign _ (.inr hnogain), satAddAll_of_oneSign _ (.inl hnoloss),
    satAddAll_of_oneSign _ (.inl hnoloss),
    satAddAll_of_oneSign _ (.inr hnogain), hgain, hloss] at hval
  simp only [clamp, val_zero] at hval
  omega

end UsageDb.Lib.SInt
