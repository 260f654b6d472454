import Mathlib.Data.List.Basic

/-!
# Text cut into lines

A text is cut at a separator into its complete lines and the unfinished line after the last
separator. When one text is written after another, the unfinished line of the first is
continued by the first line of the second (`cut_append`); if there is none, the lines of the
two stand side by side (`cut_append_of_ended`).
-/

namespace UsageDb.Lib

universe u

variable {α : Type u}

/-- A text cut into lines. -/
structure Cut (α : Type u) where
  /-- The complete lines, without their separators. -/
  lines : List (List α)
  /-- What follows the last separator. -/
  rest : List α

/-- The first line, complete or not, is continued to the left. -/
def Cut.glue (l : List α) : Cut α → Cut α
  | ⟨[], r⟩ => ⟨[], l ++ r⟩
  | ⟨x :: xs, r⟩ => ⟨(l ++ x) :: xs, r⟩

@[simp] theorem Cut.glue_nil (c : Cut α) : c.glue [] = c := by
  obtain ⟨_ | ⟨x, xs⟩, r⟩ := c <;> rfl

theorem Cut.glue_append (l m : List α) (c : Cut α) : c.glue (l ++ m) = (c.glue m).glue l := by
  obtain ⟨_ | ⟨x, xs⟩, r⟩ := c <;> simp [Cut.glue]

/-- A text that is empty or ends with a separator. -/
def Ended (sep : α) (b : List α) : Prop := ∀ x ∈ b.getLast?, x = sep

theorem Ended.append_singleton (sep : α) (b : List α) : Ended sep (b ++ [sep]) := by
  intro x hx
  rw [List.getLast?_append] at hx
  exact (Option.some.inj hx).symm

variable [DecidableEq α] {sep : α}

/-- The lines of a text. -/
def cut (sep : α) : List α → Cut α
  | [] => ⟨[], []⟩
  | x :: xs => if x = sep then ⟨[] :: (cut sep xs).lines, (cut sep xs).rest⟩ else (cut sep xs).glue [x]

@[simp] theorem cut_nil : cut sep [] = ⟨[], []⟩ := rfl

/-- **One text after another**: the line that the first leaves unfinished is continued. -/
theorem cut_append (b c : List α) :
    cut sep (b ++ c) = ⟨(cut sep b).lines ++ ((cut sep c).glue (cut sep b).rest).lines,
      ((cut sep c).glue (cut sep b).rest).rest⟩ := by
  induction b with
  | nil => simp
  | cons x b ih =>
    rw [List.cons_append, cut, cut]
    by_cases hx : x = sep
    · rw [if_pos hx, if_pos hx, ih]
      rfl
    · rw [if_neg hx, if_neg hx, ih]
      -- the first line of `b ++ c` is that of `b`, unless `b` has only an unfinished one
      obtain ⟨_ | ⟨l, ls⟩, r⟩ := cut sep b
      · exact (Cut.glue_append [x] r (cut sep c)).symm
      · rfl

/-- A text without separator is one unfinished line. -/
theorem cut_of_not_mem {t : List α} (h : sep ∉ t) : cut sep t = ⟨[], t⟩ := by
  induction t with
  | nil => rfl
  | cons x t ih =>
    rw [List.mem_cons, not_or] at h
    rw [cut, if_neg (Ne.symm h.1), ih h.2]
    rfl

instance (b : List α) : Decidable (Ended sep b) :=
  match h : b.getLast? with
  | none => .isTrue fun x hx => by rw [h] at hx; cases hx
  | some y =>
    if hy : y = sep then .isTrue fun x hx => by rw [h] at hx; exact (Option.some.inj hx).symm.trans hy
    else .isFalse fun hall => hy (hall y h)

/-- Such a text leaves no line unfinished. -/
theorem Ended.rest_eq_nil {b : List α} (h : Ended sep b) : (cut sep b).rest = [] := by
  rcases List.eq_nil_or_concat b with rfl | ⟨b', x, rfl⟩
  · rfl
  · obtain rfl : x = sep := h x (by simp)
    rw [List.concat_eq_append, cut_append]
    have hone : cut x [x] = ⟨[[]], []⟩ := by simp [cut]
    rw [hone]
    rfl

/-- What is written after an ended text does not touch its lines. -/
theorem cut_append_of_ended {b : List α} (h : Ended sep b) (c : List α) :
    cut sep (b ++ c) = ⟨(cut sep b).lines ++ (cut sep c).lines, (cut sep c).rest⟩ := by
  rw [cut_append, h.rest_eq_nil, Cut.glue_nil]

/-- A line and its separator. -/
theorem cut_line {t : List α} (h : sep ∉ t) : cut sep (t ++ [sep]) = ⟨[t], []⟩ := by
  have hone : cut sep [sep] = ⟨[[]], []⟩ := by simp [cut]
  rw [cut_append, cut_of_not_mem h, hone]
  simp [Cut.glue]

end UsageDb.Lib
