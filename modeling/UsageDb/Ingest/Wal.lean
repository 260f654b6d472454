import UsageDb.Model.Event
import Mathlib.Data.List.Sort

/-!
# The directory of the write-ahead log

`src/ingest/wal.rs`, the part that is about files and not about their contents: the
log is a directory of numbered files, of which the last is appended to. A file of
content type `α` is a pair of its number and its content; the name `wal-NNNNNN.log`
is its number.

Nothing here looks into the files. `Ingest.WalFile` reads them as bytes, and the
runtime keeps the events they decode to.
-/

namespace UsageDb

open List

universe u

variable {α : Type u}

/-- The files of the log's directory, each with its id. -/
abbrev WalDir (α : Type u) := List (ℕ × α)

namespace WalDir

variable {id : ℕ}

/-- The ids of the files. -/
def ids (dir : WalDir α) : List ℕ := dir.map (·.1)

/-- `Wal::list_files_after`: the ids above the seal, ascending. -/
def listFilesAfter (dir : WalDir α) (lastSealedId : ℕ) : List ℕ :=
  (dir.ids.filter fun id => lastSealedId < id).insertionSort (· ≤ ·)

/-- `Wal::delete_files_through`. -/
def deleteFilesThrough (dir : WalDir α) (upToId : ℕ) : WalDir α := dir.filter fun f => ¬ f.1 ≤ upToId

/-- The file `Wal::open` makes active: the highest above the seal, or a new one after it. -/
def openId (dir : WalDir α) (lastSealedId : ℕ) : ℕ :=
  ((dir.ids.filter fun id => lastSealedId < id).foldl
    (fun h id => some (h.elim id (max id))) none).getD (lastSealedId + 1)

/-- The content of a file. -/
def read (dir : WalDir α) (id : ℕ) : Option α := (dir.find? fun f => f.1 = id).map (·.2)

/-- `OpenOptions::create(true).append(true)`: a file that is there stays as it is. -/
def create (dir : WalDir α) (id : ℕ) (empty : α) : WalDir α :=
  if id ∈ dir.ids then dir else dir ++ [(id, empty)]

/-- Change the content of a file. -/
def modify (dir : WalDir α) (id : ℕ) (f : α → α) : WalDir α :=
  dir.map fun x => if x.1 = id then (x.1, f x.2) else x

/-- The files are in the order of their ids, each id once. -/
def Sorted (dir : WalDir α) : Prop := dir.ids.Pairwise (· < ·)

/-- The files above the seal. -/
def after (dir : WalDir α) (lastSealedId : ℕ) : WalDir α := dir.filter fun f => lastSealedId < f.1

/-! ### The operations on a sorted directory -/

variable {dir : WalDir α}

@[simp] theorem ids_append (dir dir' : WalDir α) : ids (dir ++ dir') = ids dir ++ ids dir' := by
  simp [ids]

@[simp] theorem ids_modify (id : ℕ) (f : α → α) : (dir.modify id f).ids = dir.ids := by
  simp only [ids, modify, map_map]
  refine map_congr_left fun x _ => ?_
  simp only [Function.comp]
  split <;> rfl

theorem ids_filter (p : ℕ → Bool) : ids (dir.filter fun f => p f.1) = dir.ids.filter p := by
  simp [ids, filter_map, Function.comp_def]

theorem ids_after (s : ℕ) : (dir.after s).ids = dir.ids.filter fun id => s < id :=
  ids_filter fun id => decide (s < id)

theorem Sorted.after (h : dir.Sorted) (s : ℕ) : (dir.after s).Sorted := by
  rw [Sorted, ids_after]
  exact h.filter _

theorem Sorted.modify (h : dir.Sorted) (id : ℕ) (f : α → α) : (dir.modify id f).Sorted := by
  rw [Sorted, ids_modify]
  exact h

/-- Deleting files below the seal does not change what is above it. -/
theorem after_filter {p : ℕ → Bool} {s : ℕ} (h : ∀ id, s < id → p id) :
    after (dir.filter fun f => p f.1) s = dir.after s := by
  rw [after, after, filter_filter]
  refine filter_congr fun f _ => ?_
  by_cases hf : s < f.1
  · simp [h f.1 hf]
  · simp [hf]

/-- In a sorted directory the files are listed in their own order. -/
theorem listFilesAfter_eq (h : dir.Sorted) (s : ℕ) : dir.listFilesAfter s = (dir.after s).ids := by
  have hle : (dir.after s).ids.Pairwise (· ≤ ·) := (h.after s).imp Nat.le_of_lt
  rw [listFilesAfter, ← ids_after]
  exact hle.insertionSort_eq

theorem read_of_mem (h : dir.Sorted) {f : ℕ × α} (hf : f ∈ dir) : dir.read f.1 = some f.2 := by
  induction dir with
  | nil => simp at hf
  | cons g dir ih =>
    rw [Sorted, ids, map_cons, pairwise_cons] at h
    rcases mem_cons.1 hf with rfl | hf'
    · simp [read]
    · have hne : g.1 ≠ f.1 := (h.1 f.1 (mem_map_of_mem hf')).ne
      have := ih h.2 hf'
      rw [read] at this ⊢
      rw [List.find?_cons_of_neg (by simpa using hne)]
      exact this

/-- A file after all others. -/
theorem create_of_forall_lt (hid : ∀ i ∈ dir.ids, i < id) (x : α) :
    dir.create id x = dir ++ [(id, x)] := by
  rw [create, if_neg]
  intro hmem
  exact absurd (hid id hmem) (lt_irrefl id)

theorem Sorted.append_singleton (h : dir.Sorted) (hid : ∀ i ∈ dir.ids, i < id) (x : α) :
    Sorted (dir ++ [(id, x)]) := by
  rw [Sorted, ids_append, pairwise_append]
  refine ⟨h, by simp [ids], ?_⟩
  intro i hi j hj
  simp only [ids, map_cons, map_nil, mem_singleton] at hj
  exact hj ▸ hid i hi

private theorem foldl_max_eq {l : List ℕ} (h : l.Pairwise (· < ·)) (a : ℕ) (ha : ∀ i ∈ l, a < i) :
    l.foldl (fun h id => some (h.elim id (max id))) (some a) = some ((a :: l).getLast (by simp)) := by
  induction l generalizing a with
  | nil => rfl
  | cons b l ih =>
    rw [pairwise_cons] at h
    have hab : a < b := ha b (by simp)
    rw [foldl_cons, getLast_cons (by simp)]
    simp only [Option.elim, max_eq_left hab.le]
    exact ih h.2 b fun i hi => h.1 i hi

/-- `open` in a sorted directory appends to its last file above the seal. -/
theorem openId_eq (h : dir.Sorted) (s : ℕ) :
    dir.openId s = (dir.after s).ids.getLast?.getD (s + 1) := by
  have hsorted := h.after s
  rw [openId, ← ids_after]
  rw [Sorted] at hsorted
  cases hids : (dir.after s).ids with
  | nil => rfl
  | cons a l =>
    rw [hids, pairwise_cons] at hsorted
    rw [foldl_cons, List.getLast?_eq_some_getLast (by simp), Option.elim_none,
      foldl_max_eq hsorted.2 a hsorted.1]

theorem lt_openId (h : dir.Sorted) (s : ℕ) : s < dir.openId s := by
  rw [openId_eq h]
  cases hl : (dir.after s).ids.getLast? with
  | none => exact Nat.lt_succ_self s
  | some a =>
    have := mem_of_getLast? hl
    rw [ids_after] at this
    simpa using (mem_filter.1 this).2

/-! ### Stretches of the log -/

section Slice

variable {β : Type u} {log : WalDir (List β)} {lo mid hi : ℕ}

/-- What the files from `lo` (not included) to `hi` hold, in order. -/
def slice (log : WalDir (List β)) (lo hi : ℕ) : List β :=
  (log.filter fun f => lo < f.1 && f.1 ≤ hi).flatMap (·.2)

/-- Two stretches that meet are one. -/
theorem slice_append (h : log.Sorted) (hlo : lo ≤ mid) (hhi : mid ≤ hi) :
    log.slice lo hi = log.slice lo mid ++ log.slice mid hi := by
  have hsplit : (log.filter fun f => lo < f.1 && f.1 ≤ hi) =
      (log.filter fun f => lo < f.1 && f.1 ≤ mid) ++ log.filter fun f => mid < f.1 && f.1 ≤ hi := by
    induction log with
    | nil => rfl
    | cons f log ih =>
      rw [Sorted, ids, map_cons, pairwise_cons] at h
      have ih := ih h.2
      by_cases hf : f.1 ≤ mid
      · have hnot : (decide (mid < f.1) && decide (f.1 ≤ hi)) = false := by simp [hf]
        have hsame : (decide (lo < f.1) && decide (f.1 ≤ hi)) =
            (decide (lo < f.1) && decide (f.1 ≤ mid)) := by
          simp [hf, hf.trans hhi]
        rw [filter_cons, filter_cons, filter_cons, hnot, hsame, ih]
        split <;> simp
      · -- from here on every file is above `mid`
        have hnone : (log.filter fun g => lo < g.1 && g.1 ≤ mid) = [] := by
          rw [filter_eq_nil_iff]
          intro g hg hin
          have := h.1 g.1 (mem_map_of_mem hg)
          simp only [Bool.and_eq_true, decide_eq_true_eq] at hin
          omega
        have hnot : (decide (lo < f.1) && decide (f.1 ≤ mid)) = false := by simp [hf]
        have hsame : (decide (lo < f.1) && decide (f.1 ≤ hi)) =
            (decide (mid < f.1) && decide (f.1 ≤ hi)) := by
          have h1 : lo < f.1 := by omega
          have h2 : mid < f.1 := by omega
          simp [h1, h2]
        rw [filter_cons, filter_cons, filter_cons, hnot, hsame, ih, hnone]
        split <;> simp
  rw [slice, hsplit, flatMap_append]
  rfl

/-- The stretch to the last file is everything above `lo`. -/
theorem flatMap_after {hi : ℕ} (hlast : ∀ id ∈ log.ids, id ≤ hi) : (log.after lo).flatMap (·.2) =
    log.slice lo hi := by
  rw [after, slice]
  congr 1
  refine filter_congr fun f hf => ?_
  simp [hlast f.1 (mem_map_of_mem hf)]

/-- A stretch does not see a change to a file outside of it. -/
theorem slice_modify_of_lt (h : hi < id) (f : List β → List β) :
    (log.modify id f).slice lo hi = log.slice lo hi := by
  induction log with
  | nil => rfl
  | cons x log ih =>
    simp only [slice, modify, map_cons] at ih ⊢
    rw [filter_cons, filter_cons]
    by_cases hx : x.1 = id
    · have h1 : (decide (lo < x.1) && decide (x.1 ≤ hi)) = false := by
        have : ¬ x.1 ≤ hi := by omega
        simp [this]
      simp only [hx, if_true] at h1 ⊢
      rw [h1]
      simpa using ih
    · rw [if_neg hx]
      split <;> simp [ih]

/-- What is appended to the last file is at the end of the stretch to it. -/
theorem slice_modify_last (h : log.Sorted) (hid : id ∈ log.ids) (hlast : ∀ i ∈ log.ids, i ≤ id)
    (hlo : lo < id) (new : List β) :
    (log.modify id (· ++ new)).slice lo id = log.slice lo id ++ new := by
  induction log with
  | nil => simp [ids] at hid
  | cons x log ih =>
    rw [Sorted, ids, map_cons, pairwise_cons] at h
    by_cases hx : x.1 = id
    · -- the last file is the only one left
      have hnil : log = [] := by
        by_contra hne
        obtain ⟨y, ys, rfl⟩ := exists_cons_of_ne_nil hne
        have h1 := h.1 y.1 (by simp)
        have h2 := hlast y.1 (by simp [ids])
        omega
      subst hnil
      simp [slice, modify, hx, hlo]
    · have hid' : id ∈ ids log := by
        rw [ids, map_cons, mem_cons] at hid
        exact hid.resolve_left fun e => hx e.symm
      have ih := ih h.2 hid' fun i hi => hlast i (by rw [ids, map_cons]; exact mem_cons_of_mem _ hi)
      simp only [slice, modify, map_cons, if_neg hx] at ih ⊢
      rw [filter_cons, filter_cons]
      split
      · rw [flatMap_cons, flatMap_cons, ih, append_assoc]
      · exact ih

/-- A new empty file adds nothing. -/
theorem slice_append_empty (id : ℕ) : slice (log ++ [(id, [])]) lo hi = log.slice lo hi := by
  rw [slice, filter_append, flatMap_append, slice]
  by_cases h : lo < id && id ≤ hi <;> simp [h]

/-- Deleting files below a stretch does not touch it. -/
theorem slice_filter {p : ℕ → Bool} (h : ∀ id, lo < id → p id) :
    slice (log.filter fun f => p f.1) lo hi = log.slice lo hi := by
  rw [slice, slice, filter_filter]
  congr 1
  refine filter_congr fun f _ => ?_
  by_cases hf : lo < f.1
  · simp [h f.1 hf]
  · simp [hf]

end Slice

end WalDir

end UsageDb
