import UsageDb.Model.Event
import Mathlib.Data.Finset.Dedup
import Mathlib.Data.List.Sort
import Mathlib.Data.Prod.Lex

/-!
# The manifest

The record of what the database consists of (`src/storage/manifest.rs`): the raw
and rollup segments with their metadata, the replacements compaction has made, the
rollup watermark, the seal of the write-ahead log and the closed periods.

A successful `save` moves the generation on by one (`Manifest.saved`); `load` gives
the saved manifest back with that generation. How a save reaches the disk is not
modelled here: it is one step.
-/

namespace UsageDb

open Lib List

/-- `SegmentKind`. -/
inductive SegmentKind where
  /-- Events as they were accepted. -/
  | raw
  /-- Hourly aggregates. -/
  | rollup
  deriving DecidableEq, Repr

/-- `SegmentMeta`. -/
structure SegmentMeta where
  /-- `segment_id`: the file name without its extension. -/
  segmentId : String
  kind : SegmentKind
  minTimestampMs : ℤ
  maxTimestampMs : ℤ
  bucket : ℕ
  rowCount : ℕ
  minAccountId : Option String
  maxAccountId : Option String
  productIds : Finset String
  meterIds : Finset String
  modelIds : Finset String
  quantitySum : Option I128
  checksum : BitVec 64
  /-- `input_segment_ids`: the raw segments a rollup was made from. -/
  inputSegmentIds : List String
  deriving DecidableEq

/-- `ReplacementRecord`: a compaction that has been committed. -/
structure ReplacementRecord where
  /-- The segments it read. -/
  oldSegments : List String
  /-- The segments it wrote. -/
  newSegments : List String
  /-- When it was committed. -/
  committedAtMs : ℤ
  deriving DecidableEq

/-- `ClosedPeriod`: a month of an account that has been closed, with its totals. -/
structure ClosedPeriod where
  accountId : String
  /-- `year`, a `u16`. -/
  year : ℕ
  month : ℕ
  closedAtMs : ℤ
  frozenQuantity : Option I128
  frozenEventCount : Option ℕ
  watermarkAtCloseMs : Option ℤ
  deriving DecidableEq

/-- The period an entry closes. -/
def ClosedPeriod.IsFor (p : ClosedPeriod) (account : String) (year month : ℕ) : Prop :=
  p.accountId = account ∧ p.year = year ∧ p.month = month

instance (p : ClosedPeriod) (account : String) (year month : ℕ) :
    Decidable (p.IsFor account year month) := inferInstanceAs (Decidable (_ ∧ _))

/-- `Manifest`. -/
structure Manifest where
  dbVersion : ℕ := 0
  bucketCount : ℕ := 0
  rawSegments : List SegmentMeta := []
  rollupSegments : List SegmentMeta := []
  compactedReplacements : List ReplacementRecord := []
  /-- `watermarks.hourly_rollup_ms`: every hour before it has been rolled up. -/
  hourlyRollupMs : ℤ := 0
  /-- `last_sealed_wal_id`: the log files up to it are in committed segments. -/
  lastSealedWalId : ℕ := 0
  closedPeriods : List ClosedPeriod := []
  /-- `current_generation`: how many saves have succeeded. -/
  currentGeneration : ℕ := 0
  deriving DecidableEq

namespace Manifest

/-- The manifest after `save` has succeeded. -/
def saved (m : Manifest) : Manifest := { m with currentGeneration := m.currentGeneration + 1 }

/-- `bucket_count.max(1)`: the number of buckets the workers use. -/
def buckets (m : Manifest) : ℕ := max m.bucketCount 1

/-- The ids of the raw segments. -/
def rawIds (m : Manifest) : List String := m.rawSegments.map (·.segmentId)

@[simp] theorem saved_rawSegments (m : Manifest) : m.saved.rawSegments = m.rawSegments := rfl

@[simp] theorem saved_rollupSegments (m : Manifest) : m.saved.rollupSegments = m.rollupSegments := rfl

@[simp] theorem saved_compactedReplacements (m : Manifest) :
    m.saved.compactedReplacements = m.compactedReplacements := rfl

@[simp] theorem saved_hourlyRollupMs (m : Manifest) : m.saved.hourlyRollupMs = m.hourlyRollupMs := rfl

@[simp] theorem saved_lastSealedWalId (m : Manifest) :
    m.saved.lastSealedWalId = m.lastSealedWalId := rfl

@[simp] theorem saved_closedPeriods (m : Manifest) : m.saved.closedPeriods = m.closedPeriods := rfl

@[simp] theorem saved_bucketCount (m : Manifest) : m.saved.bucketCount = m.bucketCount := rfl

@[simp] theorem saved_buckets (m : Manifest) : m.saved.buckets = m.buckets := rfl

@[simp] theorem saved_rawIds (m : Manifest) : m.saved.rawIds = m.rawIds := rfl

end Manifest

/-! ### Metadata of a raw segment -/

/-- `(account_id, product_id, meter_id, model_id or "", timestamp_ms)`: what the canonical
billing order compares, in this order. -/
def UsageEvent.sortKey (e : UsageEvent) : String ×ₗ String ×ₗ String ×ₗ String ×ₗ ℤ :=
  toLex (e.accountId, toLex (e.productId, toLex (e.meterId,
    toLex (e.modelId.getD "", e.timestampMs))))

/-- `sort_events_canonical`: the stable sort into the canonical billing order. -/
def sortEventsCanonical (events : List UsageEvent) : List UsageEvent :=
  events.insertionSort fun a b => a.sortKey ≤ b.sortKey

theorem sortEventsCanonical_perm (events : List UsageEvent) :
    (sortEventsCanonical events).Perm events := perm_insertionSort _ _

/-- One step of the running bound on the account names: `x` replaces what is there when it
comes before it. -/
def bound {κ : Type*} (before : κ → κ → Prop) [DecidableRel before] (m : Option κ) (x : κ) : Option κ :=
  match m with
  | none => some x
  | some c => if before x c then some x else some c

/-- `build_segment_meta`. The checksum is the one the segment writer returned. -/
def buildSegmentMeta (segmentId : String) (batch : List UsageEvent) (bucket : ℕ)
    (checksum : BitVec 64) : SegmentMeta :=
  let minTs := batch.foldl (fun m e => if e.timestampMs < m then e.timestampMs else m) (2 ^ 63 - 1 : ℤ)
  let maxTs := batch.foldl (fun m e => if m < e.timestampMs then e.timestampMs else m) (-2 ^ 63 : ℤ)
  { segmentId
    kind := .raw
    minTimestampMs := if minTs = 2 ^ 63 - 1 then 0 else minTs
    maxTimestampMs := if maxTs = -2 ^ 63 then 0 else maxTs
    bucket
    rowCount := batch.length
    minAccountId := batch.foldl (fun m e => bound (· < ·) m e.accountId) none
    maxAccountId := batch.foldl (fun m e => bound (· > ·) m e.accountId) none
    productIds := (batch.map (·.productId)).toFinset
    meterIds := (batch.map (·.meterId)).toFinset
    modelIds := (batch.filterMap (·.modelId)).toFinset
    quantitySum := some (batch.foldl (fun q e => SInt.satAdd q e.quantity) 0)
    checksum
    inputSegmentIds := [] }

@[simp] theorem buildSegmentMeta_segmentId (id : String) (batch : List UsageEvent) (b : ℕ)
    (c : BitVec 64) : (buildSegmentMeta id batch b c).segmentId = id := rfl

@[simp] theorem buildSegmentMeta_bucket (id : String) (batch : List UsageEvent) (b : ℕ)
    (c : BitVec 64) : (buildSegmentMeta id batch b c).bucket = b := rfl

/-! ### The metadata bounds the rows -/

section Bounds

variable {κ : Type*} [LinearOrder κ] {α : Type*} (f : α → κ)

theorem foldl_min_le (l : List α) (m : κ) :
    l.foldl (fun m e => if f e < m then f e else m) m ≤ m ∧
      ∀ e ∈ l, l.foldl (fun m e => if f e < m then f e else m) m ≤ f e := by
  induction l generalizing m with
  | nil => simp
  | cons a l ih =>
    obtain ⟨hm, hl⟩ := ih (if f a < m then f a else m)
    rw [foldl_cons]
    have hstep : (if f a < m then f a else m) ≤ m ∧ (if f a < m then f a else m) ≤ f a := by
      split
      · rename_i h; exact ⟨h.le, le_rfl⟩
      · rename_i h; exact ⟨le_rfl, not_lt.1 h⟩
    refine ⟨hm.trans hstep.1, fun e he => ?_⟩
    rcases mem_cons.1 he with rfl | he
    · exact hm.trans hstep.2
    · exact hl e he

theorem le_foldl_min {b : κ} (l : List α) (m : κ) (hl : ∀ e ∈ l, b ≤ f e) (hm : b ≤ m) :
    b ≤ l.foldl (fun m e => if f e < m then f e else m) m := by
  induction l generalizing m with
  | nil => exact hm
  | cons a l ih =>
    rw [foldl_cons]
    refine ih _ (fun e he => hl e (by simp [he])) ?_
    split
    · exact hl a (by simp)
    · exact hm

/-- The optional minimum is at most every element. -/
theorem foldl_bound_le {l : List α} {o : Option κ} {c : κ}
    (h : l.foldl (fun m e => bound (· < ·) m (f e)) o = some c) :
    (∀ c', o = some c' → c ≤ c') ∧ ∀ e ∈ l, c ≤ f e := by
  induction l generalizing o with
  | nil =>
    obtain rfl : o = some c := h
    simp
  | cons a l ih =>
    rw [foldl_cons] at h
    obtain ⟨hc, hl⟩ := ih h
    have hstep : c ≤ f a ∧ ∀ c', o = some c' → c ≤ c' := by
      cases o with
      | none => exact ⟨hc _ rfl, by simp⟩
      | some c' =>
        simp only [bound] at hc
        split at hc
        · rename_i hlt
          exact ⟨hc _ rfl, fun _ he => (hc _ rfl).trans (Option.some.inj he ▸ hlt.le)⟩
        · rename_i hge
          exact ⟨(hc _ rfl).trans (not_lt.1 hge), fun _ he => Option.some.inj he ▸ hc _ rfl⟩
    refine ⟨hstep.2, fun e he => ?_⟩
    rcases mem_cons.1 he with rfl | he
    · exact hstep.1
    · exact hl e he

end Bounds

section Meta

variable {batch : List UsageEvent} {e : UsageEvent} (id : String) (b : ℕ) (c : BitVec 64)

theorem minTimestampMs_le (he : e ∈ batch) :
    (buildSegmentMeta id batch b c).minTimestampMs ≤ e.timestampMs := by
  have h := (foldl_min_le (fun e : UsageEvent => (e.timestampMs : ℤ)) batch (2 ^ 63 - 1)).2 e he
  simp only [buildSegmentMeta]
  split
  · rename_i hmax
    -- the sentinel is left only when all times are the largest
    rw [hmax] at h
    omega
  · exact h

theorem minTimestampMs_nonneg (hpos : ∀ e ∈ batch, 0 < (e.timestampMs : ℤ)) :
    0 ≤ (buildSegmentMeta id batch b c).minTimestampMs := by
  have h := le_foldl_min (fun e : UsageEvent => (e.timestampMs : ℤ)) batch (2 ^ 63 - 1)
    (fun e he => (hpos e he).le) (by norm_num)
  simp only [buildSegmentMeta]
  split
  · exact le_rfl
  · exact h

theorem le_maxTimestampMs (he : e ∈ batch) :
    (e.timestampMs : ℤ) ≤ (buildSegmentMeta id batch b c).maxTimestampMs := by
  have h := (foldl_min_le (fun e : UsageEvent => OrderDual.toDual (e.timestampMs : ℤ)) batch
    (OrderDual.toDual (-2 ^ 63))).2 e he
  have hle : (e.timestampMs : ℤ) ≤ batch.foldl
      (fun m e => if m < (e.timestampMs : ℤ) then (e.timestampMs : ℤ) else m) (-2 ^ 63) := h
  simp only [buildSegmentMeta]
  split
  · rename_i hmin
    rw [hmin] at hle
    omega
  · exact hle

theorem minAccountId_le {a : String} (h : (buildSegmentMeta id batch b c).minAccountId = some a)
    (he : e ∈ batch) : a ≤ e.accountId :=
  (foldl_bound_le (fun e : UsageEvent => e.accountId) h).2 e he

theorem le_maxAccountId {a : String} (h : (buildSegmentMeta id batch b c).maxAccountId = some a)
    (he : e ∈ batch) : e.accountId ≤ a :=
  (foldl_bound_le (κ := Stringᵒᵈ) (fun e : UsageEvent => e.accountId) h).2 e he

end Meta

end UsageDb
