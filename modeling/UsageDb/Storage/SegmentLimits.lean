import UsageDb.Storage.DedupeIndex
import UsageDb.Storage.SegmentTotal
import Mathlib.Data.List.Dedup

/-!
# How much a segment file can hold

`finish` writes the number of rows and the length of each compressed column as a `u32`, and cuts off
what does not fit. It succeeds all the same (`exists_finish`); but a file of 2³² rows or more, or
with a column of 2³² bytes or more, cannot be opened (`scanSegment_of_finish`): a column is cut
short, or its length is not the number of rows in the header.

Two more numbers are `u32`s, the index of a value in a dictionary and the length of a run; they are
too large only where there are too many rows (`not_narrows`). None of the four is reported: `finish`
keeps its word, that a number which does not fit is an error and that what it has written can be
read, only where all fit (`narrowing_reported_iff`). -/

namespace UsageDb

open Lib List

variable {C : SegmentLibs} {X : Extern} {rows : List UsageEvent}

/-- The rows fit in a file: fewer than 2³², in compressed columns shorter than 2³² bytes. -/
def FitsFile (C : SegmentLibs) (rows : List UsageEvent) : Prop := rows.length < 2 ^ 32 ∧
    ColumnsFit C rows

/-- The file of some rows, however many. -/
theorem finish_eq (hC : C.Lawful) (rows : List UsageEvent) {z : Bytes → Bytes}
    (hz : ∀ b, C.compress b = .ok (z b)) :
    let body := segmentBody (rows.length % 2 ^ 32) (compressed z (rawChunks C (.ofEvents rows)))
    finish C X (rows.foldl Columns.writeEvent .new) =
        .ok (segmentFile X body, rows.length % 2 ^ 32, X.checksum body) := by
  intro body
  have hcount : (Columns.ofEvents rows).eventId.length = rows.length := length_map _
  have hraw : (columnChunks C (.ofEvents rows)).mapM (onChunk id) =
      .ok (rawChunks C (.ofEvents rows)) :=
    mapM_onChunk (columnChunks_ok hC (.ofEvents rows))
  have hcomp : (rawChunks C (.ofEvents rows)).mapM (onChunk C.compress) =
      .ok (compressed z (rawChunks C (.ofEvents rows))) := mapM_onChunk fun x _ => hz x.2.2
  rw [foldl_writeEvent, finish, hraw]
  show (do let chunks ← (rawChunks C (.ofEvents rows)).mapM (onChunk C.compress); _) = _
  rw [hcomp, hcount]
  rfl

/-- Writing never fails. -/
theorem exists_finish (hC : C.Lawful) (X : Extern) (rows : List UsageEvent) :
    ∃ out, finish C X (rows.foldl Columns.writeEvent .new) = .ok out := by
  choose z hz hunz using hC.zstd
  exact ⟨_, finish_eq hC rows hz⟩

/-- The first column that is decoded has an entry for each row. -/
theorem length_eventId_of_decodeColumns (hC : C.Lawful) {c : Columns}
    (h : decodeColumns C (chunksOf (rawChunks C (.ofEvents rows))) = .ok c) :
      c.eventId.length = rows.length := by
  have hmem : ("event_id", .plain, C.ser .strings (rows.map (·.eventId))) ∈
      columnChunks C (.ofEvents rows) :=
    mem_cons_self
  have hfound := chunksOf_of_mem (nodup_names (C := C) (.ofEvents rows))
    (mem_map_of_mem (f := fun x => (x.1, x.2.1, bytesOf x.2.2)) hmem)
  have hids := decodeStrings_ser hC (columnChunks_ok hC _ _ hmem) hfound
  obtain ⟨eventId, hdecode, h⟩ := except_bind_eq_ok.1 h
  obtain rfl := Except.ok.inj (hids.symm.trans hdecode)
  -- The other columns do not touch it.
  iterate 13 obtain ⟨_, -, h⟩ := except_bind_eq_ok.1 h
  cases h
  exact length_map _

/-- **A scan gives the rows that were written if and only if they fit.** -/
theorem scanSegment_of_finish (hC : C.Lawful) (hT : C.Truncates) {file : Bytes} {n : ℕ}
    {checksum : BitVec 64}
    (hfile : finish C X (rows.foldl Columns.writeEvent .new) = .ok (file, n, checksum)) :
    (FitsFile C rows → scanSegment C X file = .ok rows) ∧
      (¬ FitsFile C rows → ∃ err, scanSegment C X file = .error err) := by
  by_cases hrows : rows.length < 2 ^ 32
  · obtain ⟨hfit, hlong⟩ := scanSegment_iff hC hT hrows hfile
    exact ⟨fun h => hfit h.2, fun h => hlong fun hcols => h ⟨hrows, hcols⟩⟩
  refine ⟨fun h => absurd h.1 hrows, fun _ => ?_⟩
  choose z hz hunz using hC.zstd
  obtain ⟨rfl, -⟩ := Prod.mk.inj (Except.ok.inj ((finish_eq hC rows hz).symm.trans hfile))
  have hcut : rows.length % 2 ^ 32 < 2 ^ 32 := Nat.mod_lt _ (by decide)
  have hcount : (rawChunks C (.ofEvents rows)).length < 2 ^ 16 := show 14 < 2 ^ 16 by decide
  have hnew : ∃ err, RawSegmentReader.new C X (segmentFile X
      (segmentBody (rows.length % 2 ^ 32) (compressed z (rawChunks C (.ofEvents rows))))) =
          .error err := by
    rw [new_segmentFile (by simp [segmentBody, HEADER_LEN]; omega)]
    by_cases hlen : ∀ x ∈ rawChunks C (.ofEvents rows), (z x.2.2).length < 2 ^ 32
    · -- The columns are read, and one of them is longer than the header says.
      have hbody := parses_body hcut hcount (length_names _) hlen hunz []
      rw [append_nil] at hbody
      rw [hbody]
      show ∃ err, (do let columns ← decodeColumns C (chunksOf (rawChunks C (.ofEvents rows))); _) =
        Except.error err
      cases hdecode : decodeColumns C (chunksOf (rawChunks C (.ofEvents rows))) with
      | error err => exact ⟨err, rfl⟩
      | ok c =>
        have hids := length_eventId_of_decodeColumns hC hdecode
        cases hcheck : c.checkLengths (rows.length % 2 ^ 32) with
        | error err => exact ⟨err,
            except_bind_eq_error.2 (.inr ⟨c, rfl, except_bind_eq_error.2 (.inl hcheck)⟩)⟩
        | ok _ =>
          have heq := checkLengths_eq_ok hcheck ("event_id", c.eventId.length) mem_cons_self
          omega
    · push Not at hlen
      obtain ⟨err, herr⟩ := fails_body hcut hcount (length_names _) hunz
        (fun b k hk => hT b (z b) (hz b) k hk)
        (hlen.imp fun x hx => ⟨hx.1, not_lt.2 hx.2⟩) []
      rw [append_nil] at herr
      rw [herr]
      exact ⟨err, rfl⟩
  obtain ⟨err, herr⟩ := hnew
  exact ⟨err, by rw [scanSegment, herr]; rfl⟩

/-! ### What is cut off is not reported -/

/-- The columns that have a dictionary. -/
def Columns.dictionaries (c : Columns) : List (List String) :=
  [c.accountId, c.subscriptionId.reduceOption, c.productId, c.meterId, c.unit, c.source,
    c.modelId.reduceOption]

/-- A number that `finish` writes as a `u32` does not fit in one. -/
inductive Narrows (C : SegmentLibs) (c : Columns) : Prop where
  /-- The number of rows. -/
  | rowCount : 2 ^ 32 ≤ c.eventId.length → Narrows C c
  /-- The length of a compressed column. -/
  | compressedLen {chunk : String × Encoding × Except String Bytes} {raw z : Bytes} :
      chunk ∈ columnChunks C c →
      chunk.2.2 = .ok raw → C.compress raw = .ok z → 2 ^ 32 ≤ z.length → Narrows C c
  /-- The index of the last of the different values in a dictionary. -/
  | index {values : List String} : values ∈ c.dictionaries → 2 ^ 32 < values.dedup.length → Narrows C c
  /-- The length of a run of one kind. -/
  | runLength {n : ℕ} {kind : UInt8} : List.replicate n kind <:+: c.kind → 2 ^ 32 ≤ n → Narrows C c

/-- A dictionary has an entry for a row at most. -/
theorem length_le_of_mem_dictionaries {values : List String}
    (h : values ∈ (Columns.ofEvents rows).dictionaries) :
    values.length ≤ rows.length := by
  have hoption : ∀ f : UsageEvent → Option String, (rows.map f).reduceOption.length ≤ rows.length := by
    intro f
    exact (length_filterMap_le _ _).trans_eq (length_map _)
  simp only [Columns.dictionaries, Columns.ofEvents, mem_cons, not_mem_nil, or_false] at h
  rcases h with rfl | rfl | rfl | rfl | rfl | rfl | rfl
  all_goals first
    | exact (length_map _).le
    | exact hoption _

/-- **If the rows and the columns fit, everything fits.** -/
theorem not_narrows (h : FitsFile C rows) : ¬ Narrows C (rows.foldl Columns.writeEvent .new) := by
  obtain ⟨hrows, hcols⟩ := h
  have hcount : (Columns.ofEvents rows).eventId.length = rows.length := length_map _
  intro hnarrow
  cases hnarrow with
  | rowCount hlong =>
    rw [foldl_writeEvent, hcount] at hlong
    omega
  | compressedLen hchunk hraw hz hlong =>
    have hlt := hcols _ hchunk _ _ hraw hz
    omega
  | index hvalues hlong =>
    rw [foldl_writeEvent] at hvalues
    have hle := length_le_of_mem_dictionaries hvalues
    have hdedup := (dedup_sublist _).length_le.trans hle
    omega
  | runLength hrun hlong =>
    have hkinds : (Columns.ofEvents rows).kind.length = rows.length := length_map _
    have hle := hrun.length_le
    rw [foldl_writeEvent, length_replicate, hkinds] at hle
    omega

/-- **Numbers that do not fit**: an error for each of them, and a file that is read back as the rows
whenever there is no error, is what `finish` gives if and only if the rows and the compressed
columns fit. -/
theorem narrowing_reported_iff (hC : C.Lawful) (X : Extern) (rows : List UsageEvent) :
    ((Narrows C (rows.foldl Columns.writeEvent .new) →
        ∃ err, finish C X (rows.foldl Columns.writeEvent .new) = .error err) ∧
      ∀ file n checksum, finish C X (rows.foldl Columns.writeEvent .new) = .ok (file, n, checksum) →
        scanSegment C X file = .ok rows) ↔
    FitsFile C rows := by
  obtain ⟨out, hout⟩ := exists_finish hC X rows
  constructor
  · rintro ⟨hreport, -⟩
    by_contra hfit
    have hnarrow : Narrows C (rows.foldl Columns.writeEvent .new) := by
      by_cases hrows : rows.length < 2 ^ 32
      · -- There is a column that does not fit.
        have hcols : ¬ ColumnsFit C rows := fun hcols => hfit ⟨hrows, hcols⟩
        unfold ColumnsFit at hcols
        push Not at hcols
        obtain ⟨chunk, hchunk, raw, z, hraw, hz, hlong⟩ := hcols
        exact .compressedLen hchunk hraw hz hlong
      · have hcount : (Columns.ofEvents rows).eventId.length = rows.length := length_map _
        refine .rowCount ?_
        rw [foldl_writeEvent, hcount]
        exact not_lt.1 hrows
    obtain ⟨err, herr⟩ := hreport hnarrow
    cases herr.symm.trans hout
  · intro hfit
    refine ⟨fun hnarrow => absurd hnarrow (not_narrows hfit), fun file n checksum hfile => ?_⟩
    exact scanSegment_of_columnsFit hC hfit.1 hfit.2 hfile

theorem narrowing_reported_iff_of_two_events :
    FitsFile .stored segmentEvents ∧
      ∀ file n checksum, finish .stored .sample (segmentEvents.foldl Columns.writeEvent .new) =
        .ok (file, n, checksum) → scanSegment .stored .sample file = .ok segmentEvents := by
  have hcols : ColumnsFit .stored segmentEvents := columnsFit_stored (by decide +kernel)
  have hfit : FitsFile .stored segmentEvents := ⟨by decide, hcols⟩
  exact ⟨hfit, ((narrowing_reported_iff SegmentLibs.lawful_stored .sample segmentEvents).2 hfit).2⟩

/-- 2³² events are written without an error, as a file of no rows, and the file cannot be read. -/
theorem row_count_cut_silently :
    let rows := List.replicate (2 ^ 32) (sampleEvent "a" "acme" 7200000 5)
    Narrows .stored (rows.foldl Columns.writeEvent .new) ∧
      ∃ file checksum, finish .stored .sample (rows.foldl Columns.writeEvent .new) =
        .ok (file, 0, checksum) ∧ ∃ err, scanSegment .stored .sample file = .error err := by
  intro rows
  have hlen : rows.length = 2 ^ 32 := length_replicate
  have hmod : rows.length % 2 ^ 32 = 0 := by rw [hlen, Nat.mod_self]
  have hfile := finish_eq (X := .sample) SegmentLibs.lawful_stored rows (z := store) fun _ => rfl
  rw [hmod] at hfile
  refine ⟨.rowCount ?_, _, _, hfile, ?_⟩
  · have hcount : (Columns.ofEvents rows).eventId.length = rows.length := length_map _
    rw [foldl_writeEvent, hcount, hlen]
  · refine (scanSegment_of_finish SegmentLibs.lawful_stored SegmentLibs.truncates_stored hfile).2
      fun hfit => ?_
    exact absurd hfit.1 (by rw [hlen]; exact lt_irrefl _)

end UsageDb
