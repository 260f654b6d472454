import UsageDb.Compact.Worker
import UsageDb.Runtime.Recovery
import UsageDb.Storage.DedupeIndex

/-!
# Recovery with and without sidecars

The flusher and the compaction worker write a segment and its sidecar from the same rows by code of
their own; recovery takes the sidecar where it can and scans the segment where it cannot. Here both
are followed down to the bytes: what a scan of the segment gives is compared with what the sidecar
has, and the cache that recovery builds with what it builds when some of the sidecars are missing
or rejected.

A scan depends on the lengths of the compressed columns, which the segment has as `u32`: the
column of a segment with more bytes than that is cut off, and the segment cannot be opened, while
its sidecar can be read.
-/

namespace UsageDb

open Lib List

variable {C : SegmentLibs} {I : IndexLibs} {X : Extern} {rows : List UsageEvent}

/-! ### What the workers write -/

section Write

variable (C : SegmentLibs) (I : IndexLibs) (X : Extern)

/-- The loop of `write_bucket`: a row goes to the writer and its entry to the index. -/
def writeRow (w : Columns × List IndexEntry) (e : UsageEvent) : Columns × List IndexEntry :=
  (w.1.writeEvent e, w.2 ++ [indexEntry X e])

/-- `write_bucket`: the bytes of the segment and of its sidecar; a sidecar that cannot be written is
left out. -/
def writeBucketFiles (bucketEvents : List UsageEvent) : Except String (Bytes × Option Bytes) := do
  let (writer, indexEntries) := (sortEventsCanonical bucketEvents).foldl (writeRow X) (.new, [])
  let (file, _, _) ← finish C X writer
  return (file, (writeDedupeIndex I X indexEntries).toOption)

/-- `run_one_plan`, for the events of its inputs. -/
def planFiles (events : List UsageEvent) : Except String (Bytes × Option Bytes) := do
  let deduped := sortAndDedupe events
  let (file, _, _) ← finish C X (deduped.foldl Columns.writeEvent .new)
  return (file, (writeDedupeIndex I X (deduped.map (indexEntry X))).toOption)

/-- A segment of these rows and its sidecar, as one of the workers wrote them. -/
inductive Written : List UsageEvent → Bytes → Option Bytes → Prop where
  /-- The flusher. -/
  | bucket {file : Bytes} {idx : Option Bytes} (bucketEvents : List UsageEvent) :
      writeBucketFiles C I X bucketEvents = .ok (file, idx) →
        Written (sortEventsCanonical bucketEvents) file idx
  /-- The compaction worker. -/
  | plan {file : Bytes} {idx : Option Bytes} (events : List UsageEvent) :
      planFiles C I X events = .ok (file, idx) → Written (sortAndDedupe events) file idx

end Write

theorem foldl_writeRow (rows : List UsageEvent) (w : Columns × List IndexEntry) :
    rows.foldl (writeRow X) w =
      (rows.foldl Columns.writeEvent w.1, w.2 ++ rows.map (indexEntry X)) := by
  induction rows generalizing w with
  | nil => simp
  | cons e rows ih =>
    rw [foldl_cons, ih, foldl_cons]
    simp [writeRow]

/-- Both workers write the rows to the segment and their entries to the sidecar. -/
theorem Written.files {file : Bytes} {idx : Option Bytes} (h : Written C I X rows file idx) :
    (∃ n checksum, finish C X (rows.foldl Columns.writeEvent .new) = .ok (file, n, checksum)) ∧
      idx = (writeDedupeIndex I X (rows.map (indexEntry X))).toOption := by
  have hsplit : ∀ {rows : List UsageEvent} {file idx}, (do
      let (file, _, _) ← finish C X (rows.foldl Columns.writeEvent .new)
      return (file, (writeDedupeIndex I X (rows.map (indexEntry X))).toOption) :
        Except String _) = .ok (file, idx) →
      (∃ n checksum, finish C X (rows.foldl Columns.writeEvent .new) = .ok (file, n, checksum)) ∧
        idx = (writeDedupeIndex I X (rows.map (indexEntry X))).toOption := by
    intro rows file idx hok
    cases hfinish : finish C X (rows.foldl Columns.writeEvent .new) with
    | error err =>
      rw [hfinish] at hok
      cases hok
    | ok r =>
      rw [hfinish] at hok
      cases hok
      exact ⟨⟨_, _, rfl⟩, rfl⟩
  cases h with
  | bucket events hok =>
    rw [writeBucketFiles, foldl_writeRow] at hok
    exact hsplit hok
  | plan events hok => exact hsplit hok

/-- Any events can be flushed. -/
theorem writeBucketFiles_ok (hC : C.Lawful) (hI : I.Lawful) (X : Extern)
    (bucketEvents : List UsageEvent) (hrows : bucketEvents.length < 2 ^ 32) :
    ∃ file idx, writeBucketFiles C I X bucketEvents = .ok (file, some idx) := by
  have hlen : (sortEventsCanonical bucketEvents).length < 2 ^ 32 := by
    rwa [(sortEventsCanonical_perm bucketEvents).length_eq]
  choose z hz hunz using hC.zstd
  obtain ⟨idx, hidx, -⟩ := readDedupeIndex_write hI X ((sortEventsCanonical bucketEvents).map
    (indexEntry X))
    (by rwa [length_map])
  refine ⟨segmentFile X (eventsBody C z (sortEventsCanonical bucketEvents)), idx, ?_⟩
  rw [writeBucketFiles, foldl_writeRow]
  dsimp only
  rw [foldl_writeEvent, finish_ofEvents hC hlen hz, nil_append, hidx]
  rfl

/-! ### Recovery -/

/-- The files of the raw segments. -/
structure SegmentDir where
  /-- `<id>.seg`. -/
  seg : String → Option Bytes
  /-- `<id>.idx`. -/
  idx : String → Option Bytes

section Recover

variable (C : SegmentLibs) (I : IndexLibs) (X : Extern)

/-- What recovery learns from a raw segment: nothing when it is missing, else what the sidecar has,
or what a scan gives when there is no sidecar or it is rejected. -/
def recoverSegment (seg idx : Option Bytes) : List IndexEntry :=
  match seg with
  | none => []
  | some file =>
    match readDedupeIndex I X idx with
    | .ok (some entries) => entries
    | _ => ((scanSegment C X file).toOption.getD []).map (indexEntry X)

/-- The cache of `run_startup_recovery`, after the events of the log. -/
def recoverDedupe (dir : SegmentDir) (log : List UsageEvent) (m : Manifest) (now : ℤ)
    (dedupeCapacity : ℕ) : HotDedupe :=
  (HotDedupe.new dedupeCapacity).insertAllKnown (log.map (indexEntry X) ++
    (m.recentSegments now).flatMap
      fun s => recoverSegment C I X (dir.seg s.segmentId) (dir.idx s.segmentId))

/-- A sidecar of some rows: as it was written, or missing, or rejected. -/
inductive Sidecar (rows : List UsageEvent) : Option Bytes → Prop where
  /-- It is not there. -/
  | missing : Sidecar rows none
  /-- It is corrupt. -/
  | rejected {bytes : Bytes} {err : IndexError} : readDedupeIndex I X (some bytes) = .error err →
      Sidecar rows (some bytes)
  /-- It is as it was written. -/
  | written {bytes : Bytes} : writeDedupeIndex I X (rows.map (indexEntry X)) = .ok bytes →
      Sidecar rows (some bytes)

/-- A segment in the directory, as a worker wrote it and with columns that fit, its sidecar in any
of these states. -/
def SegmentDir.Has (dir : SegmentDir) (id : String) (rows : List UsageEvent) : Prop :=
  rows.length < 2 ^ 32 ∧ ColumnsFit C rows ∧
    (∃ file idx, Written C I X rows file idx ∧ dir.seg id = some file) ∧
    Sidecar I X rows (dir.idx id)

end Recover

/-- Recovery learns the entries of the rows from it. -/
theorem recoverSegment_eq (hC : C.Lawful) (hT : C.Truncates) (hI : I.Lawful) {dir : SegmentDir}
    {id : String} (h : dir.Has C I X id rows) :
    recoverSegment C I X (dir.seg id) (dir.idx id) = rows.map (indexEntry X) := by
  obtain ⟨hrows, hfit, ⟨file, idx, hwritten, hseg⟩, hidx⟩ := h
  obtain ⟨⟨n, checksum, hfinish⟩, -⟩ := hwritten.files
  have hscan := (scanSegment_iff hC hT hrows hfinish).1 hfit
  rw [hseg, recoverSegment]
  generalize dir.idx id = sidecar at hidx
  cases hidx with
  | missing =>
    rw [hscan]
    rfl
  | rejected herr =>
    rw [herr, hscan]
    rfl
  | written hbytes =>
    obtain ⟨bytes, hwrite, hread⟩ := readDedupeIndex_write hI X (rows.map (indexEntry X))
      (by rwa [length_map])
    obtain rfl := Except.ok.inj (hwrite.symm.trans hbytes)
    rw [hread]

/-- **Recovery from the bytes is recovery from the rows**: the files are those of the disk. -/
theorem recoverDedupe_eq (hC : C.Lawful) (hT : C.Truncates) (hI : I.Lawful) {d : Disk} {buckets : ℕ}
    {dir : SegmentDir} (hok : ∀ s ∈ d.loadManifest.rawSegments, SegmentOk X d buckets s)
    (hdir : ∀ s ∈ d.loadManifest.rawSegments, dir.Has C I X s.segmentId (d.rows s))
    (dedupeCapacity : ℕ) (now : ℤ) (clk : ℕ → ℤ) :
    recoverDedupe C I X dir (d.replay d.loadManifest.lastSealedWalId) d.loadManifest now
      dedupeCapacity = (runStartupRecovery X dedupeCapacity now clk d).dedupe := by
  show _ = (HotDedupe.new dedupeCapacity).insertAllKnown (d.knownEntries X d.loadManifest now)
  rw [recoverDedupe, knownEntries_eq hok, Disk.scanned, map_append, map_flatMap]
  congr 2
  refine flatMap_congr fun s hs => ?_
  exact recoverSegment_eq hC hT hI (hdir s (mem_of_mem_filter hs))

/-- **The sidecar and the scan.** The sidecar that a worker wrote with a segment of fewer than 2³²
rows is read as the entries of the rows, in order. A scan of the segment gives the same entries if
and only if its compressed columns are shorter than 2³² bytes. When those of all listed segments
are, recovery builds the same cache and queue whichever of the sidecars are missing or rejected. -/
theorem sidecar_equals_scan (hC : C.Lawful) (hT : C.Truncates) (hI : I.Lawful) (X : Extern) :
    (∀ rows file idx, Written C I X rows file idx → rows.length < 2 ^ 32 →
      readDedupeIndex I X idx = .ok (some (rows.map (indexEntry X))) ∧
      ((scanSegment C X file).map
        (fun es => es.map (indexEntry X)) = .ok (rows.map (indexEntry X)) ↔ ColumnsFit C rows)) ∧
    ∀ (m : Manifest) (now : ℤ) (dedupeCapacity : ℕ) (log : List UsageEvent) (dir dir' : SegmentDir),
      (∀ s ∈ m.rawSegments, ∃ rows, dir.Has C I X s.segmentId rows ∧ dir'.Has C I X s.segmentId rows) →
      recoverDedupe C I X dir log m now dedupeCapacity =
        recoverDedupe C I X dir' log m now dedupeCapacity := by
  constructor
  · intro rows file idx hwritten hrows
    obtain ⟨⟨n, checksum, hfinish⟩, rfl⟩ := hwritten.files
    obtain ⟨bytes, hwrite, hread⟩ := readDedupeIndex_write hI X (rows.map (indexEntry X))
      (by rwa [length_map])
    obtain ⟨hfit, hlong⟩ := scanSegment_iff hC hT hrows hfinish
    refine ⟨by rw [hwrite]; exact hread, fun hscan => ?_, fun h => by rw [hfit h]; rfl⟩
    by_contra hnot
    obtain ⟨err, herr⟩ := hlong hnot
    rw [herr] at hscan
    cases hscan
  · intro m now dedupeCapacity log dir dir' hdirs
    rw [recoverDedupe, recoverDedupe]
    congr 2
    refine flatMap_congr fun s hs => ?_
    obtain ⟨rows, hdir, hdir'⟩ := hdirs s (mem_of_mem_filter hs)
    rw [recoverSegment_eq hC hT hI hdir, recoverSegment_eq hC hT hI hdir']

/-! ### A stand-in for `bincode` -/

/-- A hash. -/
def hashPrinter : Printer EventHash :=
  .word 16 BitVec.toNat (BitVec.ofNat 128) (fun h => h.isLt) fun h => by simp

/-- The layout of `bincode`, as for the columns. -/
def IndexLibs.sample : IndexLibs where
  ser entries := .ok ((hashPrinter.pair (hashPrinter.pair i64Printer)).list.print entries)
  de := (hashPrinter.pair (hashPrinter.pair i64Printer)).list.read

theorem IndexLibs.lawful_sample : IndexLibs.sample.Lawful :=
  fun entries => ⟨_, rfl, Printer.read_print _ entries⟩

/-- Two events are flushed; recovery with their sidecar is recovery without it, and with one that
is rejected. -/
theorem sidecar_equals_scan_of_two_events :
    ∃ file bytes, writeBucketFiles .stored .sample .sample segmentEvents = .ok (file, some bytes) ∧
      (scanSegment .stored .sample file).map (fun es => es.map (indexEntry .sample)) =
        .ok ((sortEventsCanonical segmentEvents).map (indexEntry .sample)) ∧
      let m : Manifest :=
        { rawSegments := [buildSegmentMeta "raw_a" (sortEventsCanonical segmentEvents) 1 0] }
      let recover := fun idx =>
        recoverDedupe .stored .sample .sample ⟨fun _ => some file, fun _ => idx⟩ [] m 8000000 10
      recover (some bytes) = recover none ∧ recover (some bytes) = recover (some []) := by
  have hfit : ColumnsFit .stored (sortEventsCanonical segmentEvents) :=
    columnsFit_stored (by decide +kernel)
  have hrows : (sortEventsCanonical segmentEvents).length < 2 ^ 32 := by decide +kernel
  obtain ⟨hone, hall⟩ := sidecar_equals_scan SegmentLibs.lawful_stored SegmentLibs.truncates_stored
    IndexLibs.lawful_sample .sample
  obtain ⟨file, bytes, hok⟩ := writeBucketFiles_ok SegmentLibs.lawful_stored IndexLibs.lawful_sample
    .sample segmentEvents (by decide)
  have hwritten := Written.bucket _ hok
  obtain ⟨b, hwrite, -⟩ := readDedupeIndex_write IndexLibs.lawful_sample .sample
    ((sortEventsCanonical segmentEvents).map (indexEntry .sample)) (by rwa [length_map])
  have hidx := hwritten.files.2
  rw [hwrite] at hidx
  obtain rfl : bytes = b := Option.some.inj hidx
  refine ⟨file, bytes, hok, ((hone _ _ _ hwritten hrows).2.2 hfit), ?_, ?_⟩
  · refine hall _ _ _ _ _ _ fun s _ => ⟨_, ⟨hrows, hfit, ⟨_, _, hwritten, rfl⟩, .written hwrite⟩,
      ⟨hrows, hfit, ⟨_, _, hwritten, rfl⟩, .missing⟩⟩
  · refine hall _ _ _ _ _ _ fun s _ => ⟨_, ⟨hrows, hfit, ⟨_, _, hwritten, rfl⟩, .written hwrite⟩,
      ⟨hrows, hfit, ⟨_, _, hwritten, rfl⟩,
        .rejected (show _ = Except.error IndexError.tooSmall from rfl)⟩⟩

/-! ### Rows that do not compress -/

/-- An event with a number for its id, and a quantity of 98 bits, the lower 97 of them from the
number times the golden ratio, so that the quantities of different events have nothing in common. -/
def numberedEvent (i : ℕ) : UsageEvent :=
  { sampleEvent (toString i) "a" 7200000
      (2 ^ 97 + (i * 0x9E3779B97F4A7C15F39CC0605CEDC835 / 2 ^ 31 % 2 ^ 97 : ℕ)) with
    productId := "p", meterId := "m", unit := "u", source := "s" }

/-- So many of them. -/
def numberedEvents (start n : ℕ) : List UsageEvent := (List.range' start n).map numberedEvent

theorem quantity_numberedEvent (i : ℕ) :
    2 ^ 97 ≤ ((numberedEvent i).quantity : ℤ) ∧ ((numberedEvent i).quantity : ℤ) < 2 ^ 98 := by
  have hlt := Nat.mod_lt (i * 0x9E3779B97F4A7C15F39CC0605CEDC835 / 2 ^ 31) (Nat.two_pow_pos 97)
  have hq : ((numberedEvent i).quantity : ℤ) =
      2 ^ 97 + (i * 0x9E3779B97F4A7C15F39CC0605CEDC835 / 2 ^ 31 % 2 ^ 97 : ℕ) :=
    SInt.wrap_of_inRange ⟨by omega, by omega⟩
  omega

/-- A quantity takes fifteen bytes. -/
theorem length_varint_numberedEvent (i : ℕ) :
    (varint 19 (zigzag (bitsOfI128 (numberedEvent i).quantity)).toNat).length = 15 := by
  obtain ⟨hlo, hhi⟩ := quantity_numberedEvent i
  have hbits : ((bitsOfI128 (numberedEvent i).quantity).toNat : ℤ) = (numberedEvent i).quantity := by
    rw [bitsOfI128, BitVec.toNat_ofInt, Int.toNat_of_nonneg (Int.emod_nonneg _ (by decide))]
    exact Int.emod_eq_of_lt (by omega) (by omega)
  have hzigzag := toNat_zigzag (w := 127) (n := bitsOfI128 (numberedEvent i).quantity) (by omega)
  obtain ⟨-, hvalue, hlen⟩ := varint_spec (n := 19)
    (y := (zigzag (bitsOfI128 (numberedEvent i).quantity)).toNat) (by omega) (by decide)
  have hshort := hlen 99 (by decide) (by omega)
  have hlong := varintValue_lt (varint 19 (zigzag (bitsOfI128 (numberedEvent i).quantity)).toNat)
  rw [hvalue] at hlong
  have hpow : 2 ^ 98 < 2 ^ (7 *
      (varint 19 (zigzag (bitsOfI128 (numberedEvent i).quantity)).toNat).length) := by omega
  have hlt := (Nat.pow_lt_pow_iff_right (by decide)).1 hpow
  omega

/-- The column of quantities that take `k` bytes each. -/
theorem length_encodeZigzagVarintI128 {values : List I128} {k : ℕ}
    (h : ∀ v ∈ values, (varint 19 (zigzag (bitsOfI128 v)).toNat).length = k) :
    (encodeZigzagVarintI128 values).length = 4 + values.length * k := by
  rw [encodeZigzagVarintI128, length_append, length_leBytes, length_flatMap,
    map_congr_left h, map_const', sum_replicate_nat]

theorem length_quantities (h : ∀ e ∈ rows, ∃ i, e = numberedEvent i) :
    (encodeZigzagVarintI128 (rows.map (·.quantity))).length = 4 + rows.length * 15 := by
  have hall : ∀ v ∈ rows.map (·.quantity), (varint 19 (zigzag (bitsOfI128 v)).toNat).length = 15 := by
    intro v hv
    obtain ⟨e, he, rfl⟩ := mem_map.1 hv
    obtain ⟨i, rfl⟩ := h e he
    exact length_varint_numberedEvent i
  rw [length_encodeZigzagVarintI128 hall, length_map]

/-- It takes 2³² bytes or more. -/
theorem not_columnsFit_numbered (h : ∀ e ∈ rows, ∃ i, e = numberedEvent i)
    (hn : 2 ^ 32 ≤ rows.length * 15) : ¬ ColumnsFit .stored rows := by
  rw [columnsFit_iff SegmentLibs.lawful_stored (z := store) fun _ => rfl]
  intro hfit
  have hmem : ("quantity", Encoding.zigzag, encodeZigzagVarintI128 (rows.map (·.quantity))) ∈
      rawChunks .stored (.ofEvents rows) := by
    simp only [rawChunks, columnChunks, map_cons, mem_cons]
    exact .inr (.inr (.inr (.inr (.inr (.inr (.inr (.inr (.inl rfl))))))))
  have hlt : (store (encodeZigzagVarintI128 (rows.map (·.quantity)))).length < 2 ^ 32 := hfit _ hmem
  have hle := (length_store (encodeZigzagVarintI128 (rows.map (·.quantity)))).1
  rw [length_quantities h] at hle
  omega

/-- **A segment that only its sidecar can be read of.** A bucket of 3 · 2²⁷ events with different
ids, whose quantities take fifteen bytes each and do not compress, is flushed: the sidecar has an
entry for each, but the segment cannot be opened, so recovery learns all entries with the sidecar
and none without it. -/
theorem sidecar_without_scan :
    let rows := sortEventsCanonical (numberedEvents 0 (3 * 2 ^ 27))
    ∃ file bytes, writeBucketFiles .stored .sample .sample (numberedEvents 0 (3 * 2 ^ 27)) =
        .ok (file, some bytes) ∧
      readDedupeIndex .sample .sample (some bytes) = .ok (some (rows.map (indexEntry .sample))) ∧
      (∃ err, scanSegment .stored .sample file = .error err) ∧
      recoverSegment .stored .sample .sample (some file) (some bytes) =
        rows.map (indexEntry .sample) ∧
      recoverSegment .stored .sample .sample (some file) none = [] := by
  obtain ⟨n, hn⟩ : ∃ n, n = 3 * 2 ^ 27 := ⟨_, rfl⟩
  rw [← hn]
  intro rows
  have hperm := sortEventsCanonical_perm (numberedEvents 0 n)
  have hlength : (numberedEvents 0 n).length = n := by simp [numberedEvents]
  have hrows : rows.length < 2 ^ 32 := by
    rw [hperm.length_eq, hlength]
    omega
  have hnumbered : ∀ e ∈ rows, ∃ i, e = numberedEvent i := by
    intro e he
    obtain ⟨i, -, rfl⟩ := mem_map.1 (hperm.mem_iff.1 he)
    exact ⟨i, rfl⟩
  obtain ⟨file, bytes, hok⟩ := writeBucketFiles_ok SegmentLibs.lawful_stored IndexLibs.lawful_sample
    .sample (numberedEvents 0 n) (by omega)
  obtain ⟨⟨_, _, hfinish⟩, hidx⟩ := (Written.bucket _ hok).files
  obtain ⟨b, hwrite, hread⟩ := readDedupeIndex_write IndexLibs.lawful_sample .sample
    (rows.map (indexEntry .sample)) (by rwa [length_map])
  rw [hwrite] at hidx
  obtain rfl : bytes = b := Option.some.inj hidx
  obtain ⟨err, herr⟩ := (scanSegment_iff SegmentLibs.lawful_stored SegmentLibs.truncates_stored hrows
    hfinish).2 (not_columnsFit_numbered hnumbered (by rw [hperm.length_eq, hlength]; omega))
  refine ⟨file, bytes, hok, hread, ⟨err, herr⟩, ?_, ?_⟩
  · rw [recoverSegment, hread]
  · show ((scanSegment .stored .sample file).toOption.getD []).map _ = _
    rw [herr]
    rfl

end UsageDb
