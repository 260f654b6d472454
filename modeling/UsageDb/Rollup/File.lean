import UsageDb.Lib.Bincode
import UsageDb.Query.Executor
import UsageDb.Storage.SegmentFormat

/-!
# The files of rollup segments

`src/rollup/writer.rs` and `reader.rs` over bytes. The writer puts each record behind the length of
its bytes, a `u32`; the reader walks over the file with an offset until it is at the end. Its loop
has fuel, and an index or a slice that is out of bounds, where Rust panics, is an error
(`RollupError.panic`). `off + 4` and `off + len` are sums of a length of a vector and a `u32`, which
fit in `usize`.

`bincode` is a parameter (`RollupLibs`). A turn of the loop takes the frame at the offset
(`decodeNext_frame`) and never goes past the end of the file (`decodeNext_eq_ok`,
`decodeNext_ne_panic`): so the records that were written are read (`open_writeAll`), and the loop
ends on any bytes at all (`exists_decodeLoop`).

The disk of the model has the records of each rollup segment; `rollupRecords_eq_open` says that a
query finds in the file what it finds there. -/

namespace UsageDb

open Lib List

variable {ε : Type} {bytes : Bytes} {r : HourlyRollupRecord} {U : Set HourlyRollupRecord}

/-- `bincode` for rollup records. -/
structure RollupLibs (ε : Type) where
  /-- `bincode::serialize`. -/
  ser : HourlyRollupRecord → Except ε Bytes
  /-- `bincode::deserialize`. -/
  de : Bytes → Except ε HourlyRollupRecord

/-- What is assumed of it, for the records of `U`: it decodes what it encodes. -/
def RollupLibs.Lawful (C : RollupLibs ε) (U : Set HourlyRollupRecord) : Prop :=
  ∀ r ∈ U, ∀ data, C.ser r = .ok data → C.de data = .ok r

/-- Why a file could not be written or read. -/
inductive RollupError (ε : Type) where
  /-- The manifest has another checksum. -/
  | checksumMismatch (stored computed : BitVec 64)
  /-- The file ends inside a length. -/
  | truncatedHeader
  /-- The file ends inside a record. -/
  | truncatedPayload
  /-- An error of `bincode`. -/
  | library (err : ε)
  /-- Rust panics: an index is out of bounds. -/
  | panic

/-- What the reader says, where it is its own text. -/
def RollupError.message : RollupError ε → Option String
  | .checksumMismatch stored computed =>
    some ("rollup segment checksum mismatch (stored " ++ hex stored.toNat ++ ", computed " ++
      hex computed.toNat ++ ")")
  | .truncatedHeader => some "rollup segment: truncated length header"
  | .truncatedPayload => some "rollup segment: truncated record payload"
  | .library _ => none
  | .panic => none

section File

variable (C : RollupLibs ε) (X : Extern) {fuel : ℕ} {records : List HourlyRollupRecord}

/-! ### The writer -/

/-- `RollupSegmentWriter`: the file so far, and how many records it has. -/
structure RollupSegmentWriter where
  /-- The bytes of the file. -/
  bytes : Bytes
  rowCount : ℕ

/-- `RollupSegmentWriter::new`. -/
def RollupSegmentWriter.new : RollupSegmentWriter := ⟨[], 0⟩

/-- A record's bytes after their length, cut to a `u32`. -/
def frame (data : Bytes) : Bytes := leBytes 4 data.length ++ data

/-- `write_record`. -/
def RollupSegmentWriter.writeRecord (w : RollupSegmentWriter) (r : HourlyRollupRecord) :
    Except (RollupError ε) RollupSegmentWriter := do
  let data ← (C.ser r).mapError .library
  return { bytes := w.bytes ++ frame data, rowCount := w.rowCount + 1 }

/-- `finish`: the number of records and the checksum of the file. -/
def RollupSegmentWriter.finish (w : RollupSegmentWriter) : ℕ × BitVec 64 :=
  (w.rowCount, X.checksum w.bytes)

/-- The records of a segment, written one after another. -/
def writeAll (records : List HourlyRollupRecord) : Except (RollupError ε) RollupSegmentWriter :=
  records.foldlM (RollupSegmentWriter.writeRecord C) .new

/-! ### The reader -/

/-- `RollupSegmentReader`. -/
structure RollupSegmentReader where
  records : List HourlyRollupRecord
  cursor : ℕ
  deriving DecidableEq

/-- `bytes[i]`. -/
def byteAt (bytes : Bytes) (i : ℕ) : Except (RollupError ε) UInt8 := bytes[i]?.elim (.error .panic) .ok

/-- `&bytes[lo..hi]`. -/
def sliceOf (bytes : Bytes) (lo hi : ℕ) : Except (RollupError ε) Bytes :=
  if lo ≤ hi ∧ hi ≤ bytes.length then .ok ((bytes.drop lo).take (hi - lo)) else .error .panic

/-- A turn of the loop: the record at an offset, and the offset after it. -/
def decodeNext (bytes : Bytes) (off : ℕ) : Except (RollupError ε) (HourlyRollupRecord × ℕ) := do
  if bytes.length < off + 4 then .error .truncatedHeader
  else
    let len := ofLe [← byteAt bytes off, ← byteAt bytes (off + 1), ← byteAt bytes (off + 2),
      ← byteAt bytes (off + 3)]
    if bytes.length < off + 4 + len then .error .truncatedPayload
    else
      let record ← (C.de (← sliceOf bytes (off + 4) (off + 4 + len))).mapError .library
      return (record, off + 4 + len)

/-- `while off < bytes.len()`; `none` is that it still runs. -/
def decodeLoop (bytes : Bytes) : ℕ → ℕ → List HourlyRollupRecord →
    Option (Except (RollupError ε) (List HourlyRollupRecord))
  | 0, _, _ => none
  | fuel + 1, off, records =>
    if off < bytes.length then
      match decodeNext C bytes off with
      | .error err => some (.error err)
      | .ok (record, off') => decodeLoop bytes fuel off' (records ++ [record])
    else some (.ok records)

/-- `RollupSegmentReader::open`, for the bytes of the file. -/
def RollupSegmentReader.open (fuel : ℕ) (bytes : Bytes) (expectedChecksum : BitVec 64) :
    Option (Except (RollupError ε) RollupSegmentReader) :=
  if X.checksum bytes ≠
    expectedChecksum then some (.error (.checksumMismatch expectedChecksum (X.checksum bytes)))
  else (decodeLoop C bytes fuel 0 []).map fun result =>
    result.map fun records => { records, cursor := 0 }

/-- `into_records`. -/
def RollupSegmentReader.intoRecords (r : RollupSegmentReader) : List HourlyRollupRecord := r.records

/-! ### A turn of the loop -/

/-- The length that stands at an offset. -/
def lenAt (bytes : Bytes) (off : ℕ) : ℕ := ofLe ((bytes.drop off).take 4)

theorem byteAt_eq {i : ℕ} (h : i < bytes.length) :
    byteAt bytes i = (.ok bytes[i] : Except (RollupError ε) _) := by
  rw [byteAt, List.getElem?_eq_getElem h]
  rfl

/-- The four bytes of the length at an offset. -/
theorem lenAt_eq {off : ℕ} (h : off + 4 ≤ bytes.length) :
    lenAt bytes off = ofLe [bytes[off], bytes[off + 1], bytes[off + 2], bytes[off + 3]] := by
  rw [lenAt, drop_eq_getElem_cons (by omega), drop_eq_getElem_cons (by omega),
    drop_eq_getElem_cons (by omega), drop_eq_getElem_cons (by omega)]
  rfl

/-- **What a turn does.** Where the length is inside of the file so are its bytes, and the slice is
taken only if the record is inside too: a turn does not panic. -/
theorem decodeNext_eq (bytes : Bytes) (off : ℕ) : decodeNext C bytes off =
    if bytes.length < off + 4 then .error .truncatedHeader
    else if bytes.length < off + 4 + lenAt bytes off then .error .truncatedPayload
    else (C.de ((bytes.drop (off + 4)).take (lenAt bytes off))).mapError .library >>= fun record =>
      .ok (record, off + 4 + lenAt bytes off) := by
  rw [decodeNext]
  by_cases hheader : bytes.length < off + 4
  · rw [if_pos hheader, if_pos hheader]
  · have hoff : off + 4 ≤ bytes.length := by omega
    rw [if_neg hheader, if_neg hheader, byteAt_eq (by omega), byteAt_eq (by omega),
      byteAt_eq (by omega), byteAt_eq (by omega), lenAt_eq hoff]
    simp only [bind, Except.bind]
    split_ifs with hpayload
    · rfl
    · rw [sliceOf, if_pos ⟨by omega, by omega⟩, Nat.add_sub_cancel_left]
      rfl

theorem decodeNext_ne_panic (bytes : Bytes) (off : ℕ) : decodeNext C bytes off ≠ .error .panic := by
  rw [decodeNext_eq]
  split_ifs
  · nofun
  · nofun
  · cases C.de ((bytes.drop (off + 4)).take (lenAt bytes off)) <;> nofun

/-- A record is taken from the bytes after its length, and the offset moves past it. -/
theorem decodeNext_eq_ok {off off' : ℕ}
    (h : decodeNext C bytes off = .ok (r, off')) :
    off' = off + 4 + lenAt bytes off ∧ off' ≤ bytes.length ∧
      C.de ((bytes.drop (off + 4)).take (lenAt bytes off)) = .ok r := by
  rw [decodeNext_eq] at h
  split_ifs at h with hheader hpayload
  obtain ⟨record, hrecord, h⟩ := except_bind_eq_ok.1 h
  cases h
  refine ⟨rfl, by omega, ?_⟩
  cases hde : C.de ((bytes.drop (off + 4)).take (lenAt bytes off)) with
  | error err =>
    rw [hde] at hrecord
    cases hrecord
  | ok a =>
    rw [hde] at hrecord
    cases hrecord
    rfl

/-! ### The loop ends -/

/-- **The loop ends** on any bytes, with records or an error that is not a panic: each turn takes
the four bytes of a length at least. -/
theorem exists_decodeLoop (bytes : Bytes) (off : ℕ) (hfuel : bytes.length - off < fuel)
    (records : List HourlyRollupRecord) :
    ∃ result, decodeLoop C bytes fuel off records = some result ∧ result ≠ .error .panic := by
  induction fuel generalizing off records with
  | zero => exact absurd hfuel (Nat.not_lt_zero _)
  | succ fuel ih =>
    rw [decodeLoop]
    split_ifs with hoff
    · cases h : decodeNext C bytes off with
      | error err =>
        refine ⟨_, rfl, fun herr => decodeNext_ne_panic C bytes off ?_⟩
        rw [h]
        cases herr
        rfl
      | ok next =>
        obtain ⟨r, off'⟩ := next
        obtain ⟨rfl, -, -⟩ := decodeNext_eq_ok C h
        exact ih _ (by omega) _
    · exact ⟨_, rfl, nofun⟩

/-! ### What was written is read -/

/-- The bytes of a record that serializes. -/
def RollupLibs.data (r : HourlyRollupRecord) : Bytes := (C.ser r).toOption.getD []

/-- A record that serializes to less than 4 GiB. -/
def RollupLibs.Small (r : HourlyRollupRecord) : Prop := ∃ data, C.ser r = .ok data ∧
    data.length < 2 ^ 32

variable {C}

theorem RollupLibs.Small.ser_eq (h : C.Small r) : C.ser r = .ok (C.data r) := by
  obtain ⟨data, hdata, -⟩ := h
  rw [RollupLibs.data, hdata]
  rfl

theorem RollupLibs.Small.length_lt (h : C.Small r) : (C.data r).length < 2 ^ 32 := by
  obtain ⟨data, hdata, hlen⟩ := h
  rwa [RollupLibs.data, hdata]

/-- The file has a frame for each record. -/
theorem foldlM_writeRecord (h : ∀ r ∈ records, C.Small r) (w : RollupSegmentWriter) :
    records.foldlM (RollupSegmentWriter.writeRecord C) w =
      .ok ⟨w.bytes ++ records.flatMap fun r => frame (C.data r), w.rowCount + records.length⟩ := by
  induction records generalizing w with
  | nil => simp [pure, Except.pure]
  | cons r records ih =>
    have hr : w.writeRecord C r = .ok ⟨w.bytes ++ frame (C.data r), w.rowCount + 1⟩ := by
      rw [RollupSegmentWriter.writeRecord, (h r mem_cons_self).ser_eq]
      rfl
    rw [foldlM_cons, hr]
    refine (ih (fun r hr => h r (mem_cons_of_mem _ hr)) _).trans ?_
    rw [flatMap_cons, append_assoc, length_cons, Nat.add_assoc, Nat.add_comm 1]

/-- A turn decodes the frame at its offset. -/
theorem decodeNext_frame {data : Bytes} (hlen : data.length < 2 ^ 32) (front rest : Bytes) :
    decodeNext C (front ++ (frame data ++ rest)) front.length =
      (C.de data).mapError .library >>= fun record =>
        .ok (record, front.length + (frame data).length) := by
  have hframe : (frame data).length = 4 + data.length := by simp [frame]
  have hat : lenAt (front ++ (frame data ++ rest)) front.length = data.length := by
    rw [lenAt, drop_left, frame, append_assoc, take_left' (length_leBytes 4 _), ofLe_leBytes_of_lt hlen]
  have hdata : ((front ++ (frame data ++ rest)).drop (front.length + 4)).take data.length = data := by
    rw [← drop_drop, drop_left, frame, append_assoc, drop_left' (length_leBytes 4 _), take_left]
  rw [decodeNext_eq, hat, hdata, if_neg (by simp [hframe]; omega), if_neg (by simp [hframe]; omega),
    hframe, Nat.add_assoc]

/-- **The loop reads the frames that are left.** -/
theorem decodeLoop_frames (hC : C.Lawful U)
    (hU : ∀ r ∈ records, r ∈ U) (hsmall : ∀ r ∈ records, C.Small r) (front : Bytes)
    (acc : List HourlyRollupRecord) (hfuel : records.length < fuel) :
    decodeLoop C (front ++ records.flatMap
      fun r => frame (C.data r)) fuel front.length acc = some (.ok (acc ++ records)) := by
  induction records generalizing front acc fuel with
  | nil =>
    obtain ⟨fuel, rfl⟩ := Nat.exists_eq_add_of_lt hfuel
    simp [decodeLoop]
  | cons r records ih =>
    have hr := hsmall r mem_cons_self
    obtain ⟨fuel, rfl⟩ := Nat.exists_eq_add_of_lt hfuel
    have hnext := decodeNext_frame (C := C) hr.length_lt front
      (records.flatMap fun r => frame (C.data r))
    rw [hC r (hU r mem_cons_self) _ hr.ser_eq] at hnext
    have hturns : records.length < (r :: records).length + fuel := by
      rw [length_cons]
      omega
    have hrest :=
      ih (fun r hr => hU r (mem_cons_of_mem _ hr)) (fun r hr => hsmall r (mem_cons_of_mem _ hr))
      (front ++ frame (C.data r)) (acc ++ [r]) hturns
    rw [append_assoc, length_append, append_assoc, singleton_append] at hrest
    rw [flatMap_cons, decodeLoop, if_pos (by simp [frame]), hnext]
    exact hrest

/-- A frame has four bytes at least, so the bytes of a file are turns enough for its records. -/
theorem length_le_frames (data : HourlyRollupRecord → Bytes) (records : List HourlyRollupRecord) :
    records.length ≤ (records.flatMap fun r => frame (data r)).length := by
  induction records with
  | nil => simp
  | cons r records ih =>
    have hframe : (frame (data r)).length = 4 + (data r).length := by simp [frame]
    rw [flatMap_cons, length_append, length_cons, hframe]
    omega

/-- **Opening what was written gives the records.** -/
theorem open_writeAll (hC : C.Lawful U)
    (hU : ∀ r ∈ records, r ∈ U) (hsmall : ∀ r ∈ records, C.Small r) :
    ∃ w, writeAll C records = .ok w ∧ w.finish X = (records.length, X.checksum w.bytes) ∧
      ∀ fuel, w.bytes.length < fuel →
        RollupSegmentReader.open C X fuel w.bytes (X.checksum w.bytes) = some (.ok ⟨records, 0⟩) := by
  refine ⟨_, foldlM_writeRecord hsmall .new, ?_, ?_⟩
  · simp [RollupSegmentWriter.finish, RollupSegmentWriter.new]
  · intro fuel hfuel
    have hloop := decodeLoop_frames hC hU hsmall [] []
      (lt_of_le_of_lt (length_le_frames C.data records) hfuel)
    rw [RollupSegmentReader.open, if_neg (not_not.2 rfl)]
    exact congrArg (Option.map _) hloop

/-- What a query does with the reader, or without one. -/
def recordsOf : Option (Except (RollupError ε) RollupSegmentReader) → List HourlyRollupRecord
  | some (.ok reader) => reader.intoRecords
  | _ => []

/-- **A query finds in the file what the model has on disk**: for a segment whose file was written
with its records, and whose checksum is that of the file. -/
theorem rollupRecords_eq_open (hC : C.Lawful U) {d : Disk} {m : SegmentMeta}
    (hd : d.rseg m.segmentId = some records) (hU : ∀ r ∈ records, r ∈ U)
    (hsmall : ∀ r ∈ records, C.Small r) {w : RollupSegmentWriter} (hw : writeAll C records = .ok w)
    (hsum : X.rollupChecksum records = (w.finish X).2) (hfuel : w.bytes.length < fuel) :
    d.rollupRecords X m = recordsOf (RollupSegmentReader.open C X fuel w.bytes m.checksum) := by
  obtain ⟨w', hw', -, hopen⟩ := open_writeAll X hC hU hsmall
  cases hw.symm.trans hw'
  rw [Disk.rollupRecords, hd]
  show (if X.rollupChecksum records = m.checksum then records else []) = _
  rw [hsum, RollupSegmentWriter.finish]
  by_cases hsame : X.checksum w.bytes = m.checksum
  · rw [← hsame, hopen fuel hfuel, if_pos rfl]
    rfl
  · rw [RollupSegmentReader.open, if_pos hsame, if_neg hsame]
    rfl

end File

/-! ### How `bincode` writes a record -/

/-- Why `bincode` could not decode. -/
inductive BincodeError where
  /-- The bytes end too early. -/
  | unexpectedEof
  /-- A text that is not UTF-8. -/
  | invalidUtf8Encoding
  /-- An option that is neither 0 nor 1. -/
  | invalidTagEncoding (tag : UInt8)
  /-- A field of the record is not there. -/
  | invalidLength (index : ℕ)
  deriving DecidableEq

namespace Bincode

theorem pow_eight : 256 ^ 8 = 2 ^ (63 + 1) := by norm_num

theorem pow_sixteen : 256 ^ 16 = 2 ^ (127 + 1) := by norm_num

/-- `i64`. -/
def i64 : Format BincodeError I64 := .signed 63 8 pow_eight .unexpectedEof

/-- `i64`, for the hour of a record. -/
def hour : Format BincodeError ℤ := i64.integer fun _ => trivial

/-- `i128`. -/
def i128 : Format BincodeError I128 := .signed 127 16 pow_sixteen .unexpectedEof

/-- `u64`. -/
def u64 : Format BincodeError ℕ := .le 8 .unexpectedEof

/-- The text of some bytes. -/
def ofUtf8 (bytes : Bytes) : Except BincodeError String :=
  (String.fromUTF8? ⟨bytes.toArray⟩).elim (.error .invalidUtf8Encoding) .ok

theorem ofUtf8_utf8 (s : String) : ofUtf8 (utf8 s) = .ok s := by
  rw [ofUtf8, fromUTF8?_utf8]
  rfl

theorem utf8_of_ofUtf8 {s : String} (h : ofUtf8 bytes = .ok s) : utf8 s = bytes := by
  cases hs : String.fromUTF8? ⟨bytes.toArray⟩ with
  | none =>
    rw [ofUtf8, hs] at h
    cases h
  | some t =>
    rw [ofUtf8, hs] at h
    cases h
    exact utf8_of_fromUTF8? hs

/-- `String`: its UTF-8 bytes after their number, a `u64`. -/
def string : Format BincodeError String :=
  (Format.counted 8 .unexpectedEof).via utf8 ofUtf8 (fun s => (utf8 s).length < 256 ^ 8)
    (fun s hs => ⟨hs, ofUtf8_utf8 s⟩)
    (fun _ _ hbytes h => ⟨lt_of_eq_of_lt (congrArg _ (utf8_of_ofUtf8 h)) hbytes, utf8_of_ofUtf8 h⟩)

/-- `Option<String>`. -/
def optionString : Format BincodeError (Option String) :=
  string.option .unexpectedEof .invalidTagEncoding

/-- The fields of a record, in the order in which they are declared. -/
abbrev Fields :=
  String × Option String × String × String × Option String × String × String × ℤ × String ×
    I128 × ℕ × I64 × I64

/-- The fields of `HourlyRollupRecord`. -/
def fieldsOf (r : HourlyRollupRecord) : Fields :=
  (r.key.accountId, r.key.subscriptionId, r.key.productId, r.key.meterId, r.key.modelId,
    r.key.source, r.key.unit,
    r.key.hourStartMs, r.key.dimensionsCanonical, r.quantitySum, r.eventCount, r.firstEventMs,
      r.lastEventMs)

/-- The record with these fields. -/
def ofFields : Fields → HourlyRollupRecord
  | (accountId, subscriptionId, productId, meterId, modelId, source, unit, hourStartMs,
      dimensionsCanonical, quantitySum, eventCount, firstEventMs, lastEventMs) =>
    { key := { accountId, subscriptionId, productId, meterId, modelId, source, unit, hourStartMs,
               dimensionsCanonical }
      quantitySum, eventCount, firstEventMs, lastEventMs }

/-- One field after another. -/
def fields : Format BincodeError Fields :=
  string.pair <| optionString.pair <| string.pair <| string.pair <|
    optionString.pair <| string.pair <| string.pair <|
    hour.pair <| string.pair <| i128.pair <| u64.pair <| i64.pair i64

/-- `HourlyRollupRecord`. -/
def record : Format BincodeError HourlyRollupRecord :=
  fields.via fieldsOf (fun x => .ok (ofFields x)) (fun r => fields.Fits (fieldsOf r))
    (fun _ h => ⟨h, rfl⟩) (fun _ _ h heq => Except.ok.inj heq ▸ ⟨h, rfl⟩)

/-- The texts of a record. -/
def texts (r : HourlyRollupRecord) : List String :=
  [r.key.accountId, r.key.productId, r.key.meterId, r.key.source, r.key.unit,
    r.key.dimensionsCanonical] ++ r.key.subscriptionId.toList ++ r.key.modelId.toList

/-- The records of the program: their hour is an `i64`, their count a `u64`, and a text is shorter
than any memory. -/
theorem fits_record (htexts : ∀ s ∈ texts r, (utf8 s).length < 256 ^ 8)
    (hhour : InRange 63 r.key.hourStartMs) (hcount : r.eventCount < 256 ^ 8) : record.Fits r := by
  have htext : ∀ s ∈ texts r, string.Fits s := htexts
  have hsubscription : ∀ s ∈ r.key.subscriptionId, s ∈ texts r := by
    intro s hs
    simp [texts, Option.mem_def.1 hs]
  have hmodel : ∀ s ∈ r.key.modelId, s ∈ texts r := by
    intro s hs
    simp [texts, Option.mem_def.1 hs]
  exact ⟨htext _ (by simp [texts, fieldsOf]), fun s hs => htext s (hsubscription
    s hs), htext _ (by simp [texts, fieldsOf]),
    htext _ (by simp [texts, fieldsOf]),
      fun s hs => htext s (hmodel s hs), htext _ (by simp [texts, fieldsOf]),
    htext _ (by simp [texts, fieldsOf]), hhour, htext _ (by simp [texts, fieldsOf]), trivial,
      hcount, trivial, trivial⟩

/-- `visit_seq` of the derived `Deserialize`. -/
def visitSeq : StateT ℕ (Parser BincodeError) HourlyRollupRecord := do
  let accountId ← requiredField string.parse (.invalidLength 0)
  let subscriptionId ← requiredField optionString.parse (.invalidLength 1)
  let productId ← requiredField string.parse (.invalidLength 2)
  let meterId ← requiredField string.parse (.invalidLength 3)
  let modelId ← requiredField optionString.parse (.invalidLength 4)
  let source ← defaultField string.parse ""
  let unit ← defaultField string.parse ""
  let hourStartMs ← requiredField hour.parse (.invalidLength 7)
  let dimensionsCanonical ← requiredField string.parse (.invalidLength 8)
  let quantitySum ← requiredField i128.parse (.invalidLength 9)
  let eventCount ← requiredField u64.parse (.invalidLength 10)
  let firstEventMs ← requiredField i64.parse (.invalidLength 11)
  let lastEventMs ← requiredField i64.parse (.invalidLength 12)
  return {
    key :=
      { accountId, subscriptionId, productId, meterId, modelId, source, unit, hourStartMs,
        dimensionsCanonical }
    quantitySum, eventCount, firstEventMs, lastEventMs }

/-- `deserialize_struct`: the visitor is promised the 13 fields of the type. -/
def deserializeStruct : Parser BincodeError HourlyRollupRecord := visitSeq.run' 13

/-- **Every field is read, and no default applies.** -/
theorem deserializeStruct_eq : deserializeStruct = record.parse := by
  simp only [deserializeStruct, visitSeq, StateT.run'_eq, StateT.run_bind, run_requiredField_succ,
    run_defaultField_succ,
    bind_map_left, StateT.run_pure, map_bind, map_pure, record, fields, Format.via, Format.pair,
      bind_assoc, pure_bind,
    ofFields]
  rfl

/-- `bincode` for records; bytes after a record are allowed. -/
def libs : RollupLibs BincodeError where
  ser r := .ok (record.print r)
  de bytes := (deserializeStruct.run bytes).map (·.1)

theorem libs_de (bytes : Bytes) : libs.de bytes = (record.parse.run bytes).map (·.1) := by
  rw [← deserializeStruct_eq]
  rfl

theorem libs_de_eq_ok :
    libs.de bytes = .ok r ↔ ∃ rest, record.parse.run bytes = .ok (r, rest) := by
  rw [libs_de]
  cases record.parse.run bytes with
  | error err =>
    constructor
    · nofun
    · rintro ⟨rest, h⟩
      cases h
  | ok x =>
    constructor
    · intro h
      cases h
      exact ⟨x.2, rfl⟩
    · rintro ⟨rest, h⟩
      cases h
      rfl

theorem lawful_libs : libs.Lawful {r | record.Fits r} := by
  intro r hr data hdata
  have hparse := record.parses hr []
  rw [append_nil, Except.ok.inj hdata] at hparse
  exact libs_de_eq_ok.2 ⟨[], hparse⟩

end Bincode

/-! ### The file format -/

/-- **The file of a rollup segment.** The records that were written, each of them in less than 4
GiB, are read under the checksum that `finish` returned; and on any bytes, with turns enough, `open`
returns records or an error and does not panic. -/
theorem rollup_file_round_trip (C : RollupLibs ε) (X : Extern) (hC : C.Lawful U) :
    (∀ records : List HourlyRollupRecord, (∀ r ∈ records, r ∈ U ∧ ∃ data, C.ser r = .ok data ∧
      data.length < 2 ^ 32) → ∃ w, writeAll C records = .ok w ∧ (w.finish X).1 = records.length ∧
        ∀ fuel, w.bytes.length < fuel →
          (RollupSegmentReader.open C X fuel w.bytes (w.finish X).2).map (·.map (·.intoRecords)) =
            some (.ok records)) ∧
    ∀ (bytes : Bytes) (expectedChecksum : BitVec 64) (fuel : ℕ), bytes.length < fuel →
      ∃ result, RollupSegmentReader.open C X fuel bytes expectedChecksum = some result ∧
      result ≠ .error .panic := by
  constructor
  · intro records h
    obtain ⟨w, hw, hfinish, hopen⟩ :=
      open_writeAll X hC (fun r hr => (h r hr).1) (fun r hr => (h r hr).2)
    refine ⟨w, hw, by rw [hfinish], fun fuel hfuel => ?_⟩
    rw [hfinish, hopen fuel hfuel]
    rfl
  · intro bytes expectedChecksum fuel hfuel
    rw [RollupSegmentReader.open]
    split_ifs with hsum
    · exact ⟨_, rfl, nofun⟩
    · obtain ⟨result, hresult, hne⟩ := exists_decodeLoop C bytes 0 hfuel []
      rw [hresult]
      refine ⟨_, rfl, ?_⟩
      cases result with
      | error err =>
        intro h
        cases h
        exact hne rfl
      | ok records => nofun

/-- A record of the first hour of 2024. -/
def sampleRecord (account : String) : HourlyRollupRecord where
  key :=
    { accountId := account
      subscriptionId := none
      productId := "api"
      meterId := "calls"
      modelId := some "m1"
      source := "gateway"
      unit := "call"
      hourStartMs := 1704067200000
      dimensionsCanonical := "\x7b\"inner\":\x7b\x7d\x7d" }
  quantitySum := SInt.wrap 127 42
  eventCount := 3
  firstEventMs := SInt.wrap 63 1704067200001
  lastEventMs := SInt.wrap 63 1704067260000

/-- Two records. -/
def sampleRecords : List HourlyRollupRecord := [sampleRecord "acme", sampleRecord "umbra"]

theorem fits_sampleRecords : ∀ r ∈ sampleRecords, Bincode.record.Fits r := by
  have htexts : ∀ r ∈ sampleRecords, ∀ s ∈ Bincode.texts r, (utf8 s).length <
    256 ^ 8 := by decide +kernel
  have hhour : ∀ r ∈ sampleRecords, InRange 63 r.key.hourStartMs := by decide +kernel
  have hcount : ∀ r ∈ sampleRecords, r.eventCount < 256 ^ 8 := by decide +kernel
  exact fun r hr => Bincode.fits_record (htexts r hr) (hhour r hr) (hcount r hr)

theorem rollup_file_round_trip_of_two :
    ∃ w, writeAll Bincode.libs sampleRecords = .ok w ∧ (w.finish .sample).1 = 2 ∧
      (RollupSegmentReader.open Bincode.libs .sample (w.bytes.length + 1)
        w.bytes (w.finish .sample).2).map
        (·.map (·.intoRecords)) = some (.ok sampleRecords) := by
  have hsmall : ∀ r ∈ sampleRecords, (Bincode.record.print r).length < 2 ^ 32 := by decide +kernel
  obtain ⟨w, hw, hcount, hopen⟩ := (rollup_file_round_trip Bincode.libs .sample
    Bincode.lawful_libs).1 sampleRecords fun r hr => ⟨fits_sampleRecords r hr, _, rfl, hsmall r hr⟩
  exact ⟨w, hw, hcount, hopen _ (Nat.lt_succ_self _)⟩

end UsageDb
