import UsageDb.Rollup.File

/-!
# Rollup records from before `source` and `unit`

`HourlyRollupRecord` has `#[serde(default)]` on `source` and `unit`, so that segments written before
the two fields were added still deserialize (`src/rollup/hourly.rs`). `bincode` has no names of
fields and no end of a record: the visitor is promised the 13 fields of the type, and a default
applies only when it is told that there are no more (`Bincode.deserializeStruct_eq`). So the bytes
after `model_id` are taken for the length of `source`: they are those of `hour_start_ms`.

A record with two empty texts has 16 bytes more than the old layout had, and is not read from fewer
(`Lib.Format.length_print_le`): no file of old records is read as promised (`old_records_misread`).
Nearly all are rejected (`open_old_rejected`): the hour would have to be a number of bytes that
there are. -/

namespace UsageDb

open Lib List

namespace Bincode

variable {bytes : Bytes} {fuel : ℕ} {records : List HourlyRollupRecord} {r : HourlyRollupRecord}

/-- The fields of a record before `source` and `unit` were added. -/
abbrev OldFields := String × Option String × String × String × Option String × ℤ × String ×
    I128 × ℕ × I64 × I64

/-- What a record has of them. -/
def oldFieldsOf (r : HourlyRollupRecord) : OldFields :=
  (r.key.accountId, r.key.subscriptionId, r.key.productId, r.key.meterId, r.key.modelId,
    r.key.hourStartMs,
    r.key.dimensionsCanonical, r.quantitySum, r.eventCount, r.firstEventMs, r.lastEventMs)

/-- One field after another. -/
def oldFields : Format BincodeError OldFields :=
  string.pair <| optionString.pair <| string.pair <| string.pair <| optionString.pair <| hour.pair
    <| string.pair <|
    i128.pair <| u64.pair <| i64.pair i64

/-- The bytes of a record in the old layout. -/
def oldPrint (r : HourlyRollupRecord) : Bytes := oldFields.print (oldFieldsOf r)

/-- A segment file of old records. -/
def oldFile (records : List HourlyRollupRecord) : Bytes := records.flatMap fun r => frame (oldPrint r)

/-- The record that the comment on the fields promises. -/
def promised (r : HourlyRollupRecord) : HourlyRollupRecord :=
  { r with key := { r.key with source := "", unit := "" } }

/-- The two empty texts have eight bytes each. -/
theorem length_print_promised (r : HourlyRollupRecord) :
    (record.print (promised r)).length = (oldPrint r).length + 16 := by
  have hempty : (string.print "").length = 8 := by decide +kernel
  have hrecord : record.print (promised r) = fields.print (fieldsOf (promised r)) := rfl
  rw [hrecord, oldPrint]
  simp only [fields, oldFields, Format.pair, fieldsOf, oldFieldsOf, promised, length_append, hempty]
  omega

/-! ### No old record is read as promised -/

variable {X : Extern}

/-- The loop keeps the records it has. -/
theorem prefix_of_decodeLoop {ε : Type} {C : RollupLibs ε} {off : ℕ} {acc : List HourlyRollupRecord}
    (h : decodeLoop C bytes fuel off acc = some (.ok records)) : acc <+: records := by
  induction fuel generalizing off acc with
  | zero => cases h
  | succ fuel ih =>
    rw [decodeLoop] at h
    split_ifs at h with hoff
    · cases hnext : decodeNext C bytes off with
      | error err =>
        rw [hnext] at h
        cases h
      | ok next =>
        rw [hnext] at h
        exact (prefix_append acc [next.1]).trans (ih h)
    · cases h
      exact prefix_refl _

/-- The first record is that of the first turn. -/
theorem decodeNext_of_decodeLoop {ε : Type} {C : RollupLibs ε}
    (h : decodeLoop C bytes fuel 0 [] = some (.ok (r :: records))) :
    ∃ off, decodeNext C bytes 0 = .ok (r, off) := by
  cases fuel with
  | zero => cases h
  | succ fuel =>
    rw [decodeLoop] at h
    split_ifs at h
    · cases hnext : decodeNext C bytes 0 with
      | error err =>
        rw [hnext] at h
        cases h
      | ok next =>
        rw [hnext] at h
        have hhead : next.1 = r := (cons_prefix_cons.1 (prefix_of_decodeLoop h)).1
        exact ⟨next.2, by rw [← hhead]⟩
    · cases h

theorem decodeLoop_of_open {ε : Type} {C : RollupLibs ε} {expectedChecksum : BitVec 64}
    (h : (RollupSegmentReader.open C X fuel bytes expectedChecksum).map (·.map (·.intoRecords)) =
      some (.ok records)) :
    decodeLoop C bytes fuel 0 [] = some (.ok records) := by
  rw [RollupSegmentReader.open] at h
  split_ifs at h
  · cases h
  · cases hloop : decodeLoop C bytes fuel 0 [] with
    | none =>
      rw [hloop] at h
      cases h
    | some result =>
      rw [hloop] at h
      cases result with
      | error err => cases h
      | ok records' =>
        cases h
        rfl

/-- The first turn of the loop takes no more bytes for a record than the old one has. -/
theorem lenAt_oldFile_le (r : HourlyRollupRecord) (records : List HourlyRollupRecord) :
    lenAt (oldFile (r :: records)) 0 ≤ (oldPrint r).length := by
  rw [lenAt, drop_zero, oldFile, flatMap_cons, frame, append_assoc,
    take_left' (length_leBytes 4 _), ofLe_leBytes]
  exact Nat.mod_le _ _

/-- **No file of old records is read as promised**, whatever the records are. -/
theorem old_records_misread (X : Extern) (r : HourlyRollupRecord)
    (records : List HourlyRollupRecord) (fuel : ℕ) :
    (RollupSegmentReader.open libs X fuel (oldFile (r :: records))
      (X.checksum (oldFile (r :: records)))).map
      (·.map (·.intoRecords)) ≠ some (.ok ((r :: records).map promised)) := by
  intro h
  obtain ⟨off, hnext⟩ := decodeNext_of_decodeLoop (decodeLoop_of_open h)
  obtain ⟨-, -, hde⟩ := decodeNext_eq_ok libs hnext
  obtain ⟨rest, hrun⟩ := libs_de_eq_ok.1 hde
  -- the promised record has more bytes than there are
  have hlong := record.length_print_le hrun
  have hlen := lenAt_oldFile_le r records
  rw [length_print_promised, length_take] at hlong
  omega

/-! ### Nearly every old record is rejected -/

/-- The number that the eight bytes of an hour are: itself, or one of more than 63 bits. -/
theorem lt_bitsOf_wrap {h : ℤ} {n : ℕ} (hrange : InRange 63 h) (hn : h < 0 ∨ n < h)
    (hsmall : n < 2 ^ 63) :
    n < Format.bitsOf 63 (SInt.wrap 63 h) := by
  obtain ⟨hlo, hhi⟩ := hrange
  have hbits := Format.natCast_bitsOf (SInt.wrap 63 h)
  rw [SInt.wrap_of_inRange ⟨hlo, hhi⟩] at hbits
  omega

/-- The bytes of an old record after its hour. -/
def oldTail (r : HourlyRollupRecord) : Bytes :=
  (string.pair <| i128.pair <| u64.pair <| i64.pair i64).print
    (r.key.dimensionsCanonical, r.quantitySum, r.eventCount, r.firstEventMs, r.lastEventMs)

theorem length_oldTail (r : HourlyRollupRecord) : (oldTail r).length = 48 +
    (utf8 r.key.dimensionsCanonical).length := by
  have hstring : ∀ s, (string.print s).length = 8 + (utf8 s).length := fun s => length_append
  have hi64 : ∀ x, (i64.print x).length = 8 := fun x => length_leBytes 8 _
  have hi128 : ∀ x, (i128.print x).length = 16 := fun x => length_leBytes 16 _
  have hu64 : ∀ x, (u64.print x).length = 8 := length_leBytes 8
  simp only [oldTail, Format.pair, length_append, hstring, hi64, hi128, hu64]
  omega

theorem length_oldTail_le (r : HourlyRollupRecord) : (oldTail r).length ≤ (oldPrint r).length := by
  simp only [oldTail, oldPrint, oldFields, oldFieldsOf, Format.pair, length_append]
  omega

/-- After the fields that are where they were, the hour is taken for the number of bytes of
`source`. -/
theorem de_oldPrint (hfits : oldFields.Fits (oldFieldsOf r)) (hsmall : (oldPrint r).length < 2 ^ 32)
    (hhour : r.key.hourStartMs < 0 ∨ 48 + ((utf8 r.key.dimensionsCanonical).length : ℤ) <
      r.key.hourStartMs) :
    libs.de (oldPrint r) = .error .unexpectedEof := by
  obtain ⟨haccount, hsubscription, hproduct, hmeter, hmodel, hrange, -⟩ := hfits
  have hrun : record.parse.run (oldPrint r) = .error .unexpectedEof := by
    apply Format.run_via_error
    apply Format.run_pair_error_right haccount
    apply Format.run_pair_error_right hsubscription
    apply Format.run_pair_error_right hproduct
    apply Format.run_pair_error_right hmeter
    apply Format.run_pair_error_right hmodel
    apply Format.run_pair_error_left
    apply Format.run_via_error
    apply Format.run_counted_error
    · exact (Format.bitsOf_lt _).trans_eq pow_eight.symm
    · have htail := length_oldTail r
      have hle := length_oldTail_le r
      have hfollow : r.key.hourStartMs < 0 ∨ ((oldTail r).length : ℤ) < r.key.hourStartMs := by omega
      exact lt_bitsOf_wrap (n := (oldTail r).length) hrange hfollow (by omega)
  rw [libs_de, hrun]
  rfl

/-- **A file of old records is rejected**, unless the hour of its first record is a number of bytes
that follow it. -/
theorem open_old_rejected (hfits : oldFields.Fits (oldFieldsOf r))
    (hsmall : (oldPrint r).length < 2 ^ 32)
    (hhour : r.key.hourStartMs < 0 ∨ 48 + ((utf8 r.key.dimensionsCanonical).length : ℤ) <
      r.key.hourStartMs)
    (records : List HourlyRollupRecord) (hfuel : 0 < fuel) :
    RollupSegmentReader.open libs X fuel (oldFile (r :: records))
      (X.checksum (oldFile (r :: records))) = some (.error (.library .unexpectedEof)) := by
  have hnext : decodeNext libs (oldFile (r :: records)) 0 = .error (.library .unexpectedEof) := by
    have hframe := decodeNext_frame (C := libs) hsmall [] (oldFile records)
    rw [de_oldPrint hfits hsmall hhour] at hframe
    exact hframe
  have hlength : 0 < (oldFile (r :: records)).length := by simp [oldFile, frame]
  obtain ⟨fuel, rfl⟩ := Nat.exists_eq_add_of_lt hfuel
  rw [RollupSegmentReader.open, if_neg (not_not.2 rfl), decodeLoop, if_pos hlength, hnext]
  rfl

/-- The first hour of 2024, in the old layout: the reader looks for 1704067200000 bytes of
`source`. -/
theorem sample_record_rejected :
    let file := oldFile [sampleRecord "acme"]
    RollupSegmentReader.open libs .sample (file.length + 1) file (Extern.sample.checksum file) =
        some (.error (.library .unexpectedEof)) ∧
      (RollupSegmentReader.open libs .sample (file.length + 1) file (Extern.sample.checksum file)).map
        (·.map (·.intoRecords)) ≠ some (.ok [promised (sampleRecord "acme")]) := by
  intro file
  have hrejected :
      RollupSegmentReader.open libs .sample (file.length + 1) file (Extern.sample.checksum file) =
      some (.error (.library .unexpectedEof)) := by
    have hfits := fits_sampleRecords (sampleRecord "acme") mem_cons_self
    obtain ⟨h1, h2, h3, h4, h5, -, -, hrest⟩ := hfits
    exact open_old_rejected ⟨h1, h2, h3, h4, h5, hrest⟩ (by decide +kernel) (by decide +kernel) []
      (Nat.succ_pos _)
  rw [hrejected]
  exact ⟨rfl, nofun⟩

end Bincode

end UsageDb
