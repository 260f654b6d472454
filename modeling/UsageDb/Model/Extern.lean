import UsageDb.Model.Event

/-!
# What other crates provide

What the program takes from other crates is a field of `Extern`, so that every
statement says over which of these functions it ranges: the digest of `blake3`
read as a little-endian number, `bincode`'s bytes of an event, `serde_json`'s text
of a map of dimensions, and `chrono`'s calendar. The checksums of the two file formats
are here too; nothing but equality with themselves is used of them.

On top of them, the bucket of an account (`src/model/ids.rs`) and the two hashes an
event is deduplicated by (`compute_event_hashes` of `src/runtime/recovery.rs`).
-/

namespace UsageDb

open Lib

/-- What the program calls in other crates and in the compiler. -/
structure Extern where
  /-- `blake3::hash`, its 32 bytes read as a little-endian number. -/
  blake3 : Bytes → BitVec 256
  /-- `bincode::serialize` of an event. -/
  bincode : UsageEvent → Bytes
  /-- `serde_json::to_string` of dimensions. -/
  dimsToJson : SmallDimensions → String
  /-- `serde_json::from_str` of dimensions. -/
  dimsOfJson : String → Option SmallDimensions
  /-- `chrono`'s year and month of a time in milliseconds, `None` outside its range. -/
  yearMonth : I64 → Option (ℤ × ℕ)
  /-- The time in milliseconds at which a month begins, `None` outside `chrono`'s range. -/
  monthStart : ℤ → ℕ → Option I64
  /-- `std::mem::size_of::<UsageEvent>()`. -/
  sizeOfEvent : ℕ
  /-- The checksum that writing a raw segment of these rows returns. -/
  segmentChecksum : List UsageEvent → BitVec 64
  /-- The checksum that writing a rollup segment of these records returns. -/
  rollupChecksum : List HourlyRollupRecord → BitVec 64

namespace Extern

variable (X : Extern)

/-- `blake3_u128`: the first 16 bytes of the digest. -/
def blake3U128 (data : Bytes) : EventHash := (X.blake3 data).setWidth 128

/-- `checksum`: the first 8 bytes of the digest. -/
def checksum (data : Bytes) : BitVec 64 := (X.blake3 data).setWidth 64

/-- `bucket_for_account`: the first 4 bytes of the digest of the name, modulo the number
of buckets. -/
def bucketForAccount (account : String) (bucketCount : ℕ) : ℕ :=
  if bucketCount = 0 then 0 else ((X.blake3 (utf8 account)).setWidth 32).toNat % bucketCount

/-- The hash of an event's id. -/
def idHash (e : UsageEvent) : EventHash := X.blake3U128 (utf8 e.eventId)

/-- The hash of an event's payload. -/
def payloadHash (e : UsageEvent) : EventHash := X.blake3U128 (X.bincode e.payload)

/-- `compute_event_hashes`. -/
def computeEventHashes (e : UsageEvent) : EventHash × EventHash := (X.idHash e, X.payloadHash e)

/-- `period_for_ts`: the year, cast to a `u16`, and the month of a time. -/
def periodForTs (tsMs : I64) : Option (ℕ × ℕ) :=
  (X.yearMonth tsMs).map fun ym => ((ym.1 % 2 ^ 16).toNat, ym.2)

@[simp] theorem idHash_stamp (e : UsageEvent) (now : I64) : X.idHash (e.stamp now) = X.idHash e := rfl

@[simp] theorem payloadHash_stamp (e : UsageEvent) (now : I64) :
    X.payloadHash (e.stamp now) = X.payloadHash e := rfl

theorem idHash_congr {e e' : UsageEvent} (h : e.eventId = e'.eventId) : X.idHash e = X.idHash e' := by
  rw [idHash, idHash, h]

/-- The hashes tell the events of `U` apart: no two ids and no two payloads collide. -/
structure HashesInjective (U : Set UsageEvent) : Prop where
  /-- Different ids, different hashes. -/
  id : ∀ e ∈ U, ∀ e' ∈ U, X.idHash e = X.idHash e' → e.eventId = e'.eventId
  /-- Different payloads, different hashes. -/
  payload : ∀ e ∈ U, ∀ e' ∈ U, X.payloadHash e = X.payloadHash e' → e.payload = e'.payload

/-! ### A stand-in for concrete runs -/

/-- Functions simple enough to compute with: the digest of some bytes is the number they
stand for, so that short texts do not collide. -/
def sample : Extern where
  blake3 data := BitVec.ofNat 256 (ofLe data)
  bincode e := utf8 e.eventId ++ leBytes 16 (e.quantity : ℤ).toNat
  dimsToJson _ := ""
  dimsOfJson _ := some .new
  yearMonth _ := some (1970, 1)
  monthStart _ m := some (SInt.wrap 63 (m * 2678400000))
  sizeOfEvent := 400
  segmentChecksum rows := BitVec.ofNat 64 rows.length
  rollupChecksum records := BitVec.ofNat 64 records.length

end Extern

/-- An event of that kind. -/
def sampleEvent (id account : String) (timestampMs quantity : ℤ) : UsageEvent where
  eventId := id
  kind := .usage
  correctionRef := none
  accountId := account
  subscriptionId := none
  productId := "api"
  meterId := "calls"
  timestampMs := SInt.wrap 63 timestampMs
  quantity := SInt.wrap 127 quantity
  unit := "call"
  source := "gateway"
  modelId := none
  dimensions := .new
  ingestedAtMs := 0

end UsageDb
