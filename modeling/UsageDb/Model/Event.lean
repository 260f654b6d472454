import UsageDb.Lib.Word
import Mathlib.Data.String.Basic

/-!
# Usage events

The data model (`src/model`, `src/rollup/hourly.rs`): a `UsageEvent` with its ids,
kind, quantity and dimensions, and the hourly record events are rolled up into. The
newtypes around `String` (`EventId`, `AccountId`, …) are plain strings here.
-/

namespace UsageDb

open Lib

/-- `EventKind`. -/
inductive EventKind where
  /-- Metered use. -/
  | usage
  /-- A change to an earlier event. -/
  | correction
  /-- A withdrawal of an earlier event. -/
  | retraction
  deriving DecidableEq, Repr

/-- `CorrectionRef`. -/
structure CorrectionRef where
  /-- The event that is corrected. -/
  originalEventId : String
  /-- Why. -/
  reason : String
  deriving DecidableEq, Repr

/-- `SmallDimensions`: a map from strings to strings in key order (`BTreeMap`). -/
structure SmallDimensions where
  /-- The entries. -/
  inner : List (String × String)
  /-- The keys ascend, so each key occurs once and a map has one representation. -/
  sorted : inner.Pairwise fun x y => x.1 < y.1
  deriving DecidableEq

namespace SmallDimensions

/-- No dimensions. -/
def new : SmallDimensions := ⟨[], .nil⟩

/-- The value at a key. -/
def get (d : SmallDimensions) (k : String) : Option String :=
  (d.inner.find? fun x => x.1 = k).map (·.2)

end SmallDimensions

/-- `UsageEvent`. -/
structure UsageEvent where
  eventId : String
  kind : EventKind
  correctionRef : Option CorrectionRef
  accountId : String
  subscriptionId : Option String
  productId : String
  meterId : String
  /-- `timestamp_ms`: when the usage happened. -/
  timestampMs : I64
  quantity : I128
  unit : String
  source : String
  modelId : Option String
  dimensions : SmallDimensions
  /-- `ingested_at_ms`: when the server accepted the event. -/
  ingestedAtMs : I64
  deriving DecidableEq

/-- The UTF-8 bytes of a string. -/
def utf8 (s : String) : Bytes := s.toUTF8.data.toList

/-- A text is read back from its bytes. -/
theorem fromUTF8?_utf8 (s : String) : String.fromUTF8? ⟨(utf8 s).toArray⟩ = some s :=
  dif_pos s.isValidUTF8

/-- A text is read only from its bytes. -/
theorem utf8_of_fromUTF8? {p : Bytes} {s : String} (h : String.fromUTF8? ⟨p.toArray⟩ = some s) :
    utf8 s = p := by
  rw [String.fromUTF8?] at h
  split at h
  · cases h
    simp [utf8, String.fromUTF8]
  · cases h

/-- The characters that `str::trim` removes: those with the Unicode property `White_Space`. -/
def isWhiteSpace (c : Char) : Bool :=
  let n := c.toNat
  9 ≤ n && n ≤ 13 || n = 0x20 || n = 0x85 || n = 0xA0 || n = 0x1680 || 0x2000 ≤ n && n ≤
    0x200A || n = 0x2028 ||
    n = 0x2029 || n = 0x202F || n = 0x205F || n = 0x3000

/-- `EventHash`: a `u128`. -/
abbrev EventHash := BitVec 128

namespace UsageEvent

/-- The event as it is hashed: without the time the server stamped on it. -/
def payload (e : UsageEvent) : UsageEvent := { e with ingestedAtMs := 0 }

/-- The event with the server's time on it. -/
def stamp (e : UsageEvent) (now : I64) : UsageEvent := { e with ingestedAtMs := now }

@[simp] theorem stamp_eventId (e : UsageEvent) (now : I64) : (e.stamp now).eventId = e.eventId := rfl

@[simp] theorem stamp_payload (e : UsageEvent) (now : I64) : (e.stamp now).payload = e.payload := rfl

@[simp] theorem payload_eventId (e : UsageEvent) : e.payload.eventId = e.eventId := rfl

/-- The hour the event falls in: `(timestamp_ms / 3_600_000) * 3_600_000`, the division
rounding towards zero as Rust's does. -/
def hourMs (e : UsageEvent) : ℤ := (e.timestampMs : ℤ).tdiv 3600000 * 3600000

end UsageEvent

/-- `HourlyRollupKey`. -/
structure HourlyRollupKey where
  accountId : String
  subscriptionId : Option String
  productId : String
  meterId : String
  modelId : Option String
  source : String
  unit : String
  hourStartMs : ℤ
  /-- `dimensions_canonical`: the JSON text of the dimensions. -/
  dimensionsCanonical : String
  deriving DecidableEq

/-- `HourlyRollupRecord`. -/
structure HourlyRollupRecord where
  /-- The fields it shares with its key. -/
  key : HourlyRollupKey
  quantitySum : I128
  eventCount : ℕ
  firstEventMs : I64
  lastEventMs : I64
  deriving DecidableEq

end UsageDb
