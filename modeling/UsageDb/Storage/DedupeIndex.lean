import UsageDb.Runtime.State
import UsageDb.Storage.SegmentRoundTrip

/-!
# The dedupe sidecar

`src/storage/dedupe_index.rs`: beside a raw segment lies a file with the hashes and the time of
ingestion of every row, in the order of the rows. A sidecar that is not there, or that fails one
of the checks of `read_dedupe_index`, is made up for by a scan of the segment.

`readDedupeIndex_write` is the round trip. `readRows` is the loop over `read_next` of the scan; it
gives the rows a reader yields (`readRows_of_yields`).
-/

namespace UsageDb

open Lib List

/-- `bincode`, for the entries of a sidecar; an error is its text. -/
structure IndexLibs where
  /-- `bincode::serialize`. -/
  ser : List IndexEntry → Except String Bytes
  /-- `bincode::deserialize`. -/
  de : Bytes → Except String (List IndexEntry)

/-- What is assumed of it: it decodes what it encodes. -/
def IndexLibs.Lawful (I : IndexLibs) : Prop := ∀ entries, ∃ b, I.ser entries = .ok b ∧
    I.de b = .ok entries

/-- `MAGIC` of a sidecar. -/
def INDEX_MAGIC : Bytes := ascii "UDBIDX01"

/-- `MIN_LEN`: magic, count and checksum. -/
def INDEX_MIN_LEN : ℕ := 8 + 4 + 8

/-- What the checksum of a sidecar is taken of. -/
def indexBody (count : ℕ) (body : Bytes) : Bytes := INDEX_MAGIC ++ leBytes 4 count ++ body

/-- `write_dedupe_index`: the bytes of the file. -/
def writeDedupeIndex (I : IndexLibs) (X : Extern) (entries : List IndexEntry) :
    Except String Bytes := do
  let body ← I.ser entries
  let buf := indexBody (entries.length % 2 ^ 32) body
  return buf ++ leBytes 8 (X.checksum buf).toNat

/-- Why a sidecar is not used. -/
inductive IndexError where
  /-- The file is shorter than magic, count and checksum. -/
  | tooSmall
  /-- It does not begin with the magic. -/
  | missingMagic
  /-- The stored checksum is not that of the rest. -/
  | checksumMismatch (stored computed : ℕ)
  /-- An error of `bincode`. -/
  | library (text : String)
  /-- There are more or fewer entries than the header says. -/
  | countMismatch (header decoded : ℕ)
  deriving DecidableEq

/-- What the reader says, where it is its own text. -/
def IndexError.message : IndexError → Option String
  | .tooSmall => some "corrupt dedupe index: file too small"
  | .missingMagic => some "corrupt dedupe index: missing magic"
  | .checksumMismatch stored computed =>
    some ("corrupt dedupe index: checksum mismatch (stored " ++ hex stored ++ ", computed " ++
      hex computed ++ ")")
  | .library _ => none
  | .countMismatch header decoded =>
    some ("corrupt dedupe index: entry count mismatch (header=" ++ toString header ++
      ", decoded=" ++ toString decoded ++ ")")

/-- `read_dedupe_index`, for the bytes of the file, `none` when there is none. -/
def readDedupeIndex (I : IndexLibs) (X : Extern) : Option Bytes →
    Except IndexError (Option (List IndexEntry))
  | none => .ok none
  | some bytes =>
    if bytes.length < INDEX_MIN_LEN then .error .tooSmall
    else if bytes.take INDEX_MAGIC.length ≠ INDEX_MAGIC then .error .missingMagic
    else
      let body := bytes.take (bytes.length - 8)
      let stored := ofLe (bytes.drop (bytes.length - 8))
      let computed := (X.checksum body).toNat
      if computed ≠ stored then .error (.checksumMismatch stored computed)
      else
        let count := ofLe ((bytes.drop INDEX_MAGIC.length).take 4)
        match I.de (body.drop (INDEX_MAGIC.length + 4)) with
        | .error text => .error (.library text)
        | .ok entries =>
          if entries.length ≠ count then .error (.countMismatch count entries.length) else .ok
            (some entries)

variable {I : IndexLibs} {X : Extern}

/-- **A sidecar is read back.** -/
theorem readDedupeIndex_write (hI : I.Lawful) (X : Extern) (entries : List IndexEntry)
    (hlen : entries.length < 2 ^ 32) :
    ∃ file, writeDedupeIndex I X entries = .ok file ∧
      readDedupeIndex I X (some file) = .ok (some entries) := by
  obtain ⟨b, hser, hde⟩ := hI entries
  refine ⟨_, by rw [writeDedupeIndex, hser]; rfl, ?_⟩
  rw [Nat.mod_eq_of_lt hlen]
  set buf := indexBody entries.length b with hbuf
  have hmagic : INDEX_MAGIC.length = 8 := rfl
  have hbuflen : buf.length = 12 + b.length := by
    simp only [hbuf, indexBody, length_append, length_leBytes, hmagic]
  have hfile : (buf ++ leBytes 8 (X.checksum buf).toNat).length = buf.length + 8 := by
    rw [length_append, length_leBytes]
  have htake :
      (buf ++ leBytes 8 (X.checksum buf).toNat).take
          ((buf ++ leBytes 8 (X.checksum buf).toNat).length - 8) = buf := by
    rw [hfile, Nat.add_sub_cancel, take_left]
  have hdrop : ofLe ((buf ++ leBytes 8 (X.checksum buf).toNat).drop
      ((buf ++ leBytes 8 (X.checksum buf).toNat).length - 8)) = (X.checksum buf).toNat := by
    rw [hfile, Nat.add_sub_cancel, drop_left, ofLe_leBytes_of_lt (X.checksum buf).isLt]
  have hhead : (buf ++ leBytes 8 (X.checksum buf).toNat).take INDEX_MAGIC.length = INDEX_MAGIC := by
    rw [hbuf, indexBody, append_assoc, append_assoc, take_left]
  have hcount : ofLe (((buf ++ leBytes 8 (X.checksum buf).toNat).drop INDEX_MAGIC.length).take 4) =
      entries.length := by
    rw [hbuf, indexBody, append_assoc, append_assoc, drop_left,
      take_left' (length_leBytes 4 entries.length), ofLe_leBytes_of_lt hlen]
  have hbody : buf.drop (INDEX_MAGIC.length + 4) = b := by
    rw [hbuf, indexBody]
    exact drop_left' (by rw [length_append, length_leBytes])
  rw [readDedupeIndex, if_neg (by rw [hfile, hbuflen, INDEX_MIN_LEN]; omega),
    if_neg (by rw [hhead]; exact fun h => h rfl)]
  simp only [htake, hdrop, hcount, hbody, hde, ne_eq, not_true_eq_false, if_false]

/-! ### The scan -/

/-- The loop over `read_next`, which stops at the end or at an error; `n` bounds its turns. -/
def RawSegmentReader.readRows : ℕ → RawSegmentReader → List UsageEvent
  | 0, _ => []
  | n + 1, r =>
    match r.readNext with
    | .ok (some e, r') => e :: readRows n r'
    | _ => []

/-- The scan of a segment file: its reader has a row for every turn but the last. -/
def scanSegment (C : SegmentLibs) (X : Extern) (file : Bytes) : Except SegmentError (List UsageEvent) :=
  (RawSegmentReader.new C X file).map fun r => r.readRows (r.rowCount + 1)

/-- Turns enough give what the reader yields. -/
theorem readRows_of_yields {r : RawSegmentReader} {es : List UsageEvent} (h : r.Yields es) {n : ℕ}
    (hn : es.length < n) :
    r.readRows n = es := by
  induction h generalizing n with
  | done hdone =>
    obtain ⟨n, rfl⟩ := Nat.exists_eq_succ_of_ne_zero (by omega : n ≠ 0)
    rw [RawSegmentReader.readRows, hdone]
  | next hnext _ ih =>
    obtain ⟨n, rfl⟩ := Nat.exists_eq_succ_of_ne_zero (by omega : n ≠ 0)
    rw [RawSegmentReader.readRows, hnext]
    exact congrArg _ (ih (by rw [length_cons] at hn; omega))

/-- A scan gives the rows that were written, if they fit. -/
theorem scanSegment_of_columnsFit {C : SegmentLibs} (hC : C.Lawful) {rows : List UsageEvent}
    (hrows : rows.length < 2 ^ 32)
    (hcols : ColumnsFit C rows) {file : Bytes} {n : ℕ} {checksum : BitVec 64}
    (hfile : finish C X (rows.foldl Columns.writeEvent .new) = .ok (file, n, checksum)) :
    scanSegment C X file = .ok rows := by
  choose z hz hunz using hC.zstd
  rw [foldl_writeEvent, finish_ofEvents hC hrows hz] at hfile
  cases hfile
  rw [scanSegment, new_of_columnsFit hC hrows hunz ((columnsFit_iff hC hz).1 hcols)]
  exact congrArg Except.ok (readRows_of_yields (yields_ofEvents rows (Nat.zero_le _))
    (Nat.lt_succ_self _))

/-- **A scan gives the rows that were written if and only if their columns fit.** -/
theorem scanSegment_iff {C : SegmentLibs} (hC : C.Lawful) (hT : C.Truncates) {rows : List UsageEvent}
    (hrows : rows.length < 2 ^ 32) {file : Bytes} {n : ℕ} {checksum : BitVec 64}
    (hfile : finish C X (rows.foldl Columns.writeEvent .new) = .ok (file, n, checksum)) :
    (ColumnsFit C rows → scanSegment C X file = .ok rows) ∧
      (¬ ColumnsFit C rows → ∃ err, scanSegment C X file = .error err) := by
  refine ⟨fun hcols => scanSegment_of_columnsFit hC hrows hcols hfile, fun hlong => ?_⟩
  choose z hz hunz using hC.zstd
  rw [foldl_writeEvent, finish_ofEvents hC hrows hz] at hfile
  cases hfile
  rw [columnsFit_iff hC hz] at hlong
  push Not at hlong
  obtain ⟨err, herr⟩ := new_error_of_long (X := X) hrows hunz (fun b k hk => hT b (z b) (hz b) k hk)
    (hlong.imp fun x hx => ⟨hx.1, not_lt.2 hx.2⟩)
  exact ⟨err, by rw [scanSegment, herr]; rfl⟩

end UsageDb
