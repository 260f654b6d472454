import UsageDb.Lib.Encodings
import UsageDb.Model.Extern

/-!
# The format of raw segments

`src/storage/segment_format.rs`, `segment_writer.rs`, `segment_reader.rs` and the part of
`compression.rs` that they use, over bytes: `finish` makes the file from the columns of the
events, `RawSegmentReader.new` checks a file and decodes its columns, `readNext` puts a row
together.

`bincode`, `zstd`, `lz4` and the allocator are parameters (`SegmentLibs`). The offset of the reader
is the list of the bytes that are left; an index that is out of bounds, where Rust panics, is an
error here (`SegmentError.panic`). The reader asks the allocator for as many values as a column says
it has before it looks at them: more than a vector can hold is a panic, and more than the allocator
gives ends the process (`SegmentError.abort`). Memory for what has been read is taken to be there.
That the reader takes a column out of its map does not show, as it asks for each once.
-/

namespace UsageDb

open Lib

/-! ### The parts of the format -/

/-- The bytes of an ASCII text. -/
def ascii (s : String) : Bytes := s.toList.map fun c => UInt8.ofNat c.toNat

/-- `MAGIC`. -/
def MAGIC : Bytes := ascii "UDBRAW1\n"

/-- `MAGIC_END`. -/
def MAGIC_END : Bytes := ascii "UDBEND01"

/-- `VERSION`. -/
def VERSION : UInt8 := 1

/-- `Encoding`. -/
inductive Encoding where
  /-- `bincode` of the values. -/
  | plain
  /-- The different values, and an index for each row. -/
  | dictionary
  /-- Differences. -/
  | delta
  /-- Numbers of seven bits a byte, with the sign in the lowest bit. -/
  | zigzag
  /-- Runs. -/
  | rle
  deriving DecidableEq, Repr

/-- `encoding as u8`. -/
def Encoding.toByte : Encoding → UInt8
  | .plain => 0
  | .dictionary => 1
  | .delta => 2
  | .zigzag => 3
  | .rle => 4

/-- `Encoding::from_byte`. -/
def Encoding.fromByte (b : UInt8) : Option Encoding :=
  if b = 0 then some .plain
  else if b = 1 then some .dictionary
  else if b = 2 then some .delta
  else if b = 3 then some .zigzag
  else if b = 4 then some .rle
  else none

/-- `Codec`. -/
inductive Codec where
  /-- As it is. -/
  | none
  | zstd
  | lz4
  deriving DecidableEq, Repr

/-- `codec as u8`. -/
def Codec.toByte : Codec → UInt8
  | .none => 0
  | .zstd => 1
  | .lz4 => 2

/-- `Codec::from_byte`. -/
def Codec.fromByte (b : UInt8) : Option Codec :=
  if b = 0 then some .none else if b = 1 then some .zstd else if b = 2 then some .lz4 else Option.none

theorem Encoding.fromByte_toByte (e : Encoding) : fromByte e.toByte = some e := by cases e <;> rfl

theorem Codec.fromByte_toByte (c : Codec) : fromByte c.toByte = some c := by cases c <;> rfl

/-- The types that go through `bincode`. -/
inductive BincodeType where
  /-- `Vec<String>`. -/
  | strings
  /-- `Vec<Option<String>>`. -/
  | optionStrings
  /-- `Vec<Option<CorrectionRef>>`. -/
  | correctionRefs
  /-- `Vec<SmallDimensions>`. -/
  | dimensions
  /-- `(Vec<String>, Vec<u32>)`. -/
  | dictionary
  /-- `(Vec<String>, Vec<Option<u32>>)`. -/
  | optionDictionary
  /-- `Vec<i64>`. -/
  | i64s
  /-- `Vec<i128>`. -/
  | i128s
  /-- `Vec<u8>`. -/
  | bytes
  /-- `Vec<(u8, u32)>`. -/
  | runs

/-- Their values. -/
def BincodeType.Value : BincodeType → Type
  | .strings => List String
  | .optionStrings => List (Option String)
  | .correctionRefs => List (Option CorrectionRef)
  | .dimensions => List SmallDimensions
  | .dictionary => List String × List UInt32
  | .optionDictionary => List String × List (Option UInt32)
  | .i64s => List I64
  | .i128s => List I128
  | .bytes => List UInt8
  | .runs => List (UInt8 × UInt32)

/-- What other crates do to the columns, an error being its text, and the allocator. -/
structure SegmentLibs where
  /-- `bincode::serialize`. -/
  ser : (t : BincodeType) → t.Value → Except String Bytes
  /-- `bincode::deserialize`. -/
  de : (t : BincodeType) → Bytes → Except String t.Value
  /-- `compress` with `zstd`. -/
  compress : Bytes → Except String Bytes
  /-- `decompress` with `zstd`. -/
  decompress : Bytes → Except String Bytes
  /-- `decompress` with `lz4`. -/
  decompressLz4 : Bytes → Except String Bytes
  /-- The most bytes that the allocator gives for one vector. -/
  memory : ℕ

/-- What is assumed of them: they decode what they encode, and there is memory for 2³²
quantities. -/
structure SegmentLibs.Lawful (C : SegmentLibs) : Prop where
  bincode : ∀ t v, ∃ b, C.ser t v = .ok b ∧ C.de t b = .ok v
  zstd : ∀ b, ∃ z, C.compress b = .ok z ∧ C.decompress z = .ok b
  /-- The allocator. -/
  memory : 2 ^ 36 ≤ C.memory

/-- The columns of some events: the vectors of `RawSegmentWriter`, and those of
`RawSegmentReader`. -/
structure Columns where
  eventId : List String
  kind : List UInt8
  correctionRef : List (Option CorrectionRef)
  accountId : List String
  subscriptionId : List (Option String)
  productId : List String
  meterId : List String
  timestampMs : List I64
  quantity : List I128
  unit : List String
  source : List String
  modelId : List (Option String)
  dimensions : List SmallDimensions
  ingestedAtMs : List I64

/-! ### The writer -/

/-- `RawSegmentWriter::new`: no events. -/
def Columns.new : Columns := ⟨[], [], [], [], [], [], [], [], [], [], [], [], [], []⟩

/-- `encode_kind`. -/
def encodeKind : EventKind → UInt8
  | .usage => 0
  | .correction => 1
  | .retraction => 2

/-- `write_event`. -/
def Columns.writeEvent (c : Columns) (e : UsageEvent) : Columns where
  eventId := c.eventId ++ [e.eventId]
  kind := c.kind ++ [encodeKind e.kind]
  correctionRef := c.correctionRef ++ [e.correctionRef]
  accountId := c.accountId ++ [e.accountId]
  subscriptionId := c.subscriptionId ++ [e.subscriptionId]
  productId := c.productId ++ [e.productId]
  meterId := c.meterId ++ [e.meterId]
  timestampMs := c.timestampMs ++ [e.timestampMs]
  quantity := c.quantity ++ [e.quantity]
  unit := c.unit ++ [e.unit]
  source := c.source ++ [e.source]
  modelId := c.modelId ++ [e.modelId]
  dimensions := c.dimensions ++ [e.dimensions]
  ingestedAtMs := c.ingestedAtMs ++ [e.ingestedAtMs]

/-- The bits of an `i128`. -/
def bitsOfI128 (n : I128) : BitVec 128 := BitVec.ofInt 128 n

/-- The `i128` of some bits. -/
def i128OfBits (b : BitVec 128) : I128 := ⟨b.toInt, by
  have hlo := b.le_toInt
  have hhi := b.toInt_lt
  constructor <;> omega⟩

section Writer

variable (C : SegmentLibs)

/-- `encode_dict_strings`. -/
def encodeDictStrings (values : List String) : Except String Bytes :=
  let r := Dict.indexAll UInt32.ofNat values
  C.ser .dictionary (r.1.values, r.2)

/-- `encode_dict_option_strings`. -/
def encodeDictOptionStrings (values : List (Option String)) : Except String Bytes :=
  let r := Dict.indexAllOption UInt32.ofNat values
  C.ser .optionDictionary (r.1.values, r.2)

/-- `encode_delta_i64`. -/
def encodeDeltaI64 (values : List I64) : Except String Bytes :=
  C.ser .i64s (deltas (fun v prev => SInt.wrap 63 ((v : ℤ) - prev)) 0 values)

/-- `encode_zigzag_varint_i128`; an `i128` has at most 19 groups of seven bits. -/
def encodeZigzagVarintI128 (values : List I128) : Bytes :=
  leBytes 4 values.length ++ values.flatMap fun v => varint 19 (zigzag (bitsOfI128 v)).toNat

/-- `encode_rle_u8`. -/
def encodeRleU8 (values : List UInt8) : Except String Bytes :=
  C.ser .runs ((runs (2 ^ 32 - 1) values).map fun r => (r.1, UInt32.ofNat r.2))

/-- `column_chunks`: the columns with their names and encodings, in the order of the file. -/
def columnChunks (c : Columns) : List (String × Encoding × Except String Bytes) :=
  [("event_id", .plain, C.ser .strings c.eventId),
    ("kind", .rle, encodeRleU8 C c.kind),
    ("correction_ref", .plain, C.ser .correctionRefs c.correctionRef),
    ("account_id", .dictionary, encodeDictStrings C c.accountId),
    ("subscription_id", .dictionary, encodeDictOptionStrings C c.subscriptionId),
    ("product_id", .dictionary, encodeDictStrings C c.productId),
    ("meter_id", .dictionary, encodeDictStrings C c.meterId),
    ("timestamp_ms", .delta, encodeDeltaI64 C c.timestampMs),
    ("quantity", .zigzag, .ok (encodeZigzagVarintI128 c.quantity)),
    ("unit", .dictionary, encodeDictStrings C c.unit),
    ("source", .dictionary, encodeDictStrings C c.source),
    ("model_id", .dictionary, encodeDictOptionStrings C c.modelId),
    ("dimensions", .plain, C.ser .dimensions c.dimensions),
    ("ingested_at_ms", .delta, encodeDeltaI64 C c.ingestedAtMs)]

/-- A step on the bytes of a column, which keeps its name and its encoding. -/
def onChunk {β : Type} (f : β → Except String Bytes) (chunk : String × Encoding × β) :
    Except String (String × Encoding × Bytes) := (f chunk.2.2).map fun b => (chunk.1, chunk.2.1, b)

/-- A column in the file. -/
def columnBytes (chunk : String × Encoding × Bytes) : Bytes :=
  leBytes 2 (utf8 chunk.1).length ++ utf8 chunk.1 ++ [chunk.2.1.toByte] ++ [Codec.zstd.toByte] ++
    leBytes 4 chunk.2.2.length ++ chunk.2.2

/-- What the checksum is taken of. -/
def segmentBody (rowCount : ℕ) (chunks : List (String × Encoding × Bytes)) : Bytes :=
  MAGIC ++ [VERSION] ++ leBytes 4 rowCount ++ leBytes 2 chunks.length ++ chunks.flatMap columnBytes

/-- `finish`: the file, and what it returns, the number of rows and the checksum. -/
def finish (X : Extern) (c : Columns) : Except String (Bytes × ℕ × BitVec 64) := do
  let rowCount := c.eventId.length % 2 ^ 32
  let chunks ← (columnChunks C c).mapM (onChunk id)
  let chunks ← chunks.mapM (onChunk C.compress)
  let body := segmentBody rowCount chunks
  return (body ++ leBytes 8 (X.checksum body).toNat ++ MAGIC_END, rowCount, X.checksum body)

end Writer

/-! ### The reader -/

/-- Why a file could not be read. -/
inductive SegmentError where
  /-- The file is shorter than header and footer. -/
  | tooSmall
  /-- It does not end with `MAGIC_END`. -/
  | missingEndMagic
  /-- The stored checksum is not that of the body. -/
  | checksumMismatch (stored computed : ℕ)
  /-- It does not begin with `MAGIC`. -/
  | missingStartMagic
  /-- Another version. -/
  | unsupportedVersion (version : UInt8)
  /-- The body ends inside a number. -/
  | unexpectedEnd
  /-- The body ends inside the name of a column. -/
  | nameOverruns
  /-- The name of a column is not text. -/
  | nameNotUtf8
  /-- An encoding that there is not. -/
  | unknownEncoding (byte : UInt8) (name : String)
  /-- A codec that there is not. -/
  | unknownCodec (byte : UInt8) (name : String)
  /-- The body ends inside a column. -/
  | payloadOverruns (name : String)
  /-- A column is not there. -/
  | missingColumn (name : String)
  /-- A column of a type that is written plain is not. -/
  | expectedPlain (name : String) (encoding : Encoding)
  /-- An encoding that the type of the column does not have. -/
  | wrongEncoding (type name : String) (encoding : Encoding)
  /-- An index outside of the dictionary. -/
  | indexOutOfBounds (index : ℕ) (name : String)
  /-- Too many values in the runs. -/
  | runsOverflow (name : String)
  /-- Quantities without their number. -/
  | missingCount (name : String)
  /-- The column ends inside a quantity. -/
  | varintTruncated (name : String)
  /-- A quantity has too many bits. -/
  | varintOverflow (name : String)
  /-- A column has another number of rows than the header says. -/
  | rowCount (name : String) (rows claimed : ℕ)
  /-- A kind that there is not. -/
  | unknownKind (byte : UInt8)
  /-- An error of `bincode`, `zstd` or `lz4`. -/
  | library (text : String)
  /-- Rust panics: an index is out of bounds, or a vector longer than any is asked for. -/
  | panic
  /-- The process ends: the allocator does not give what is asked for. -/
  | abort
  deriving DecidableEq

/-- `{:?}` of an encoding. -/
def Encoding.debug : Encoding → String
  | .plain => "Plain"
  | .dictionary => "Dictionary"
  | .delta => "Delta"
  | .zigzag => "Zigzag"
  | .rle => "Rle"

/-- `{:#x}`. -/
def hex (n : ℕ) : String := "0x" ++ String.ofList (Nat.toDigits 16 n)

/-- What the reader says, where it is its own text. -/
def SegmentError.message : SegmentError → Option String
  | .tooSmall => some "corrupt segment: file too small to be a segment"
  | .missingEndMagic => some "corrupt segment: missing end magic"
  | .checksumMismatch stored computed =>
    some ("corrupt segment: checksum mismatch (stored " ++ hex stored ++ ", computed " ++
      hex computed ++ ")")
  | .missingStartMagic => some "corrupt segment: missing start magic"
  | .unsupportedVersion version => some ("corrupt segment: unsupported segment version " ++
      toString version)
  | .unexpectedEnd => some "corrupt segment: unexpected end of file"
  | .nameOverruns => some "corrupt segment: column name overruns file"
  | .unknownEncoding byte name =>
    some ("corrupt segment: unknown encoding " ++ toString byte ++ " for column " ++ name)
  | .unknownCodec byte name => some ("corrupt segment: unknown codec " ++ toString byte ++
      " for column " ++ name)
  | .payloadOverruns name => some ("corrupt segment: column " ++ name ++ " payload overruns file")
  | .missingColumn name => some ("corrupt segment: missing column " ++ name)
  | .expectedPlain name encoding =>
    some ("corrupt segment: column " ++ name ++ " expected Plain encoding, got " ++ encoding.debug)
  | .wrongEncoding type name encoding =>
    some ("corrupt segment: column " ++ name ++ " " ++ type ++ "-typed but on-disk encoding is " ++
      encoding.debug)
  | .indexOutOfBounds index name =>
    some ("corrupt segment: dictionary index " ++ toString index ++
      " out of bounds for column " ++ name)
  | .runsOverflow name =>
    some ("corrupt segment: column " ++ name ++ " RLE run count overflows reasonable bound")
  | .missingCount name => some ("corrupt segment: column " ++ name ++ ": zigzag payload missing count")
  | .varintTruncated name => some ("corrupt segment: column " ++ name ++ ": zigzag varint truncated")
  | .varintOverflow name => some ("corrupt segment: column " ++ name ++ ": zigzag varint overflow")
  | .rowCount name rows claimed =>
    some ("corrupt segment: column " ++ name ++ " has " ++ toString rows ++
      " rows, header claims " ++ toString claimed)
  | .unknownKind byte => some ("corrupt segment: unknown event kind discriminant " ++ toString byte)
  | .nameNotUtf8 | .library _ | .panic | .abort => none

/-- The columns of a file by name, each with its encoding, decompressed. -/
abbrev Chunks := String → Option (Encoding × Bytes)

/-- An error of another crate. -/
def ofLibrary {α : Type} : Except String α → Except SegmentError α
  | .ok a => .ok a
  | .error text => .error (.library text)

/-- A value, or this error when it is missing. -/
def orError {α : Type} (x : Option α) (err : SegmentError) : Except SegmentError α :=
  x.elim (.error err) .ok

section Reader

variable (C : SegmentLibs)

/-- Decompressing a column. -/
def decompressWith (codec : Codec) (compressed : Bytes) : Except SegmentError Bytes :=
  match codec with
  | .none => .ok compressed
  | .zstd => ofLibrary (C.decompress compressed)
  | .lz4 => ofLibrary (C.decompressLz4 compressed)

/-- One turn of the loop over the columns. -/
def readColumn : Parser SegmentError (String × Encoding × Bytes) := do
  let nameLen ← Parser.le 2 .unexpectedEnd
  let nameBytes ← Parser.bytes nameLen .nameOverruns
  let name ← Parser.except (orError (String.fromUTF8? ⟨nameBytes.toArray⟩) .nameNotUtf8)
  let encodingByte ← Parser.byte .panic
  let codecByte ← Parser.byte .panic
  let encoding ← Parser.except (orError (Encoding.fromByte encodingByte)
    (.unknownEncoding encodingByte name))
  let codec ← Parser.except (orError (Codec.fromByte codecByte) (.unknownCodec codecByte name))
  let compressedLen ← Parser.le 4 .unexpectedEnd
  let compressed ← Parser.bytes compressedLen (.payloadOverruns name)
  let raw ← Parser.except (decompressWith C codec compressed)
  return (name, encoding, raw)

/-- The header and the columns: the number of rows it claims, and what the columns are. -/
def readBody : Parser SegmentError (ℕ × List (String × Encoding × Bytes)) := do
  let magic ← Parser.bytes MAGIC.length .panic
  Parser.except (if magic = MAGIC then .ok () else .error .missingStartMagic)
  let version ← Parser.byte .panic
  Parser.except (if version = VERSION then .ok () else .error (.unsupportedVersion version))
  let rowCount ← Parser.le 4 .unexpectedEnd
  let numColumns ← Parser.le 2 .unexpectedEnd
  let columns ← (readColumn C).times numColumns
  return (rowCount, columns)

/-- A column is put into the map; of two with one name the later one is kept. -/
def Chunks.insert (chunks : Chunks) (column : String × Encoding × Bytes) : Chunks :=
  Function.update chunks column.1 (some column.2)

/-- The map of the columns. -/
def chunksOf (columns : List (String × Encoding × Bytes)) : Chunks :=
  columns.foldl Chunks.insert fun _ => none

/-- `take`. -/
def Chunks.take (chunks : Chunks) (name : String) : Except SegmentError (Encoding × Bytes) :=
  orError (chunks name) (.missingColumn name)

/-- `de`. -/
def SegmentLibs.decode (t : BincodeType) (bytes : Bytes) : Except SegmentError t.Value :=
  ofLibrary (C.de t bytes)

/-- `decode_plain`. -/
def decodePlain (t : BincodeType) (chunks : Chunks) (name : String) : Except SegmentError t.Value := do
  let (encoding, bytes) ← chunks.take name
  if encoding = .plain then C.decode t bytes else .error (.expectedPlain name encoding)

/-- `decode_strings`. -/
def decodeStrings (chunks : Chunks) (name : String) : Except SegmentError (List String) := do
  let (encoding, bytes) ← chunks.take name
  match encoding with
  | .plain => C.decode .strings bytes
  | .dictionary =>
    let (dict, indices) ← C.decode .dictionary bytes
    indices.mapM fun i => orError dict[i.toNat]? (.indexOutOfBounds i.toNat name)
  | _ => .error (.wrongEncoding "string" name encoding)

/-- `decode_option_strings`. -/
def decodeOptionStrings (chunks : Chunks) (name : String) :
    Except SegmentError (List (Option String)) := do
  let (encoding, bytes) ← chunks.take name
  match encoding with
  | .plain => C.decode .optionStrings bytes
  | .dictionary =>
    let (dict, indices) ← C.decode .optionDictionary bytes
    indices.mapM fun i => orError (Dict.getOption dict (i.map UInt32.toNat))
      (.indexOutOfBounds (i.elim 0 UInt32.toNat) name)
  | _ => .error (.wrongEncoding "option-string" name encoding)

/-- `decode_i64`. -/
def decodeI64 (chunks : Chunks) (name : String) : Except SegmentError (List I64) := do
  let (encoding, bytes) ← chunks.take name
  match encoding with
  | .plain => C.decode .i64s bytes
  | .delta => return sums (fun prev d => SInt.wrap 63 ((prev : ℤ) + d)) 0 (← C.decode .i64s bytes)
  | _ => .error (.wrongEncoding "i64" name encoding)

/-- One quantity: the number, and the sign from its lowest bit. -/
def readQuantity (name : String) : Parser SegmentError I128 := fun bytes =>
  match readVarint 128 0 0 bytes with
  | .ok (x, rest) => .ok (i128OfBits (unzigzag (BitVec.ofNat 128 x)), rest)
  | .error .truncated => .error (.varintTruncated name)
  | .error .overflow => .error (.varintOverflow name)

theorem run_readQuantity_ok {name : String} {bytes rest : Bytes} {x : ℕ}
    (h : readVarint 128 0 0 bytes = .ok (x, rest)) :
    (readQuantity name).run bytes = .ok (i128OfBits (unzigzag (BitVec.ofNat 128 x)), rest) := by
  show readQuantity name bytes = _
  rw [readQuantity, h]

/-- `decode_zigzag_varint`, but for the memory it asks for. -/
def decodeZigzagVarint (bytes : Bytes) (name : String) : Except SegmentError (List I128) := do
  let count ← (Parser.le 4 (.missingCount name)).run bytes
  let values ← ((readQuantity name).times count.1).run count.2
  return values.1

/-- `Vec::with_capacity`, for a vector of so many bytes. -/
def withCapacity (bytes : ℕ) : Except SegmentError Unit :=
  if 2 ^ 63 ≤ bytes then .error .panic else if C.memory < bytes then .error .abort else .ok ()

/-- `decode_i128`. The vector of the quantities is asked for when their number has been read. -/
def decodeI128 (chunks : Chunks) (name : String) : Except SegmentError (List I128) := do
  let (encoding, bytes) ← chunks.take name
  match encoding with
  | .plain => C.decode .i128s bytes
  | .zigzag =>
    withCapacity C (if bytes.length < 4 then 0 else 16 * ofLe (bytes.take 4))
    decodeZigzagVarint bytes name
  | _ => .error (.wrongEncoding "i128" name encoding)

/-- The number of values in some runs, added up in a `usize`. -/
def runsTotal (runs : List (UInt8 × UInt32)) : ℕ := (runs.map (·.2.toNat)).sum % 2 ^ 64

/-- `decode_rle_u8`. -/
def decodeRleU8 (bytes : Bytes) (name : String) : Except SegmentError (List UInt8) := do
  let runs ← C.decode .runs bytes
  withCapacity C (runsTotal runs)
  orError (expandRuns 10000000000 [] (runs.map fun r => (r.1, r.2.toNat))) (.runsOverflow name)

/-- `decode_u8`. -/
def decodeU8 (chunks : Chunks) (name : String) : Except SegmentError (List UInt8) := do
  let (encoding, bytes) ← chunks.take name
  match encoding with
  | .plain => C.decode .bytes bytes
  | .rle => decodeRleU8 C bytes name
  | _ => .error (.wrongEncoding "u8" name encoding)

/-- The columns are decoded, one after another. -/
def decodeColumns (chunks : Chunks) : Except SegmentError Columns := do
  let eventId ← decodeStrings C chunks "event_id"
  let kind ← decodeU8 C chunks "kind"
  let correctionRef ← decodePlain C .correctionRefs chunks "correction_ref"
  let accountId ← decodeStrings C chunks "account_id"
  let subscriptionId ← decodeOptionStrings C chunks "subscription_id"
  let productId ← decodeStrings C chunks "product_id"
  let meterId ← decodeStrings C chunks "meter_id"
  let timestampMs ← decodeI64 C chunks "timestamp_ms"
  let quantity ← decodeI128 C chunks "quantity"
  let unit ← decodeStrings C chunks "unit"
  let source ← decodeStrings C chunks "source"
  let modelId ← decodeOptionStrings C chunks "model_id"
  let dimensions ← decodePlain C .dimensions chunks "dimensions"
  let ingestedAtMs ← decodeI64 C chunks "ingested_at_ms"
  return { eventId, kind, correctionRef, accountId, subscriptionId, productId, meterId, timestampMs,
           quantity, unit, source, modelId, dimensions, ingestedAtMs }

/-- How long each column is. -/
def Columns.lengths (c : Columns) : List (String × ℕ) :=
  [("event_id", c.eventId.length), ("kind", c.kind.length), ("correction_ref", c.correctionRef.length),
    ("account_id", c.accountId.length), ("subscription_id", c.subscriptionId.length),
    ("product_id", c.productId.length), ("meter_id", c.meterId.length),
      ("timestamp_ms", c.timestampMs.length),
    ("quantity", c.quantity.length), ("unit", c.unit.length), ("source", c.source.length),
    ("model_id", c.modelId.length), ("dimensions", c.dimensions.length),
      ("ingested_at_ms", c.ingestedAtMs.length)]

/-- The first column of another length than the header claims is an error. -/
def Columns.checkLengths (c : Columns) (rowCount : ℕ) : Except SegmentError Unit :=
  match c.lengths.find? fun x => x.2 ≠ rowCount with
  | some (name, rows) => .error (.rowCount name rows rowCount)
  | none => .ok ()

/-- `RawSegmentReader`. -/
structure RawSegmentReader where
  columns : Columns
  rowCount : ℕ
  cursor : ℕ

/-- `FOOTER_LEN`: the checksum and `MAGIC_END`. -/
def FOOTER_LEN : ℕ := 8 + MAGIC_END.length

/-- `HEADER_LEN`. -/
def HEADER_LEN : ℕ := MAGIC.length + 1 + 4 + 2

/-- The part of a file that the checksum is of. -/
def bodyOf (file : Bytes) : Bytes := file.take (file.length - FOOTER_LEN)

/-- `RawSegmentReader::new`, for the bytes of the file. -/
def RawSegmentReader.new (X : Extern) (file : Bytes) : Except SegmentError RawSegmentReader := do
  if file.length < HEADER_LEN + FOOTER_LEN then .error .tooSmall
  else if file.drop (file.length - MAGIC_END.length) ≠ MAGIC_END then .error .missingEndMagic
  else
    let stored := ofLe ((file.drop (file.length - FOOTER_LEN)).take 8)
    let computed := (X.checksum (bodyOf file)).toNat
    if computed ≠ stored then .error (.checksumMismatch stored computed)
    else
      let ((rowCount, columns), _) ← (readBody C).run (bodyOf file)
      let columns ← decodeColumns C (chunksOf columns)
      columns.checkLengths rowCount
      return { columns, rowCount, cursor := 0 }

end Reader

/-- The kind of a discriminant. -/
def decodeKind (b : UInt8) : Except SegmentError EventKind :=
  if b = 0 then .ok .usage
  else if b = 1 then .ok .correction
  else if b = 2 then .ok .retraction
  else .error (.unknownKind b)

/-- The event of a row. -/
def Columns.row (c : Columns) (i : ℕ) : Except SegmentError UsageEvent := do
  let kind ← decodeKind (← orError c.kind[i]? .panic)
  return {
    eventId := ← orError c.eventId[i]? .panic
    kind
    correctionRef := ← orError c.correctionRef[i]? .panic
    accountId := ← orError c.accountId[i]? .panic
    subscriptionId := ← orError c.subscriptionId[i]? .panic
    productId := ← orError c.productId[i]? .panic
    meterId := ← orError c.meterId[i]? .panic
    timestampMs := ← orError c.timestampMs[i]? .panic
    quantity := ← orError c.quantity[i]? .panic
    unit := ← orError c.unit[i]? .panic
    source := ← orError c.source[i]? .panic
    modelId := ← orError c.modelId[i]? .panic
    dimensions := ← orError c.dimensions[i]? .panic
    ingestedAtMs := ← orError c.ingestedAtMs[i]? .panic }

/-- `read_next`: the next event, if there is one, and the reader after it. -/
def RawSegmentReader.readNext (r : RawSegmentReader) :
    Except SegmentError (Option UsageEvent × RawSegmentReader) := do
  if r.rowCount ≤ r.cursor then return (none, r)
  else return (some (← r.columns.row r.cursor), { r with cursor := r.cursor + 1 })

/-- Calling `read_next` until it returns `None` gives these events. -/
inductive RawSegmentReader.Yields : RawSegmentReader → List UsageEvent → Prop where
  /-- There is none left. -/
  | done {r r' : RawSegmentReader} : r.readNext = .ok (none, r') → Yields r []
  /-- One more. -/
  | next {r r' : RawSegmentReader} {e : UsageEvent} {es : List UsageEvent} :
      r.readNext = .ok (some e, r') → Yields r' es → Yields r (e :: es)

end UsageDb
