import UsageDb.Lib.Bincode
import UsageDb.Storage.SegmentFormat
import Mathlib.Data.List.Induction

/-!
# Reading a raw segment back

`segment_roundTrip`: a file that `finish` has made from events is accepted by
`RawSegmentReader.new`, and `read_next` gives the events back, all of them and in their order.
The proof follows the format: the columns as values (`Dict`, `deltas`, `runs`, `varint` of
`Lib.Encodings`), a column in the file and the body (`Parses` of `Lib.Parse`), the checks around
them, and the rows.
-/

namespace UsageDb

open Lib List

variable {C : SegmentLibs} {X : Extern} {chunks : Chunks} {name : String} {b : Bytes}
  {z : Bytes → Bytes} {events : List UsageEvent}

/-! ### The columns as values -/

theorem i128OfBits_bitsOfI128 (n : I128) : i128OfBits (bitsOfI128 n) = n := by
  obtain ⟨n, hlo, hhi⟩ := n
  apply Subtype.ext
  show (BitVec.ofInt 128 n).toInt = n
  rw [BitVec.toInt_ofInt]
  exact Int.bmod_eq_of_le (by omega) (by omega)

/-- A quantity is read back. -/
theorem parses_quantity (name : String) (v : I128) :
    Parses (readQuantity name) (varint 19 (zigzag (bitsOfI128 v)).toNat) v := by
  intro rest
  have hlt := (zigzag (bitsOfI128 v)).isLt
  have hread := readVarint_varint (n := 19) (lt_trans hlt (by decide)) (by decide) (by decide) hlt rest
  rw [run_readQuantity_ok hread, BitVec.ofNat_toNat, BitVec.setWidth_eq, unzigzag_zigzag,
    i128OfBits_bitsOfI128]

/-- There is memory for as many values as a column may say it has. -/
theorem SegmentLibs.Lawful.withCapacity (hC : C.Lawful) {n : ℕ} (h : n ≤ 2 ^ 36) :
    withCapacity C n = .ok () := by
  have hmemory := hC.memory
  rw [UsageDb.withCapacity, if_neg (by omega), if_neg (by omega)]

theorem decodeZigzagVarint_encode {values : List I128} (h : values.length < 2 ^ 32) (name : String) :
    decodeZigzagVarint (encodeZigzagVarintI128 values) name = .ok values := by
  have hcount : Parses (Parser.le 4 (SegmentError.missingCount name)) (leBytes 4 values.length)
      values.length := Parses.le (by simpa using h) _
  have hvalues : Parses ((readQuantity name).times values.length)
      (values.flatMap fun v => varint 19 (zigzag (bitsOfI128 v)).toNat) (values.map id) :=
    Parses.times values fun v _ => parses_quantity name v
  have hrest := hvalues []
  rw [append_nil, map_id] at hrest
  exact except_bind_eq_ok.2 ⟨_, hcount _, except_bind_eq_ok.2 ⟨_, hrest, rfl⟩⟩

/-- What is found is not missing. -/
theorem mapM_orError {α β : Type} {f : α → Option β} {l : List α} {l' : List β} (h : l.mapM f = some l')
    (err : α → SegmentError) : (l.mapM fun a => orError (f a) (err a)) = .ok l' := by
  induction l generalizing l' with
  | nil =>
    cases h
    rfl
  | cons a l ih =>
    rw [mapM_cons] at h ⊢
    obtain ⟨x, hx, h⟩ := Option.bind_eq_some_iff.1 h
    obtain ⟨xs, hxs, h⟩ := Option.bind_eq_some_iff.1 h
    cases h
    rw [hx, ih hxs]
    rfl

theorem SegmentLibs.Lawful.decode_ser (hC : C.Lawful) {t : BincodeType} {v : t.Value}
    (hb : C.ser t v = .ok b) :
    C.decode t b = .ok v := by
  obtain ⟨b', hser, hde⟩ := hC.bincode t v
  obtain rfl : b' = b := Except.ok.inj (hser.symm.trans hb)
  rw [SegmentLibs.decode, hde]
  rfl

theorem toNat_ofNat_word : ∀ n < 2 ^ 32, (UInt32.ofNat n).toNat = n := by
  intro n hn
  rw [UInt32.toNat_ofNat']
  omega

section Columns

variable (hC : C.Lawful)

include hC

theorem decodePlain_ser {t : BincodeType} {v : t.Value} (hb : C.ser t v = .ok b)
    (h : chunks name = some (.plain, b)) :
    decodePlain C t chunks name = .ok v := by
  rw [decodePlain, Chunks.take, h]
  exact hC.decode_ser hb

theorem decodeStrings_ser {values : List String} (hb : C.ser .strings values = .ok b)
    (h : chunks name = some (.plain, b)) : decodeStrings C chunks name = .ok values := by
  rw [decodeStrings, Chunks.take, h]
  exact hC.decode_ser hb

theorem decodeStrings_encode {values : List String} (hb : encodeDictStrings C values = .ok b)
    (h : chunks name = some (.dictionary, b)) (hlen : values.length ≤ 2 ^ 32) :
    decodeStrings C chunks name = .ok values := by
  rw [decodeStrings, Chunks.take, h]
  refine except_bind_eq_ok.2 ⟨_, rfl, except_bind_eq_ok.2 ⟨_, hC.decode_ser hb, ?_⟩⟩
  exact mapM_orError (Dict.indexAll_values toNat_ofNat_word hlen) _

theorem decodeOptionStrings_encode {values : List (Option String)}
    (hb : encodeDictOptionStrings C values = .ok b)
    (h : chunks name = some (.dictionary, b)) (hlen : values.length ≤ 2 ^ 32) :
    decodeOptionStrings C chunks name = .ok values := by
  rw [decodeOptionStrings, Chunks.take, h]
  refine except_bind_eq_ok.2 ⟨_, rfl, except_bind_eq_ok.2 ⟨_, hC.decode_ser hb, ?_⟩⟩
  exact mapM_orError (Dict.indexAllOption_values toNat_ofNat_word hlen) _

theorem decodeI64_encode {values : List I64} (hb : encodeDeltaI64 C values = .ok b)
    (h : chunks name = some (.delta, b)) : decodeI64 C chunks name = .ok values := by
  rw [decodeI64, Chunks.take, h]
  show (do return sums _ 0 (← C.decode .i64s b)) = _
  rw [hC.decode_ser hb]
  exact congrArg Except.ok (sums_deltas (fun v prev => SInt.wrap_add_wrap_sub v prev) 0 values)

omit hC in
/-- The lengths of the runs are words. -/
theorem toNat_runs {values : List UInt8} (h : values.length < 2 ^ 32) :
    ((runs (2 ^ 32 - 1) values).map fun r => (r.1, UInt32.ofNat r.2)).map
      (fun r => (r.1, r.2.toNat)) = runs (2 ^ 32 - 1) values := by
  have hsum := sum_runs (show values.length ≤ 2 ^ 32 - 1 by omega)
  rw [map_map]
  refine (map_congr_left fun r hr => ?_).trans (map_id _)
  have hle : r.2 ≤ ((runs (2 ^ 32 - 1) values).map (·.2)).sum :=
    le_sum_of_mem (mem_map_of_mem hr)
  exact Prod.ext rfl (toNat_ofNat_word r.2 (by omega))

theorem decodeU8_encode {values : List UInt8} (hb : encodeRleU8 C values = .ok b)
    (h : chunks name = some (.rle, b)) (hlen : values.length < 2 ^ 32) :
    decodeU8 C chunks name = .ok values := by
  have hruns := toNat_runs hlen
  have hexpand : expandRuns 10000000000 [] (runs (2 ^ 32 - 1) values) = some values :=
    expandRuns_runs (by omega) (by omega)
  have htotal : runsTotal ((runs (2 ^ 32 - 1) values).map fun r => (r.1, UInt32.ofNat r.2)) =
      values.length := by
    have hcounts := congrArg (fun rs => (rs.map (·.2)).sum) hruns
    rw [map_map, sum_runs (by omega)] at hcounts
    rw [runsTotal]
    exact (congrArg (· % 2 ^ 64) hcounts).trans (Nat.mod_eq_of_lt (by omega))
  rw [decodeU8, Chunks.take, h]
  refine except_bind_eq_ok.2 ⟨_, rfl, except_bind_eq_ok.2 ⟨_, hC.decode_ser hb,
    except_bind_eq_ok.2 ⟨(), hC.withCapacity (by rw [htotal]; omega), ?_⟩⟩⟩
  rw [hruns, hexpand]
  rfl

theorem decodeI128_encode {values : List I128}
    (h : chunks name = some (.zigzag, encodeZigzagVarintI128 values))
    (hlen : values.length < 2 ^ 32) : decodeI128 C chunks name = .ok values := by
  rw [decodeI128, Chunks.take, h]
  have hcount : ofLe ((encodeZigzagVarintI128 values).take 4) = values.length := by
    rw [encodeZigzagVarintI128, take_left' (length_leBytes _ _), ofLe_leBytes_of_lt hlen]
  refine except_bind_eq_ok.2 ⟨_, rfl, except_bind_eq_ok.2 ⟨(), ?_, decodeZigzagVarint_encode hlen name⟩⟩
  rw [hcount]
  exact hC.withCapacity (by split_ifs <;> omega)

end Columns

/-! ### The columns in the file -/

/-- A column is read up to its payload, of which the low bits of the length are taken. -/
theorem run_readColumn {name : String} (hname : (utf8 name).length < 2 ^ 16) (encoding : Encoding)
    (z rest : Bytes) :
    (readColumn C).run (columnBytes (name, encoding, z) ++ rest) =
      (Parser.except (decompressWith C .zstd (z.take (z.length % 256 ^ 4))) >>= fun raw =>
        pure (name, encoding, raw)).run (z.drop (z.length % 256 ^ 4) ++ rest) := by
  have hbytes : columnBytes (name, encoding, z) ++ rest = leBytes 2 (utf8 name).length ++ (utf8 name ++
      ([encoding.toByte] ++ ([Codec.zstd.toByte] ++
        (leBytes 4 z.length ++ (z.take (z.length % 256 ^ 4) ++
        (z.drop (z.length % 256 ^ 4) ++ rest)))))) := by
    rw [← append_assoc (z.take _), take_append_drop]
    simp [columnBytes]
  have htake : (z.take (z.length % 256 ^ 4)).length = z.length % 256 ^ 4 := by
    rw [length_take, min_eq_left (Nat.mod_le _ _)]
  rw [hbytes]
  refine ((Parses.le (by simpa using hname) _).run_bind _).trans ?_
  refine ((Parses.bytes (utf8 name) _).run_bind _).trans ?_
  refine ((Parses.except (by rw [fromUTF8?_utf8]; rfl)).run_bind _).trans ?_
  refine ((Parses.byte _ _).run_bind _).trans ?_
  refine ((Parses.byte _ _).run_bind _).trans ?_
  refine ((Parses.except (by rw [Encoding.fromByte_toByte]; rfl)).run_bind _).trans ?_
  refine ((Parses.except (by rw [Codec.fromByte_toByte]; rfl)).run_bind _).trans ?_
  refine ((Parses.le_mod 4 z.length _).run_bind _).trans ?_
  exact (Parses.bytes_of_length htake _).run_bind _

/-- A column is read back. -/
theorem parses_column {chunk : String × Encoding × Bytes} {raw : Bytes}
    (hname : (utf8 chunk.1).length < 2 ^ 16)
    (hlen : chunk.2.2.length < 2 ^ 32) (hraw : C.decompress chunk.2.2 = .ok raw) :
    Parses (readColumn C) (columnBytes chunk) (chunk.1, chunk.2.1, raw) := by
  intro rest
  rw [run_readColumn hname, Nat.mod_eq_of_lt (by simpa using hlen), take_length, drop_length,
    decompressWith, hraw]
  rfl

/-- The columns as they are compressed. -/
def compressed (z : Bytes → Bytes) (raws : List (String × Encoding × Bytes)) :
    List (String × Encoding × Bytes) :=
  raws.map fun x => (x.1, x.2.1, z x.2.2)

/-- A body is read up to its columns. -/
theorem run_readBody {rowCount : ℕ} (hrows : rowCount < 2 ^ 32)
    {raws : List (String × Encoding × Bytes)} (hcols : raws.length < 2 ^ 16) (rest : Bytes) :
    (readBody C).run (segmentBody rowCount (compressed z raws) ++ rest) =
      ((readColumn C).times raws.length >>= fun columns => pure (rowCount, columns)).run
        ((raws.flatMap fun x => columnBytes (x.1, x.2.1, z x.2.2)) ++ rest) := by
  have hbytes : segmentBody rowCount (compressed z raws) ++ rest =
      MAGIC ++ ([VERSION] ++ (leBytes 4 rowCount ++ (leBytes 2 raws.length ++
        (raws.flatMap (fun x => columnBytes (x.1, x.2.1, z x.2.2)) ++ rest)))) := by
    simp [segmentBody, compressed, flatMap_map]
  rw [hbytes]
  refine ((Parses.bytes MAGIC _).run_bind _).trans ?_
  refine ((Parses.except (if_pos rfl)).run_bind _).trans ?_
  refine ((Parses.byte _ _).run_bind _).trans ?_
  refine ((Parses.except (if_pos rfl)).run_bind _).trans ?_
  refine ((Parses.le (by simpa using hrows) _).run_bind _).trans ?_
  exact (Parses.le (by simpa using hcols) _).run_bind _

/-- The body is read back, its columns decompressed. -/
theorem parses_body {rowCount : ℕ} (hrows : rowCount < 2 ^ 32) {raws : List (String × Encoding × Bytes)}
    (hcols : raws.length < 2 ^ 16) (hname : ∀ x ∈ raws, (utf8 x.1).length < 2 ^ 16)
    (hlen : ∀ x ∈ raws, (z x.2.2).length < 2 ^ 32) (hunz : ∀ b, C.decompress (z b) = .ok b) :
    Parses (readBody C) (segmentBody rowCount (compressed z raws)) (rowCount, raws) := by
  have hall : Parses ((readColumn C).times raws.length)
      (raws.flatMap fun x => columnBytes (x.1, x.2.1, z x.2.2))
      (raws.map id) := Parses.times raws fun x hx => parses_column (hname x hx) (hlen x hx) (hunz x.2.2)
  intro rest
  rw [run_readBody hrows hcols, hall.run_bind, map_id]
  rfl

/-- Columns of other names do not change what is found. -/
theorem foldl_insert_of_notMem {l : List (String × Encoding × Bytes)} (h : name ∉ l.map (·.1))
    (m : Chunks) :
    l.foldl Chunks.insert m name = m name := by
  induction l generalizing m with
  | nil => rfl
  | cons x l ih =>
    rw [map_cons, mem_cons, not_or] at h
    rw [foldl_cons, ih h.2, Chunks.insert, Function.update_of_ne h.1]

/-- Of columns with different names each is found. -/
theorem chunksOf_of_mem {l : List (String × Encoding × Bytes)} (hl : (l.map (·.1)).Nodup)
    {x : String × Encoding × Bytes} (hx : x ∈ l) : chunksOf l x.1 = some x.2 := by
  have hgen : ∀ m : Chunks, l.foldl Chunks.insert m x.1 = some x.2 := by
    induction l with
    | nil => cases hx
    | cons y l ih =>
      intro m
      rw [map_cons, nodup_cons] at hl
      rw [foldl_cons]
      rcases mem_cons.1 hx with rfl | hx
      · rw [foldl_insert_of_notMem hl.1, Chunks.insert, Function.update_self]
      · exact ih hl.2 hx _
  exact hgen _

/-! ### The rows -/

/-- The columns of events. -/
def Columns.ofEvents (es : List UsageEvent) : Columns where
  eventId := es.map (·.eventId)
  kind := es.map fun e => encodeKind e.kind
  correctionRef := es.map (·.correctionRef)
  accountId := es.map (·.accountId)
  subscriptionId := es.map (·.subscriptionId)
  productId := es.map (·.productId)
  meterId := es.map (·.meterId)
  timestampMs := es.map (·.timestampMs)
  quantity := es.map (·.quantity)
  unit := es.map (·.unit)
  source := es.map (·.source)
  modelId := es.map (·.modelId)
  dimensions := es.map (·.dimensions)
  ingestedAtMs := es.map (·.ingestedAtMs)

/-- What `write_event` collects. -/
theorem foldl_writeEvent (es : List UsageEvent) : es.foldl Columns.writeEvent .new = .ofEvents es := by
  induction es using List.reverseRecOn with
  | nil => rfl
  | append_singleton es e ih =>
    rw [foldl_append, ih]
    simp [Columns.writeEvent, Columns.ofEvents]

theorem decodeKind_encodeKind (k : EventKind) : decodeKind (encodeKind k) = .ok k := by cases k <;> rfl

/-- Each row is its event. -/
theorem row_ofEvents {es : List UsageEvent} {i : ℕ} {e : UsageEvent} (h : es[i]? = some e) :
    (Columns.ofEvents es).row i = .ok e := by
  simp only [Columns.row, Columns.ofEvents, List.getElem?_map, h, Option.map_some, orError,
    Option.elim_some]
  show (do let kind ← decodeKind (encodeKind e.kind); _) = _
  rw [decodeKind_encodeKind]
  rfl

/-- From any row on, the reader gives the rest. -/
theorem yields_ofEvents (es : List UsageEvent) {i : ℕ} (hi : i ≤ es.length) :
    RawSegmentReader.Yields ⟨.ofEvents es, es.length, i⟩ (es.drop i) := by
  obtain ⟨n, hn⟩ : ∃ n, n = es.length - i := ⟨_, rfl⟩
  induction n generalizing i with
  | zero =>
    rw [drop_eq_nil_of_le (by omega)]
    exact .done (if_pos (show es.length ≤ i by omega))
  | succ n ih =>
    have hlt : i < es.length := by omega
    rw [drop_eq_getElem_cons hlt]
    refine .next ?_ (ih (by omega) (by omega))
    rw [RawSegmentReader.readNext, if_neg (show ¬ es.length ≤ i by omega)]
    rw [row_ofEvents (List.getElem?_eq_getElem hlt)]
    rfl

theorem checkLengths_ofEvents (es : List UsageEvent) :
    (Columns.ofEvents es).checkLengths es.length = .ok () := by
  have hall : (Columns.ofEvents es).lengths.find? (fun x => x.2 ≠ es.length) = none := by
    simp [Columns.lengths, Columns.ofEvents]
  rw [Columns.checkLengths, hall]

/-! ### The file -/

/-- The file of a body: the checksum and the end. -/
def segmentFile (X : Extern) (body : Bytes) : Bytes :=
  body ++ leBytes 8 (X.checksum body).toNat ++ MAGIC_END

theorem length_segmentFile (body : Bytes) : (segmentFile X body).length = body.length + FOOTER_LEN := by
  simp [segmentFile, FOOTER_LEN]

theorem bodyOf_segmentFile (body : Bytes) : bodyOf (segmentFile X body) = body := by
  rw [bodyOf, length_segmentFile, Nat.add_sub_cancel, segmentFile, append_assoc, take_left]

/-- A file that passes the checks around its body: its length, its end and its checksum. -/
def Framed (X : Extern) (file : Bytes) : Prop :=
  HEADER_LEN + FOOTER_LEN ≤ file.length ∧ file.drop (file.length - MAGIC_END.length) = MAGIC_END ∧
    (X.checksum (bodyOf file)).toNat = ofLe ((file.drop (file.length - FOOTER_LEN)).take 8)

theorem new_of_framed {file : Bytes} (h : Framed X file) :
    RawSegmentReader.new C X file = (do
      let ((rowCount, columns), _) ← (readBody C).run (bodyOf file)
      let columns ← decodeColumns C (chunksOf columns)
      columns.checkLengths rowCount
      return { columns, rowCount, cursor := 0 }) := by
  obtain ⟨hlen, hend, hsum⟩ := h
  rw [RawSegmentReader.new, if_neg (by omega), if_neg (by rw [hend]; simp)]
  rw [if_neg (by rw [hsum]; simp)]

theorem framed_segmentFile {body : Bytes} (h : HEADER_LEN ≤ body.length) :
    Framed X (segmentFile X body) := by
  have hlen := length_segmentFile (X := X) body
  have hend : (segmentFile X body).drop ((segmentFile X body).length - MAGIC_END.length) =
      MAGIC_END := by
    have hfront : (segmentFile X body).length - MAGIC_END.length =
        (body ++ leBytes 8 (X.checksum body).toNat).length := by
      rw [hlen, FOOTER_LEN, length_append, length_leBytes]
      omega
    rw [hfront, segmentFile, drop_left]
  have hstored : ofLe (((segmentFile X body).drop ((segmentFile X body).length - FOOTER_LEN)).take 8) =
      (X.checksum body).toNat := by
    have htake : (leBytes 8 (X.checksum body).toNat ++ MAGIC_END).take 8 =
        leBytes 8 (X.checksum body).toNat :=
      take_left' (length_leBytes _ _)
    rw [hlen, Nat.add_sub_cancel, segmentFile, append_assoc, drop_left, htake]
    exact ofLe_leBytes_of_lt (X.checksum body).isLt
  exact ⟨by omega, hend, by rw [bodyOf_segmentFile, hstored]⟩

/-- A file passes the checks around its body, and the rest is up to the body. -/
theorem new_segmentFile {body : Bytes} (h : HEADER_LEN ≤ body.length) :
    RawSegmentReader.new C X (segmentFile X body) = (do
      let ((rowCount, columns), _) ← (readBody C).run body
      let columns ← decodeColumns C (chunksOf columns)
      columns.checkLengths rowCount
      return { columns, rowCount, cursor := 0 }) := by
  rw [new_of_framed (framed_segmentFile h), bodyOf_segmentFile]

/-- A step that succeeds on each column. -/
theorem mapM_onChunk {β : Type} {f : β → Except String Bytes} {g : β → Bytes}
    {l : List (String × Encoding × β)}
    (h : ∀ x ∈ l, f x.2.2 = .ok (g x.2.2)) :
      l.mapM (onChunk f) = .ok (l.map fun x => (x.1, x.2.1, g x.2.2)) := by
  induction l with
  | nil => rfl
  | cons x l ih =>
    have hx : onChunk f x = .ok (x.1, x.2.1, g x.2.2) := by
      rw [onChunk, h x mem_cons_self]
      rfl
    rw [mapM_cons, hx, ih fun y hy => h y (mem_cons_of_mem _ hy)]
    rfl

/-- The bytes, where there are any. -/
def bytesOf (x : Except String Bytes) : Bytes := x.toOption.getD []

/-- Every column can be encoded. -/
theorem columnChunks_ok (hC : C.Lawful) (c : Columns) : ∀ x ∈ columnChunks C c,
    x.2.2 = .ok (bytesOf x.2.2) := by
  have hser : ∀ t v, C.ser t v = .ok (bytesOf (C.ser t v)) := by
    intro t v
    obtain ⟨b, hb, -⟩ := hC.bincode t v
    rw [hb]
    rfl
  simp only [columnChunks, forall_mem_cons, not_mem_nil, false_imp_iff, implies_true, and_true]
  exact ⟨hser _ _, hser _ _, hser _ _, hser _ _, hser _ _, hser _ _, hser _ _, hser _ _, rfl,
    hser _ _, hser _ _, hser _ _, hser _ _, hser _ _⟩

/-- The columns of a file, encoded. -/
def rawChunks (C : SegmentLibs) (c : Columns) : List (String × Encoding × Bytes) :=
  (columnChunks C c).map fun x => (x.1, x.2.1, bytesOf x.2.2)

/-- The names of the columns. -/
theorem names_rawChunks (c : Columns) : (rawChunks C c).map (·.1) =
    ["event_id", "kind", "correction_ref", "account_id", "subscription_id", "product_id",
      "meter_id", "timestamp_ms",
      "quantity", "unit", "source", "model_id", "dimensions", "ingested_at_ms"] := rfl

/-- They are different, … -/
theorem nodup_names (c : Columns) : ((rawChunks C c).map (·.1)).Nodup := by
  rw [names_rawChunks]
  decide

/-- … and short. -/
theorem length_names (c : Columns) : ∀ x ∈ rawChunks C c, (utf8 x.1).length < 2 ^ 16 := by
  have hall : ∀ name ∈ (rawChunks C c).map (·.1), (utf8 name).length < 2 ^ 16 := by
    rw [names_rawChunks]
    decide
  exact fun x hx => hall x.1 (mem_map_of_mem hx)

/-- The columns of events are decoded to the columns they were. -/
theorem decodeColumns_rawChunks (hC : C.Lawful) {es : List UsageEvent} (hlen : es.length < 2 ^ 32) :
    decodeColumns C (chunksOf (rawChunks C (.ofEvents es))) = .ok (.ofEvents es) := by
  have hfound : ∀ x ∈ columnChunks C (.ofEvents es),
      chunksOf (rawChunks C (.ofEvents es)) x.1 = some (x.2.1, bytesOf x.2.2) := fun x hx =>
    chunksOf_of_mem (nodup_names _) (mem_map_of_mem (f := fun x => (x.1, x.2.1, bytesOf x.2.2)) hx)
  have hok := columnChunks_ok hC (.ofEvents es)
  simp only [columnChunks, forall_mem_cons, not_mem_nil, false_imp_iff, implies_true,
    and_true] at hfound hok
  obtain ⟨f1, f2, f3, f4, f5, f6, f7, f8, f9, f10, f11, f12, f13, f14⟩ := hfound
  obtain ⟨o1, o2, o3, o4, o5, o6, o7, o8, -, o10, o11, o12, o13, o14⟩ := hok
  have hle : ∀ {β : Type} (f : UsageEvent → β), (es.map f).length ≤ 2 ^ 32 :=
    fun f => by simpa using hlen.le
  have hlt : ∀ {β : Type} (f : UsageEvent → β), (es.map f).length < 2 ^ 32 :=
    fun f => by simpa using hlen
  simp only [decodeColumns, decodeStrings_ser hC o1 f1, decodeU8_encode hC o2 f2 (hlt _),
    decodePlain_ser hC o3 f3,
    decodeStrings_encode hC o4 f4 (hle _), decodeOptionStrings_encode hC o5 f5 (hle _),
    decodeStrings_encode hC o6 f6 (hle _), decodeStrings_encode hC o7 f7 (hle _),
      decodeI64_encode hC o8 f8,
    decodeI128_encode hC f9 (hlt _), decodeStrings_encode hC o10 f10 (hle _),
      decodeStrings_encode hC o11 f11 (hle _),
    decodeOptionStrings_encode hC o12 f12 (hle _), decodePlain_ser hC o13 f13,
      decodeI64_encode hC o14 f14]
  rfl

/-- What the checksum of a segment is taken of, when `z` compresses. -/
def eventsBody (C : SegmentLibs) (z : Bytes → Bytes) (events : List UsageEvent) : Bytes :=
  segmentBody events.length (compressed z (rawChunks C (.ofEvents events)))

/-- The file of some events. -/
theorem finish_ofEvents (hC : C.Lawful) (hrows : events.length < 2 ^ 32)
    (hz : ∀ b, C.compress b = .ok (z b)) :
    finish C X (.ofEvents events) =
      .ok (segmentFile X (eventsBody C z events), events.length, X.checksum
        (eventsBody C z events)) := by
  have hmod : (Columns.ofEvents events).eventId.length % 2 ^ 32 = events.length := by
    rw [show (Columns.ofEvents events).eventId.length = events.length from length_map _,
      Nat.mod_eq_of_lt hrows]
  have hraw : (columnChunks C (.ofEvents events)).mapM (onChunk id) =
      .ok (rawChunks C (.ofEvents events)) :=
    mapM_onChunk (columnChunks_ok hC (.ofEvents events))
  have hcomp : (rawChunks C (.ofEvents events)).mapM (onChunk C.compress) =
      .ok (compressed z (rawChunks C (.ofEvents events))) := mapM_onChunk fun x _ => hz x.2.2
  rw [finish, hraw]
  show (do let chunks ← (rawChunks C (.ofEvents events)).mapM (onChunk C.compress); _) = _
  rw [hcomp, hmod]
  rfl

/-- It is opened as far as its body can be read. -/
theorem new_eventsBody (z : Bytes → Bytes) (events : List UsageEvent) :
    RawSegmentReader.new C X (segmentFile X (eventsBody C z events)) = (do
      let ((rowCount, columns), _) ← (readBody C).run (eventsBody C z events)
      let columns ← decodeColumns C (chunksOf columns)
      columns.checkLengths rowCount
      return { columns, rowCount, cursor := 0 }) :=
  new_segmentFile (by simp [eventsBody, segmentBody, HEADER_LEN]; omega)

/-- Its compressed columns are shorter than 2³² bytes. -/
def ColumnsFit (C : SegmentLibs) (events : List UsageEvent) : Prop :=
  ∀ chunk ∈ columnChunks C (events.foldl Columns.writeEvent .new), ∀ raw z, chunk.2.2 = .ok raw →
    C.compress raw = .ok z → z.length < 2 ^ 32

theorem columnsFit_iff (hC : C.Lawful)
    (hz : ∀ b, C.compress b = .ok (z b)) :
    ColumnsFit C events ↔ ∀ x ∈ rawChunks C (.ofEvents events), (z x.2.2).length < 2 ^ 32 := by
  have hok := columnChunks_ok hC (.ofEvents events)
  rw [ColumnsFit, foldl_writeEvent]
  constructor
  · intro h x hx
    obtain ⟨chunk, hchunk, rfl⟩ := mem_map.1 hx
    exact h chunk hchunk _ _ (hok chunk hchunk) (hz _)
  · intro h chunk hchunk raw w hraw hw
    obtain rfl : z raw = w := Except.ok.inj ((hz raw).symm.trans hw)
    have hlt := h _ (mem_map_of_mem (f := fun x => (x.1, x.2.1, bytesOf x.2.2)) hchunk)
    rwa [show bytesOf chunk.2.2 = raw by rw [hraw]; rfl] at hlt

/-- When they are, the reader has the columns of the events. -/
theorem new_of_columnsFit (hC : C.Lawful) (hrows : events.length < 2 ^ 32)
    (hunz : ∀ b, C.decompress (z b) = .ok b)
    (hlen : ∀ x ∈ rawChunks C (.ofEvents events), (z x.2.2).length < 2 ^ 32) :
    RawSegmentReader.new C X (segmentFile X (eventsBody C z events)) = .ok ⟨.ofEvents events,
      events.length, 0⟩ := by
  have hcount : (rawChunks C (.ofEvents events)).length < 2 ^ 16 := show 14 < 2 ^ 16 by decide
  have hbody := parses_body hrows hcount (length_names _) hlen hunz []
  rw [append_nil] at hbody
  rw [new_eventsBody, eventsBody, hbody]
  show (do let columns ← decodeColumns C (chunksOf (rawChunks C (.ofEvents events))); _) = _
  rw [decodeColumns_rawChunks hC hrows]
  show (do (Columns.ofEvents events).checkLengths events.length; _) = _
  rw [checkLengths_ofEvents]
  rfl

/-- **A raw segment is read back.** For every list of events of fewer than 2³² rows whose
compressed columns are shorter than 2³² bytes: writing them gives a file, the number of rows and
a checksum; the reader, which finds this checksum, accepts the file and yields the same events
in the same order. -/
theorem segment_roundTrip (hC : C.Lawful) (X : Extern) (events : List UsageEvent)
    (hrows : events.length < 2 ^ 32)
    (hcols : ∀ chunk ∈ columnChunks C (events.foldl Columns.writeEvent .new), ∀ raw z, chunk.2.2 =
      .ok raw → C.compress raw = .ok z → z.length < 2 ^ 32) :
    ∃ file checksum, finish C X (events.foldl Columns.writeEvent .new) =
      .ok (file, events.length, checksum) ∧
      X.checksum (bodyOf file) = checksum ∧ ∃ r, RawSegmentReader.new C X file = .ok r ∧
      r.Yields events := by
  choose z hz hunz using hC.zstd
  rw [foldl_writeEvent]
  refine ⟨_, _, finish_ofEvents hC hrows hz, by rw [bodyOf_segmentFile], _,
    new_of_columnsFit hC hrows hunz ?_, yields_ofEvents events (Nat.zero_le _)⟩
  exact (columnsFit_iff hC hz).1 hcols

/-! ### A column that does not fit -/

/-- What is assumed of `zstd` beside: a frame that is cut off is an error. -/
def SegmentLibs.Truncates (C : SegmentLibs) : Prop :=
  ∀ b z, C.compress b = .ok z → ∀ k < z.length, ∃ err, C.decompress (z.take k) = .error err

/-- The length of a column of 2³² bytes or more is cut to its low bits, so the reader decompresses
a part of it. -/
theorem fails_column {chunk : String × Encoding × Bytes} (hname : (utf8 chunk.1).length < 2 ^ 16)
    (hlen : ¬ chunk.2.2.length < 2 ^ 32) (hcut : ∀ k < chunk.2.2.length, ∃ err, C.decompress
      (chunk.2.2.take k) = .error err) :
    Fails (readColumn C) (columnBytes chunk) := by
  intro rest
  obtain ⟨err, herr⟩ := hcut _ ((Nat.mod_lt _ (by decide : 0 < 256 ^ 4)).trans_le (not_lt.1 hlen))
  rw [run_readColumn hname, decompressWith, herr]
  exact ⟨_, rfl⟩

/-- A body with such a column cannot be read. -/
theorem fails_body {rowCount : ℕ} (hrows : rowCount < 2 ^ 32) {raws : List (String × Encoding × Bytes)}
    (hcols : raws.length < 2 ^ 16) (hname : ∀ x ∈ raws, (utf8 x.1).length < 2 ^ 16)
    (hunz : ∀ b, C.decompress (z b) = .ok b)
    (hcut : ∀ b, ∀ k < (z b).length, ∃ err, C.decompress ((z b).take k) = .error err)
    (hlong : ∃ x ∈ raws, ¬ (z x.2.2).length < 2 ^ 32) :
    Fails (readBody C) (segmentBody rowCount (compressed z raws)) := by
  have hall : Fails ((readColumn C).times raws.length)
      (raws.flatMap fun x => columnBytes (x.1, x.2.1, z x.2.2)) :=
    Fails.times (P := fun x => (z x.2.2).length < 2 ^ 32) (g := id)
      (fun x hx hlen => parses_column (hname x hx) hlen (hunz x.2.2))
      (fun x hx hlen => fails_column (hname x hx) hlen (hcut x.2.2)) hlong
  intro rest
  rw [run_readBody hrows hcols]
  exact hall.bind rest

/-- **A file is opened only if its columns fit.** -/
theorem new_error_of_long (hrows : events.length < 2 ^ 32)
    (hunz : ∀ b, C.decompress (z b) = .ok b)
    (hcut : ∀ b, ∀ k < (z b).length, ∃ err, C.decompress ((z b).take k) = .error err)
    (hlong : ∃ x ∈ rawChunks C (.ofEvents events), ¬ (z x.2.2).length < 2 ^ 32) :
    ∃ err, RawSegmentReader.new C X (segmentFile X (eventsBody C z events)) = .error err := by
  have hcount : (rawChunks C (.ofEvents events)).length < 2 ^ 16 := show 14 < 2 ^ 16 by decide
  obtain ⟨err, herr⟩ := fails_body hrows hcount (length_names _) hunz hcut hlong []
  rw [append_nil] at herr
  rw [new_eventsBody, eventsBody, herr]
  exact ⟨err, rfl⟩

/-! ### A stand-in for the libraries -/

/-- A byte. -/
def bytePrinter : Printer UInt8 := .word 1 UInt8.toNat UInt8.ofNat UInt8.toNat_lt fun _ => by simp

/-- A `u32`. -/
def u32Printer : Printer UInt32 := .word 4 UInt32.toNat UInt32.ofNat UInt32.toNat_lt fun _ => by simp

/-- A signed number of `n` bytes. -/
def signedPrinter (w n : ℕ) (hn : 256 ^ n = 2 ^ (w + 1)) : Printer (SInt w) :=
  .word n (Format.bitsOf w) (fun x => SInt.wrap w x)
    (fun x => (Format.bitsOf_lt x).trans_eq hn.symm) Format.wrap_bitsOf

/-- An `i64`. -/
def i64Printer : Printer I64 := signedPrinter 63 8 (by decide)

/-- A text. -/
def textPrinter : Printer String :=
  bytePrinter.list.via utf8 (fun b => String.fromUTF8? ⟨b.toArray⟩) fromUTF8?_utf8

/-- A reference. -/
def refPrinter : Printer CorrectionRef :=
  (textPrinter.pair textPrinter).via (fun r => (r.originalEventId, r.reason))
    (fun p => some ⟨p.1, p.2⟩) fun _ => rfl

/-- Dimensions. -/
def dimensionsPrinter : Printer SmallDimensions :=
  (textPrinter.pair textPrinter).list.via (·.inner)
    (fun l => if h : l.Pairwise fun x y => x.1 < y.1 then some ⟨l, h⟩ else none)
    fun d => dif_pos d.sorted

/-- The layout of `bincode`, but for the numbers of values, which take as many bytes as they
need. -/
def BincodeType.printer : (t : BincodeType) → Printer t.Value
  | .strings => textPrinter.list
  | .optionStrings => textPrinter.option.list
  | .correctionRefs => refPrinter.option.list
  | .dimensions => dimensionsPrinter.list
  | .dictionary => textPrinter.list.pair u32Printer.list
  | .optionDictionary => textPrinter.list.pair u32Printer.option.list
  | .i64s => i64Printer.list
  | .i128s => (signedPrinter 127 16 (by decide)).list
  | .bytes => bytePrinter.list
  | .runs => (bytePrinter.pair u32Printer).list

/-- Nothing is compressed. -/
def SegmentLibs.sample : SegmentLibs where
  ser t v := .ok (t.printer.print v)
  de t b := t.printer.read b
  compress b := .ok b
  decompress b := .ok b
  decompressLz4 b := .ok b
  memory := 2 ^ 47

theorem SegmentLibs.lawful_sample : SegmentLibs.sample.Lawful :=
  ⟨fun t v => ⟨_, rfl, t.printer.read_print v⟩, fun b => ⟨b, rfl, rfl⟩,
    show 2 ^ 36 ≤ 2 ^ 47 by decide⟩

/-! ### A codec that knows where it ends -/

/-- A frame of bytes that do not compress: their number, and the bytes as they are. -/
def store (b : Bytes) : Bytes := Printer.count.print b.length ++ b

/-- Reading it. -/
def unstore (z : Bytes) : Except String Bytes :=
  match Printer.count.parse.run z with
  | .ok (n, b) => if b.length = n then .ok b else .error "incomplete frame"
  | .error _ => .error "incomplete frame"

theorem unstore_store (b : Bytes) : unstore (store b) = .ok b := by
  rw [unstore, store, Printer.count.parses]
  exact if_pos rfl

/-- A frame is a few bytes longer than what is in it. -/
theorem length_store (b : Bytes) :
    b.length ≤ (store b).length ∧ (store b).length ≤ b.length + b.length.log2 + 1 := by
  have hle := Printer.length_varint_le (b.length.log2 + 1) b.length
  show b.length ≤ (varint _ _ ++ b).length ∧ (varint _ _ ++ b).length ≤ _
  rw [length_append]
  omega

/-- A part of a frame is an error. -/
theorem unstore_take (b : Bytes) {k : ℕ} (hk : k < (store b).length) :
    ∃ err, unstore ((store b).take k) = .error err := by
  cases hread : Printer.count.parse.run ((store b).take k) with
  | error err => exact ⟨_, by rw [unstore, hread]⟩
  | ok r =>
    obtain ⟨n, rest⟩ := r
    -- the number that is read is the one in front of the frame
    obtain ⟨w, hw, htake⟩ := Printer.isVarint_of_parse_count hread
    have hsplit : Printer.count.print b.length ++ b = w ++ (rest ++ (store b).drop k) := by
      rw [← append_assoc, ← htake, take_append_drop]
      rfl
    obtain ⟨rfl, hb⟩ := (Printer.isVarint_print_count b.length).append_inj hw hsplit
    have hlen := congrArg List.length hb
    rw [length_append, length_drop] at hlen
    exact ⟨_, by rw [unstore, htake, Printer.count.parses]; exact if_neg (by omega)⟩

/-- The values as `sample` writes them, in frames. -/
def SegmentLibs.stored : SegmentLibs :=
  { SegmentLibs.sample with compress := fun b => .ok (store b), decompress := unstore }

theorem SegmentLibs.lawful_stored : SegmentLibs.stored.Lawful :=
  { SegmentLibs.lawful_sample with zstd := fun b => ⟨store b, rfl, unstore_store b⟩ }

theorem SegmentLibs.truncates_stored : SegmentLibs.stored.Truncates := by
  rintro b z hz k hk
  cases hz
  exact unstore_take b hk

/-- A column may take 2³² bytes, but for its frame. -/
theorem columnsFit_stored
    (h : ∀ x ∈ rawChunks .stored (.ofEvents events), x.2.2.length + 64 < 2 ^ 32) :
    ColumnsFit .stored events := by
  rw [columnsFit_iff SegmentLibs.lawful_stored (z := store) fun _ => rfl]
  intro x hx
  have hlen := h x hx
  have hlog := Printer.log2_lt_of_lt_pow (n := x.2.2.length) (k := 32) (by omega) (by decide)
  have hle := (length_store x.2.2).2
  omega

/-! ### Two events -/

/-- Two events, one of them with a model and the other a negative correction. -/
def segmentEvents : List UsageEvent :=
  [{ sampleEvent "a" "acme" 7200000 5 with modelId := some "m" },
    { sampleEvent "b" "acme" 7100000 (-2) with kind := .correction, correctionRef := some ⟨"a", "x"⟩ }]

theorem columnsFit_segmentEvents : ColumnsFit .sample segmentEvents := by
  have hshort : ∀ chunk ∈ columnChunks .sample (segmentEvents.foldl Columns.writeEvent .new),
      (bytesOf chunk.2.2).length < 2 ^ 32 := by decide +kernel
  intro chunk hchunk raw z hraw hz
  have hlt := hshort chunk hchunk
  rw [hraw] at hlt
  obtain rfl : raw = z := Except.ok.inj hz
  exact hlt

theorem segment_roundTrip_of_two_events :
    let c := segmentEvents.foldl Columns.writeEvent .new
    (∀ chunk ∈ columnChunks .sample c, ∀ raw z, chunk.2.2 = .ok raw →
      SegmentLibs.sample.compress raw = .ok z → z.length < 2 ^ 32) ∧
    ∃ file checksum, finish .sample .sample c = .ok (file, 2, checksum) ∧
      Extern.sample.checksum (bodyOf file) = checksum ∧
      ∃ r, RawSegmentReader.new .sample .sample file = .ok r ∧ r.Yields segmentEvents :=
  ⟨columnsFit_segmentEvents,
      segment_roundTrip SegmentLibs.lawful_sample .sample segmentEvents (by decide)
      columnsFit_segmentEvents⟩

end UsageDb
