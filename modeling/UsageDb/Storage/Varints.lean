import UsageDb.Storage.SegmentRoundTrip

/-!
# The quantities of a segment

`decode_zigzag_varint` reads as many numbers as the column announces, each in groups of seven bits,
and takes the sign out of the lowest bit of each. The check against too many bits is on the place of
a group, and the group at place 126 is let through as a whole although a `u128` has room for two
bits of it only.

What the column accepts is said once, in terms of the numbers that its bytes stand for
(`decodeVarints_of_announces`, `announces_of_decodeVarints`): numbers of at most 19 groups, each
modulo 2¹²⁸. So what is decoded is exact, and too large a number is rejected, exactly if no number
has a 19th group of more than two bits (`varints_exact_iff`). -/

namespace UsageDb

open Lib List

variable {name : String} {bytes bytes' : Bytes} {ws ws' : List Bytes} {values : List I128}

/-- `x`: the number of a quantity, before the sign is taken out of it. -/
def readU128 (name : String) : Parser SegmentError ℕ := fun bytes =>
  match readVarint 128 0 0 bytes with
  | .ok r => .ok r
  | .error .truncated => .error (.varintTruncated name)
  | .error .overflow => .error (.varintOverflow name)

/-- The quantity of a number. -/
def quantityOfU128 (x : ℕ) : I128 := i128OfBits (unzigzag (BitVec.ofNat 128 x))

/-- The numbers that `decode_zigzag_varint` reads. -/
def decodeVarints (bytes : Bytes) (name : String) : Except SegmentError (List ℕ) := do
  let count ← (Parser.le 4 (.missingCount name)).run bytes
  let xs ← ((readU128 name).times count.1).run count.2
  return xs.1

theorem readQuantity_eq (name : String) : readQuantity name = quantityOfU128 <$> readU128 name := by
  funext bytes
  show readQuantity name bytes = (readU128 name bytes >>= fun r => .ok (quantityOfU128 r.1, r.2))
  rw [readQuantity, readU128]
  rcases readVarint 128 0 0 bytes with (_ | _) | _ <;> rfl

/-- The quantities are those of the numbers. -/
theorem decodeZigzagVarint_eq (bytes : Bytes) (name : String) :
    decodeZigzagVarint bytes name = (decodeVarints bytes name).map (List.map quantityOfU128) := by
  rw [decodeZigzagVarint, decodeVarints, readQuantity_eq]
  cases (Parser.le 4 (SegmentError.missingCount name)).run bytes with
  | error err => rfl
  | ok count =>
    show (do let values ← ((quantityOfU128 <$> readU128 name).times count.1).run count.2; _) = _
    rw [Parser.times_map, StateT.run_map]
    show _ = Except.map _ (do let xs ← ((readU128 name).times count.1).run count.2; _)
    cases ((readU128 name).times count.1).run count.2 <;> rfl

/-! ### What is accepted -/

/-- The column is a count, that many numbers, and perhaps something after them. -/
def Announces (bytes : Bytes) (ws : List Bytes) : Prop :=
  ∃ count rest : Bytes, count.length = 4 ∧ ofLe count = ws.length ∧ (∀ w ∈ ws, IsVarint w) ∧
    bytes = count ++ (ws.flatten ++ rest)

/-- One number: the place of the 19th group is below 128, that of the 20th is not. -/
theorem run_readU128 {w : Bytes} (hw : IsVarint w) (rest : Bytes) : (readU128 name).run (w ++ rest) =
    if w.length ≤ 19 then .ok (varintValue w % 2 ^ 128, rest) else .error (.varintOverflow name) := by
  have hread := readVarint_append hw (show 0 < 2 ^ 0 by decide) (show 0 < 128 by decide) rest
  show readU128 name (w ++ rest) = _
  rw [readU128, hread]
  by_cases hlen : w.length ≤ 19
  · rw [if_pos hlen, if_pos (by omega), Nat.zero_add, pow_zero, Nat.mul_one]
  · rw [if_neg hlen, if_neg (by omega)]

theorem isVarint_of_readU128 {x : ℕ} {rest : Bytes} (h : (readU128 name).run bytes = .ok (x, rest)) :
    ∃ w, IsVarint w ∧ bytes = w ++ rest := by
  change readU128 name bytes = _ at h
  rw [readU128] at h
  split at h
  · next r hread =>
    cases h
    exact isVarint_of_readVarint hread
  · cases h
  · cases h

/-- All of them, unless one has too many groups. -/
theorem run_times_readU128 (hws : ∀ w ∈ ws, IsVarint w) (rest : Bytes) :
    ((readU128 name).times ws.length).run (ws.flatten ++ rest) =
      if ∀ w ∈ ws, w.length ≤ 19 then .ok (ws.map fun w => varintValue w % 2 ^ 128, rest)
      else .error (.varintOverflow name) := by
  induction ws with
  | nil => rfl
  | cons w ws ih =>
    have hrest := ih fun w hw => hws w (mem_cons_of_mem _ hw)
    have hcons : (∀ v ∈ w :: ws, v.length ≤ 19) ↔ w.length ≤ 19 ∧ ∀ v ∈ ws, v.length ≤ 19 :=
      forall_mem_cons
    rw [length_cons, Parser.times, StateT.run_bind, flatten_cons, append_assoc,
      run_readU128 (hws w mem_cons_self)]
    by_cases hw : w.length ≤ 19
    · rw [if_pos hw]
      show (StateT.run ((readU128 name).times ws.length >>=
        fun xs => pure (varintValue w % 2 ^ 128 :: xs)) _) = _
      rw [StateT.run_bind, hrest]
      by_cases hall : ∀ w ∈ ws, w.length ≤ 19
      · rw [if_pos hall, if_pos (hcons.2 ⟨hw, hall⟩)]
        rfl
      · rw [if_neg hall, if_neg fun h => hall (hcons.1 h).2]
        rfl
    · rw [if_neg hw, if_neg fun h => hw (hcons.1 h).1]
      rfl

theorem isVarint_of_times {n : ℕ} {xs : List ℕ} {rest : Bytes}
    (h : ((readU128 name).times n).run bytes = .ok (xs, rest)) :
    ∃ ws : List Bytes, ws.length = n ∧ (∀ w ∈ ws, IsVarint w) ∧ bytes = ws.flatten ++ rest := by
  induction n generalizing bytes xs with
  | zero =>
    cases h
    exact ⟨[], rfl, by simp, rfl⟩
  | succ n ih =>
    obtain ⟨x, mid, hx, h⟩ := Parser.run_bind_eq_ok.1 h
    obtain ⟨xs', rest', hxs, h⟩ := Parser.run_bind_eq_ok.1 h
    cases h
    obtain ⟨w, hw, rfl⟩ := isVarint_of_readU128 hx
    obtain ⟨ws, rfl, hws, rfl⟩ := ih hxs
    exact ⟨w :: ws, rfl, forall_mem_cons.2 ⟨hw, hws⟩, by rw [flatten_cons, append_assoc]⟩

/-- **What a column of complete numbers is decoded to.** -/
theorem decodeVarints_of_announces (h : Announces bytes ws) : decodeVarints bytes name =
    if ∀ w ∈ ws, w.length ≤
      19 then .ok (ws.map fun w => varintValue w % 2 ^ 128) else .error (.varintOverflow name) := by
  obtain ⟨count, rest, hlen, hcount, hws, rfl⟩ := h
  have hle : (Parser.le 4 (SegmentError.missingCount name)).run (count ++ (ws.flatten ++ rest)) =
      .ok (ws.length, ws.flatten ++ rest) := Parser.run_le_eq_ok.2 ⟨count, hlen, rfl, hcount.symm⟩
  rw [decodeVarints, hle]
  show (do let xs ← ((readU128 name).times ws.length).run (ws.flatten ++ rest); _) = _
  rw [run_times_readU128 hws]
  split_ifs <;> rfl

/-- **What is decoded is a column of complete numbers.** -/
theorem announces_of_decodeVarints {xs : List ℕ} (h : decodeVarints bytes name = .ok xs) :
    ∃ ws, Announces bytes ws := by
  obtain ⟨⟨n, mid⟩, hcount, h⟩ := except_bind_eq_ok.1 h
  obtain ⟨⟨xs', rest⟩, htimes, -⟩ := except_bind_eq_ok.1 h
  obtain ⟨count, hlen, rfl, rfl⟩ := Parser.run_le_eq_ok.1 hcount
  obtain ⟨ws, hn, hws, rfl⟩ := isVarint_of_times htimes
  exact ⟨ws, count, rest, hlen, hn.symm, hws, rfl⟩

/-- A list of numbers can be told from its bytes. -/
theorem flatten_append_inj {s s' : Bytes} (hws : ∀ w ∈ ws, IsVarint w) (hws' : ∀ w ∈ ws', IsVarint w)
    (hlen : ws.length = ws'.length) (h : ws.flatten ++ s = ws'.flatten ++ s') : ws = ws' := by
  induction ws generalizing ws' with
  | nil => exact (length_eq_zero_iff.1 hlen.symm).symm
  | cons w ws ih =>
    obtain ⟨w', ws', rfl⟩ := exists_cons_of_length_eq_add_one hlen.symm
    rw [flatten_cons, flatten_cons, append_assoc, append_assoc] at h
    obtain ⟨rfl, htail⟩ := (hws w mem_cons_self).append_inj (hws' w' mem_cons_self) h
    rw [ih (fun w hw => hws w (mem_cons_of_mem _ hw)) (fun w hw => hws' w (mem_cons_of_mem _ hw))
      (Nat.succ_injective hlen) htail]

theorem Announces.unique (h : Announces bytes ws) (h' : Announces bytes ws') : ws = ws' := by
  obtain ⟨count, rest, hlen, hcount, hws, rfl⟩ := h
  obtain ⟨count', rest', hlen', hcount', hws', heq⟩ := h'
  obtain ⟨rfl, htail⟩ := append_inj heq (hlen.trans hlen'.symm)
  exact flatten_append_inj hws hws' (hcount.symm.trans hcount') htail

/-! ### What is exact -/

/-- The number has a 19th group of more than the two bits that there is room for. -/
def Spills (w : Bytes) : Prop := w.length = 19 ∧ ∃ b ∈ w.getLast?, 4 ≤ b.toNat

/-- One of the numbers does, and none has more than 19 groups. -/
def Spilled (bytes : Bytes) : Prop := ∃ ws, Announces bytes ws ∧ (∀ w ∈ ws, w.length ≤ 19) ∧
    ∃ w ∈ ws, Spills w

theorem two_pow_le_varintValue_iff {w : Bytes} (hw : IsVarint w) (hlen : w.length ≤ 19) :
    2 ^ 128 ≤ varintValue w ↔ Spills w := by
  obtain ⟨v, b, rfl, hb⟩ := hw.eq_append
  have hv := varintValue_lt v
  have hvalue : varintValue (v ++ [b]) = varintValue v + 2 ^ (7 * v.length) * b.toNat := by
    rw [varintValue_append, varintValue_cons, varintValue_nil, group_of_last hb,
      Nat.mul_zero, Nat.add_zero]
  rw [length_append, length_singleton] at hlen
  constructor
  · intro hbig
    have hlong : v.length = 18 := by
      by_contra hshort
      have hlt := varintValue_lt (v ++ [b])
      have hle : 2 ^ (7 * (v ++ [b]).length) ≤ 2 ^ 126 :=
        Nat.pow_le_pow_right (by decide) (by rw [length_append, length_singleton]; omega)
      omega
    rw [hvalue, hlong] at hbig
    rw [hlong] at hv
    refine ⟨by rw [length_append, hlong]; rfl, b, by simp, by omega⟩
  · rintro ⟨hlong, c, hc, hfour⟩
    rw [length_append, length_singleton] at hlong
    obtain rfl : b = c := by simpa using hc
    rw [hvalue, show v.length = 18 by omega]
    omega

/-- What a column of quantities is to be: the numbers are those that its bytes stand for, too large
a number is rejected as such, and what has been decoded is decoded again after it is encoded. -/
structure ExactVarints (bytes : Bytes) (name : String) : Prop where
  /-- Nothing is cut off. -/
  exact : ∀ xs, decodeVarints bytes name = .ok xs → ∃ ws, Announces bytes ws ∧ xs = ws.map varintValue
  /-- What does not fit is rejected. -/
  overflow : ∀ ws, Announces bytes ws → (∃ w ∈ ws, 2 ^ 128 ≤ varintValue w) →
    decodeZigzagVarint bytes name = .error (.varintOverflow name)
  /-- The quantities can be written and read again. -/
  again : ∀ values, decodeZigzagVarint bytes name = .ok values →
    decodeZigzagVarint (encodeZigzagVarintI128 values) name = .ok values

theorem decodeZigzagVarint_eq_ok (h : decodeZigzagVarint bytes name = .ok values) :
    ∃ ws, Announces bytes ws ∧ (∀ w ∈ ws, w.length ≤ 19) ∧
      values = ws.map fun w => quantityOfU128 (varintValue w % 2 ^ 128) := by
  rw [decodeZigzagVarint_eq] at h
  cases hxs : decodeVarints bytes name with
  | error err =>
    rw [hxs] at h
    cases h
  | ok xs =>
    obtain ⟨ws, hws⟩ := announces_of_decodeVarints hxs
    rw [decodeVarints_of_announces hws] at h
    split_ifs at h with hlen
    · cases h
      exact ⟨ws, hws, hlen, by rw [map_map]; rfl⟩
    · cases h

/-- Quantities that have been decoded are not too many to be encoded. -/
theorem decode_encode_of_decode (h : decodeZigzagVarint bytes name = .ok values) :
    decodeZigzagVarint (encodeZigzagVarintI128 values) name = .ok values := by
  obtain ⟨ws, ⟨count, rest, hlen, hcount, -, -⟩, -, rfl⟩ := decodeZigzagVarint_eq_ok h
  refine decodeZigzagVarint_encode ?_ name
  have hlt := ofLe_lt count
  rw [hlen, hcount] at hlt
  rw [length_map]
  exact hlt

theorem varintValue_lt_of_not_spilled (hsp : ¬ Spilled bytes) (hws : Announces bytes ws)
    (hlen : ∀ w ∈ ws, w.length ≤ 19) {w : Bytes} (hw : w ∈ ws) : varintValue w < 2 ^ 128 := by
  have hvarint : IsVarint w := by
    obtain ⟨_, _, -, -, hall, -⟩ := hws
    exact hall w hw
  by_contra hbig
  exact hsp ⟨ws, hws, hlen, w, hw, (two_pow_le_varintValue_iff hvarint (hlen w hw)).1 (not_lt.1 hbig)⟩

/-- **A column is exact if and only if nothing spills.** -/
theorem exactVarints_iff : ExactVarints bytes name ↔ ¬ Spilled bytes := by
  constructor
  · rintro ⟨hexact, -, -⟩ ⟨ws, hws, hlen, w, hw, hspills⟩
    have hvarint : IsVarint w := by
      obtain ⟨_, _, -, -, hall, -⟩ := hws
      exact hall w hw
    have hdecode : decodeVarints bytes name = .ok (ws.map fun w => varintValue w % 2 ^ 128) := by
      rw [decodeVarints_of_announces hws, if_pos hlen]
    obtain ⟨ws', hws', heq⟩ := hexact _ hdecode
    obtain rfl := hws.unique hws'
    have hmod : varintValue w % 2 ^ 128 = varintValue w := map_inj_left.1 heq w hw
    have hlt : varintValue w % 2 ^ 128 < 2 ^ 128 := Nat.mod_lt _ (by decide)
    have hbig := (two_pow_le_varintValue_iff hvarint (hlen w hw)).2 hspills
    omega
  · intro hsp
    refine ⟨fun xs hxs => ?_, fun ws hws hbig => ?_, fun values => decode_encode_of_decode⟩
    · obtain ⟨ws, hws⟩ := announces_of_decodeVarints hxs
      rw [decodeVarints_of_announces hws] at hxs
      split_ifs at hxs with hlen
      cases hxs
      refine ⟨ws, hws, map_congr_left fun w hw => ?_⟩
      exact Nat.mod_eq_of_lt (varintValue_lt_of_not_spilled hsp hws hlen hw)
    · have hlen : ¬ ∀ w ∈ ws, w.length ≤ 19 := by
        intro hlen
        obtain ⟨w, hw, hle⟩ := hbig
        have hlt := varintValue_lt_of_not_spilled hsp hws hlen hw
        omega
      rw [decodeZigzagVarint_eq, decodeVarints_of_announces hws, if_neg hlen]
      rfl

/-- The number of a quantity is what is written for it. -/
theorem zigzag_quantityOfU128 {x : ℕ} (hx : x < 2 ^ 128) :
    (zigzag (bitsOfI128 (quantityOfU128 x))).toNat = x := by
  have hbits : bitsOfI128 (quantityOfU128 x) = unzigzag (BitVec.ofNat 128 x) := BitVec.ofInt_toInt
  rw [hbits, zigzag_unzigzag, BitVec.toNat_ofNat, Nat.mod_eq_of_lt hx]

/-- So the numbers of a column are read off its quantities. -/
theorem map_varintValue_of_decode (hsp : ¬ Spilled bytes) (hws : Announces bytes ws)
    (h : decodeZigzagVarint bytes name = .ok values) :
    ws.map varintValue = values.map fun v => (zigzag (bitsOfI128 v)).toNat := by
  obtain ⟨vs, hvs, hlen, rfl⟩ := decodeZigzagVarint_eq_ok h
  obtain rfl := hvs.unique hws
  rw [map_map]
  refine map_congr_left fun w hw => ?_
  have hlt := varintValue_lt_of_not_spilled hsp hvs hlen hw
  rw [Function.comp_apply, Nat.mod_eq_of_lt hlt, zigzag_quantityOfU128 hlt]

/-- **Quantities**: the numbers of two columns are read exactly, too large a number is rejected, and
columns that are read as the same quantities stand for the same numbers, if and only if nothing
spills in either. -/
theorem varints_exact_iff (bytes bytes' : Bytes) (name : String) :
    (ExactVarints bytes name ∧ ExactVarints bytes' name ∧
      ∀ values, decodeZigzagVarint bytes name = .ok values →
      decodeZigzagVarint bytes' name = .ok values →
        ∀ ws ws', Announces bytes ws → Announces bytes' ws' →
        ws.map varintValue = ws'.map varintValue) ↔
    ¬ Spilled bytes ∧ ¬ Spilled bytes' := by
  constructor
  · rintro ⟨hexact, hexact', -⟩
    exact ⟨exactVarints_iff.1 hexact, exactVarints_iff.1 hexact'⟩
  · rintro ⟨hsp, hsp'⟩
    refine ⟨exactVarints_iff.2 hsp, exactVarints_iff.2 hsp', fun values h h' ws ws' hws hws' => ?_⟩
    rw [map_varintValue_of_decode hsp hws h, map_varintValue_of_decode hsp' hws' h']

/-- `2 ^ 128` in 19 groups. -/
def spilledPayload : Bytes := leBytes 4 1 ++ (List.replicate 18 0x80 ++ [4])

/-- It is read as zero. -/
theorem high_bits_dropped : decodeZigzagVarint spilledPayload "quantity" = .ok [0] ∧
    (Announces spilledPayload [List.replicate 18 0x80 ++ [4]] ∧
      varintValue (List.replicate 18 0x80 ++ [4]) = 2 ^ 128) ∧
    ¬ ExactVarints spilledPayload "quantity" := by
  have hws : Announces spilledPayload [List.replicate 18 0x80 ++ [4]] := by
    refine ⟨leBytes 4 1, [], rfl, by decide, ?_, rfl⟩
    intro w hw
    obtain rfl := mem_singleton.1 hw
    iterate 18 refine .more (by decide) ?_
    exact .last (by decide)
  refine ⟨by decide +kernel, ⟨hws, by decide +kernel⟩, fun hexact => ?_⟩
  exact exactVarints_iff.1 hexact ⟨_, hws, by decide, _, mem_singleton_self _, rfl, 4, rfl, le_rfl⟩

end UsageDb
