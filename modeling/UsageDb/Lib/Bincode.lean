import UsageDb.Lib.Parse

/-!
# Binary formats

A `Format` is a printer and a parser of the values of a type with the two laws that tie them
together: what was printed is read (`parses`), and nothing else is read: the bytes that the parser
takes for a value are those the printer prints for it (`printed`). By the second law a value is read
only from bytes that are at least as many as its own (`length_print_le`), whatever these bytes were
printed from.

The formats are those of `bincode` 1.3: numbers of a fixed width, least significant byte first;
bytes after their number; an optional value after a tag; and one value after another, with nothing
between them. A record is read by a visitor that asks for its fields one by one and is told when
there are no more (`nextElement`); only then does a default apply (`defaultField`). The number of
fields is that of the type, so as long as it is asked for no more, every field is read
(`run_requiredField_succ`, `run_defaultField_succ`). -/

namespace UsageDb.Lib

open List

variable {ε α β : Type} {s : Bytes}

/-- A printer and a parser of the values of a type. -/
structure Format (ε α : Type) where
  /-- The bytes of a value. -/
  print : α → Bytes
  /-- The value at the front of some bytes. -/
  parse : Parser ε α
  /-- The values that can be printed. -/
  Fits : α → Prop
  /-- What was printed is read. -/
  parses : ∀ {a}, Fits a → Parses parse (print a) a
  /-- What is read can be printed. -/
  fits : ∀ {s a rest}, parse.run s = .ok (a, rest) → Fits a
  /-- What is read was printed. -/
  printed : ∀ {s a rest}, parse.run s = .ok (a, rest) → s = print a ++ rest

/-- **A value is read only from as many bytes as its own.** -/
theorem Format.length_print_le (F : Format ε α) {rest : Bytes} {a : α}
    (h : F.parse.run s = .ok (a, rest)) :
    (F.print a).length ≤ s.length := by
  rw [F.printed h, length_append]
  omega

namespace Format

variable {w : ℕ}

/-! ### Numbers -/

theorem leBytes_ofLe (bs : Bytes) : leBytes bs.length (ofLe bs) = bs := by
  induction bs with
  | nil => rfl
  | cons b bs ih =>
    have hb := b.toNat_lt
    rw [length_cons, ofLe, leBytes, show (b.toNat + 256 * ofLe bs) / 256 = ofLe bs by omega, ih]
    congr 1
    apply UInt8.toNat_inj.1
    rw [UInt8.toNat_ofNat']
    omega

/-- A number of `n` bytes. -/
def le (n : ℕ) (eof : ε) : Format ε ℕ where
  print := leBytes n
  parse := Parser.le n eof
  Fits x := x < 256 ^ n
  parses h := Parses.le h eof
  fits := by
    intro s x rest h
    obtain ⟨w, rfl, -, rfl⟩ := Parser.run_le_eq_ok.1 h
    exact ofLe_lt w
  printed := by
    intro s x rest h
    obtain ⟨w, rfl, rfl, rfl⟩ := Parser.run_le_eq_ok.1 h
    rw [leBytes_ofLe]

/-! ### Another type with the same bytes -/

/-- The values of `β` are printed as values `enc b` of `α`; `dec` may reject a value of `α`. -/
def via (F : Format ε α) (enc : β → α) (dec : α → Except ε β) (P : β → Prop)
    (henc : ∀ b, P b → F.Fits (enc b) ∧ dec (enc b) = .ok b) (hdec : ∀ a b, F.Fits a →
      dec a = .ok b → P b ∧ enc b = a) :
    Format ε β where
  print b := F.print (enc b)
  parse := F.parse >>= fun a => Parser.except (dec a)
  Fits := P
  parses := by
    intro b hb
    obtain ⟨hfits, hback⟩ := henc b hb
    have h := (F.parses hfits).bind (f := fun a => Parser.except (dec a)) (Parses.except hback)
    rwa [append_nil] at h
  fits := by
    intro s b rest h
    obtain ⟨a, mid, ha, hb⟩ := Parser.run_bind_eq_ok.1 h
    exact (hdec a b (F.fits ha) (Parser.run_except_eq_ok.1 hb).1).1
  printed := by
    intro s b rest h
    obtain ⟨a, mid, ha, hb⟩ := Parser.run_bind_eq_ok.1 h
    obtain ⟨hdone, rfl⟩ := Parser.run_except_eq_ok.1 hb
    rw [(hdec a b (F.fits ha) hdone).2]
    exact F.printed ha

theorem run_via_error {F : Format ε α} {enc : β → α} {dec : α → Except ε β} {P : β → Prop}
    {henc : ∀ b, P b → F.Fits (enc b) ∧ dec (enc b) = .ok b}
    {hdec : ∀ a b, F.Fits a → dec a = .ok b → P b ∧ enc b = a} {err : ε}
    (h : F.parse.run s = .error err) : (F.via enc dec P henc hdec).parse.run s = .error err :=
  Parser.run_bind_eq_error.2 (.inl h)

/-- The number that has the bits of a signed number of `w + 1` bits. -/
def bitsOf (w : ℕ) (x : SInt w) : ℕ := ((x : ℤ) % 2 ^ (w + 1)).toNat

theorem natCast_bitsOf (x : SInt w) : (bitsOf w x : ℤ) = x % 2 ^ (w + 1) :=
  Int.toNat_of_nonneg (Int.emod_nonneg _ (by positivity))

theorem bitsOf_lt (x : SInt w) : bitsOf w x < 2 ^ (w + 1) := by
  have hlt : (bitsOf w x : ℤ) < 2 ^ (w + 1) := by
    rw [natCast_bitsOf]
    exact Int.emod_lt_of_pos _ (by positivity)
  exact_mod_cast hlt

theorem wrap_bitsOf (x : SInt w) : SInt.wrap w (bitsOf w x) = x := by
  rw [natCast_bitsOf, SInt.wrap_congr (Int.emod_emod_of_dvd _ dvd_rfl), SInt.wrap_val]

theorem bitsOf_wrap {x : ℕ} (hx : x < 2 ^ (w + 1)) : bitsOf w (SInt.wrap w x) = x := by
  have hlt : (x : ℤ) < 2 ^ (w + 1) := by exact_mod_cast hx
  rw [bitsOf, SInt.wrap_emod, Int.emod_eq_of_lt (by omega) hlt, Int.toNat_natCast]

/-- A signed number of `n` bytes, two's complement. -/
def signed (w n : ℕ) (hn : 256 ^ n = 2 ^ (w + 1)) (eof : ε) : Format ε (SInt w) :=
  (le n eof).via (bitsOf w) (fun x => .ok (SInt.wrap w x)) (fun _ => True)
    (fun x _ => ⟨(bitsOf_lt x).trans_eq hn.symm, congrArg _ (wrap_bitsOf x)⟩)
    (fun _ _ hx h => ⟨trivial, Except.ok.inj h ▸ bitsOf_wrap (lt_of_lt_of_eq hx hn)⟩)

/-- A signed number, in a type of all integers. -/
def integer {w : ℕ} (F : Format ε (SInt w)) (hF : ∀ x, F.Fits x) : Format ε ℤ :=
  F.via (SInt.wrap w) (fun x => .ok x) (InRange w)
    (fun _ hx => ⟨hF _, congrArg _ (SInt.wrap_of_inRange hx)⟩)
    (fun x _ _ h => Except.ok.inj h ▸ ⟨x.2, SInt.wrap_val x⟩)

/-! ### Several values -/

/-- One value after another. -/
def pair (F : Format ε α) (G : Format ε β) : Format ε (α × β) where
  print x := F.print x.1 ++ G.print x.2
  parse := do return (← F.parse, ← G.parse)
  Fits x := F.Fits x.1 ∧ G.Fits x.2
  parses := by
    rintro ⟨a, b⟩ ⟨ha, hb⟩
    refine (F.parses ha).bind ?_
    have h := (G.parses hb).bind (f := fun b => (Pure.pure (a, b) : Parser ε (α × β))) (Parses.pure _)
    rwa [append_nil] at h
  fits := by
    rintro s ⟨a, b⟩ rest h
    obtain ⟨a', mid, ha, h⟩ := Parser.run_bind_eq_ok.1 h
    obtain ⟨b', mid', hb, h⟩ := Parser.run_bind_eq_ok.1 h
    cases h
    exact ⟨F.fits ha, G.fits hb⟩
  printed := by
    rintro s ⟨a, b⟩ rest h
    obtain ⟨a', mid, ha, h⟩ := Parser.run_bind_eq_ok.1 h
    obtain ⟨b', mid', hb, h⟩ := Parser.run_bind_eq_ok.1 h
    cases h
    rw [F.printed ha, G.printed hb, append_assoc]

/-- A pair fails in its first value, … -/
theorem run_pair_error_left {F : Format ε α} (G : Format ε β) {err : ε}
    (h : F.parse.run s = .error err) :
    (F.pair G).parse.run s = .error err :=
  Parser.run_bind_eq_error.2 (.inl h)

/-- … or in its second, after the first was read. -/
theorem run_pair_error_right {F : Format ε α} {G : Format ε β} {a : α} {err : ε} (ha : F.Fits a)
    (h : G.parse.run s = .error err) : (F.pair G).parse.run (F.print a ++ s) = .error err :=
  Parser.run_bind_eq_error.2 (.inr ⟨a, s, F.parses ha s, Parser.run_bind_eq_error.2 (.inl h)⟩)

/-- Bytes after their number, of `n` bytes. -/
def counted (n : ℕ) (eof : ε) : Format ε Bytes where
  print w := leBytes n w.length ++ w
  parse := Parser.le n eof >>= fun k => Parser.bytes k eof
  Fits w := w.length < 256 ^ n
  parses h := (Parses.le h eof).bind (Parses.bytes _ eof)
  fits := by
    intro s w rest h
    obtain ⟨k, mid, hk, hw⟩ := Parser.run_bind_eq_ok.1 h
    rw [(Parser.run_bytes_eq_ok.1 hw).1]
    exact (le n eof).fits hk
  printed := by
    intro s w rest h
    obtain ⟨k, mid, hk, hw⟩ := Parser.run_bind_eq_ok.1 h
    obtain ⟨rfl, rfl⟩ := Parser.run_bytes_eq_ok.1 hw
    rw [(le n eof).printed hk, append_assoc]
    rfl

/-- A number of more bytes than there are. -/
theorem run_counted_error {n k : ℕ} {eof : ε} (hk : k < 256 ^ n) (hs : s.length < k) :
    (counted n eof).parse.run (leBytes n k ++ s) = .error eof :=
  Parser.run_bind_eq_error.2 (.inr ⟨k, s, Parses.le hk eof s, Parser.run_bytes_eq_error.2 ⟨hs, rfl⟩⟩)

/-- Nothing after the tag 0, or a value after the tag 1. -/
def option (F : Format ε α) (eof : ε) (badTag : UInt8 → ε) : Format ε (Option α) where
  print x := x.elim [0] fun a => 1 :: F.print a
  parse := Parser.byte eof >>= fun tag =>
    if tag = 0 then return none else if tag =
      1 then some <$> F.parse else Parser.except (.error (badTag tag))
  Fits x := ∀ a ∈ x, F.Fits a
  parses := by
    intro x hx
    cases x with
    | none => exact (Parses.byte 0 eof).bind (Parses.pure none)
    | some a => exact (Parses.byte 1 eof).bind ((F.parses (hx a rfl)).map (f := some))
  fits := by
    intro s x rest h
    obtain ⟨tag, mid, -, h⟩ := Parser.run_bind_eq_ok.1 h
    split_ifs at h
    · cases h
      simp
    · rw [map_eq_pure_bind] at h
      obtain ⟨a, mid', ha, h⟩ := Parser.run_bind_eq_ok.1 h
      cases h
      rintro a ⟨⟩
      exact F.fits ha
    · cases h
  printed := by
    intro s x rest h
    obtain ⟨tag, mid, htag, h⟩ := Parser.run_bind_eq_ok.1 h
    rw [Parser.run_byte_eq_ok.1 htag]
    split_ifs at h with h0 h1
    · cases h
      rw [h0]
      rfl
    · rw [map_eq_pure_bind] at h
      obtain ⟨a, mid', ha, h⟩ := Parser.run_bind_eq_ok.1 h
      cases h
      rw [h1, F.printed ha]
      rfl
    · cases h

end Format

/-! ### The fields of a record -/

/-- `SeqAccess::next_element`: the next field, if there are any more. The state is how many there
are. -/
def nextElement (p : Parser ε α) : StateT ℕ (Parser ε) (Option α) := fun n =>
  if n = 0 then return (none, 0) else do return (some (← p), n - 1)

/-- A field without a default. -/
def requiredField (p : Parser ε α) (missing : ε) : StateT ℕ (Parser ε) α := do
  (← nextElement p).elim (throw missing) pure

/-- A field with `#[serde(default)]`. -/
def defaultField (p : Parser ε α) (default : α) : StateT ℕ (Parser ε) α := do
  return (← nextElement p).getD default

theorem run_nextElement_succ (p : Parser ε α) (n : ℕ) : (nextElement p).run (n + 1) =
    (fun a => (some a, n)) <$> p := by
  rw [map_eq_pure_bind]
  rfl

/-- As long as there are fields, one is read; … -/
theorem run_requiredField_succ (p : Parser ε α) (missing : ε) (n : ℕ) :
    (requiredField p missing).run (n + 1) = (fun a => (a, n)) <$> p := by
  rw [requiredField, StateT.run_bind, run_nextElement_succ]
  simp

/-- … and the default does not apply. -/
theorem run_defaultField_succ (p : Parser ε α) (default : α) (n : ℕ) :
    (defaultField p default).run (n + 1) = (fun a => (a, n)) <$> p := by
  rw [defaultField, StateT.run_bind, run_nextElement_succ]
  simp

end UsageDb.Lib
