import UsageDb.Lib.Word

/-!
# Parsing what was printed

A parser takes bytes from the front of its input and fails or returns a value with the rest:
`StateT Bytes (Except ε)`. `Parses p w a` is the law of a printer and a parser: the parser `p`
reads the bytes `w` as `a`, whatever comes after them. It is closed under everything a format is
put together from: sequence, fixed numbers of bytes, and repetition. `Fails p w` says that the
parser does not get past `w`, whatever comes after it; a sequence fails where its first part that
does not parse fails.
-/

namespace UsageDb.Lib

open List

variable {ε α β : Type} {n : ℕ}

/-- A parser of bytes. -/
abbrev Parser (ε α : Type) := StateT Bytes (Except ε) α

/-- The parser reads the bytes `w` as `a`, and leaves what comes after them. -/
def Parses (p : Parser ε α) (w : Bytes) (a : α) : Prop := ∀ rest, p.run (w ++ rest) = .ok (a, rest)

/-- The parser fails on the bytes `w`, whatever comes after them. -/
def Fails (p : Parser ε α) (w : Bytes) : Prop := ∀ rest, ∃ err, p.run (w ++ rest) = .error err

namespace Parser

/-- The next `n` bytes. -/
def bytes (n : ℕ) (err : ε) : Parser ε Bytes :=
  fun s => if s.length < n then .error err else .ok (s.take n, s.drop n)

/-- The next byte. -/
def byte (err : ε) : Parser ε UInt8
  | [] => .error err
  | b :: s => .ok (b, s)

/-- A number of `n` bytes, least significant first. -/
def le (n : ℕ) (err : ε) : Parser ε ℕ := do return ofLe (← bytes n err)

/-- `p`, this many times. -/
def times (p : Parser ε α) : ℕ → Parser ε (List α)
  | 0 => return []
  | n + 1 => do return (← p) :: (← times p n)

/-- A value, or an error. -/
def except (x : Except ε α) : Parser ε α := fun s => x.map fun a => (a, s)

theorem times_map (f : α → β) (p : Parser ε α) (n : ℕ) :
    times (f <$> p) n = List.map f <$> times p n := by
  induction n with
  | zero => rfl
  | succ n ih => simp [times, ih]

end Parser

namespace Parses

variable {p : Parser ε α} {w v : Bytes} {a : α}

theorem pure (a : α) : Parses (Pure.pure a : Parser ε α) [] a := fun _ => rfl

theorem run_bind {f : α → Parser ε β} (hp : Parses p w a) (rest : Bytes) :
    (p >>= f).run (w ++ rest) = (f a).run rest := by
  rw [StateT.run_bind, hp rest]
  rfl

/-- One after another. -/
theorem bind {f : α → Parser ε β} {b : β} (hp : Parses p w a) (hf : Parses (f a) v b) :
    Parses (p >>= f) (w ++ v) b := by
  intro rest
  rw [append_assoc, hp.run_bind, hf rest]

theorem map {f : α → β} (hp : Parses p w a) : Parses (f <$> p) w (f a) := by
  intro rest
  rw [StateT.run_map, hp rest]
  rfl

theorem bytes (w : Bytes) (err : ε) : Parses (Parser.bytes w.length err) w w := by
  intro rest
  show (if (w ++ rest).length < w.length then _ else _) = _
  rw [if_neg (by simp), take_left, drop_left]

/-- Bytes of the length asked for. -/
theorem bytes_of_length (h : w.length = n) (err : ε) : Parses (Parser.bytes n err) w w :=
  h ▸ bytes w err

theorem byte (b : UInt8) (err : ε) : Parses (Parser.byte err) [b] b := fun _ => rfl

/-- A number that fits. -/
theorem le {x : ℕ} (h : x < 256 ^ n) (err : ε) : Parses (Parser.le n err) (leBytes n x) x := by
  have hbytes := (bytes_of_length (length_leBytes n x) err).map (f := ofLe)
  rw [ofLe_leBytes_of_lt h] at hbytes
  exact hbytes

/-- Of a number that does not fit the low bytes are read. -/
theorem le_mod (n x : ℕ) (err : ε) : Parses (Parser.le n err) (leBytes n x) (x % 256 ^ n) := by
  have hbytes := (bytes_of_length (length_leBytes n x) err).map (f := ofLe)
  rwa [ofLe_leBytes] at hbytes

/-- A value that is already there. -/
theorem except {x : Except ε α} (h : x = .ok a) : Parses (Parser.except x) [] a := by
  intro rest
  rw [h]
  rfl

/-- Repetition: the values printed one after another. -/
theorem times {print : β → Bytes} {val : β → α} (bs : List β)
    (h : ∀ b ∈ bs, Parses p (print b) (val b)) :
    Parses (p.times bs.length) (bs.flatMap print) (bs.map val) := by
  induction bs with
  | nil => exact pure []
  | cons b bs ih =>
    have hrest := ih fun b hb => h b (mem_cons_of_mem _ hb)
    rw [flatMap_cons, map_cons]
    refine (h b mem_cons_self).bind ?_
    have hboth := hrest.bind (f := fun l => (Pure.pure (val b :: l) : Parser ε (List α))) (pure _)
    rwa [append_nil] at hboth

end Parses

namespace Fails

variable {p : Parser ε α} {w v : Bytes} {a : α} {f : α → Parser ε β}

/-- What comes after does not help. -/
theorem append (h : Fails p w) (v : Bytes) : Fails p (w ++ v) := by
  intro rest
  rw [append_assoc]
  exact h (v ++ rest)

/-- A sequence fails in its first part, … -/
theorem bind (h : Fails p w) : Fails (p >>= f) w := by
  intro rest
  obtain ⟨err, herr⟩ := h rest
  rw [StateT.run_bind, herr]
  exact ⟨err, rfl⟩

/-- … or in its second. -/
theorem after (hp : Parses p w a) (hf : Fails (f a) v) : Fails (p >>= f) (w ++ v) := by
  intro rest
  rw [append_assoc, hp.run_bind]
  exact hf rest

theorem except {x : Except ε α} {err : ε} (h : x = .error err) : Fails (Parser.except x) [] := by
  intro rest
  rw [h]
  exact ⟨err, rfl⟩

/-- Repetition fails at the first value that does. -/
theorem times {γ : Type} {print : γ → Bytes} {g : γ → α} {bs : List γ} {P : γ → Prop}
    (h : ∀ b ∈ bs, P b → Parses p (print b) (g b)) (hfail : ∀ b ∈ bs, ¬ P b → Fails p (print b))
    (hex : ∃ b ∈ bs, ¬ P b) : Fails (p.times bs.length) (bs.flatMap print) := by
  induction bs with
  | nil =>
    obtain ⟨b, hb, -⟩ := hex
    cases hb
  | cons b bs ih =>
    rw [flatMap_cons]
    by_cases hP : P b
    · refine after (h b mem_cons_self hP) (bind (ih (fun b hb => h b (mem_cons_of_mem _ hb))
        (fun b hb => hfail b (mem_cons_of_mem _ hb)) ?_))
      obtain ⟨b', hb', hne⟩ := hex
      rcases mem_cons.1 hb' with rfl | hb'
      · exact absurd hP hne
      · exact ⟨b', hb', hne⟩
    · exact (bind (hfail b mem_cons_self hP)).append _

end Fails

/-! ### Where a parser fails -/

theorem except_bind_eq_ok {x : Except ε α} {f : α → Except ε β} {b : β} : x >>= f = .ok b ↔
    ∃ a, x = .ok a ∧ f a = .ok b := by
  cases x with
  | error err => exact ⟨fun h => (nomatch h), fun ⟨_, ha, _⟩ => (nomatch ha)⟩
  | ok a => exact ⟨fun h => ⟨a, rfl, h⟩, fun ⟨_, ha, h⟩ => Except.ok.inj ha ▸ h⟩

theorem except_bind_eq_error {x : Except ε α} {f : α → Except ε β} {err : ε} : x >>= f = .error err ↔
    x = .error err ∨ ∃ a, x = .ok a ∧ f a = .error err := by
  cases x with
  | error e =>
    constructor
    · intro h
      cases h
      exact .inl rfl
    · rintro (h | ⟨a, ha, -⟩)
      · cases h
        rfl
      · cases ha
  | ok a =>
    constructor
    · exact fun h => .inr ⟨a, rfl, h⟩
    · rintro (h | ⟨b, hb, h⟩)
      · cases h
      · cases hb
        exact h

namespace Parser

variable {err : ε} {p : Parser ε α} {f : α → Parser ε β} {s : Bytes} {rest : Bytes}

theorem run_bind_eq_ok {b : β} : (p >>= f).run s = .ok (b, rest) ↔
    ∃ a mid, p.run s = .ok (a, mid) ∧ (f a).run mid = .ok (b, rest) := by
  rw [StateT.run_bind]
  cases h : p.run s with
  | error e => exact ⟨fun he => (nomatch he), fun ⟨_, _, heq, _⟩ => (nomatch heq)⟩
  | ok r =>
    refine ⟨fun he => ⟨r.1, r.2, rfl, he⟩, fun ⟨a, mid, heq, he⟩ => ?_⟩
    cases heq
    exact he

/-- A sequence fails in its first part, or after it. -/
theorem run_bind_eq_error : (p >>= f).run s = .error err ↔
    p.run s = .error err ∨ ∃ a rest, p.run s = .ok (a, rest) ∧ (f a).run rest = .error err := by
  rw [StateT.run_bind]
  cases h : p.run s with
  | error e =>
    constructor
    · intro he
      cases he
      exact .inl rfl
    · rintro (he | ⟨a, rest, heq, -⟩)
      · cases he
        rfl
      · cases heq
  | ok r =>
    constructor
    · exact fun he => .inr ⟨r.1, r.2, rfl, he⟩
    · rintro (he | ⟨a, rest, heq, he⟩)
      · cases he
      · cases heq
        exact he

theorem run_bytes_eq_error {err' : ε} : (bytes n err').run s = .error err ↔ s.length < n ∧
    err' = err := by
  show (if s.length < n then Except.error err' else .ok (s.take n, s.drop n)) = _ ↔ _
  split_ifs with h <;> simp [h]

theorem run_bytes_eq_ok {w : Bytes} :
    (bytes n err).run s = .ok (w, rest) ↔ w.length = n ∧ s = w ++ rest := by
  show (if s.length < n then Except.error err else .ok (s.take n, s.drop n)) = _ ↔ _
  split_ifs with h
  · refine ⟨fun he => (nomatch he), ?_⟩
    rintro ⟨rfl, rfl⟩
    simp at h
  · constructor
    · intro he
      cases he
      exact ⟨length_take_of_le (not_lt.1 h), (take_append_drop n s).symm⟩
    · rintro ⟨rfl, rfl⟩
      simp

theorem run_byte_eq_ok {b : UInt8} : (byte err).run s = .ok (b, rest) ↔ s = b :: rest := by
  cases s with
  | nil => exact ⟨fun h => (nomatch h), fun h => (nomatch h)⟩
  | cons c s =>
    refine ⟨fun h => ?_, fun h => ?_⟩
    · cases h
      rfl
    · cases h
      rfl

theorem run_le_eq_ok {x : ℕ} :
    (le n err).run s = .ok (x, rest) ↔ ∃ w : Bytes, w.length = n ∧ s = w ++ rest ∧ x = ofLe w := by
  rw [le, run_bind_eq_ok]
  constructor
  · rintro ⟨w, mid, hw, h⟩
    cases h
    obtain ⟨hlen, hs⟩ := run_bytes_eq_ok.1 hw
    exact ⟨w, hlen, hs, rfl⟩
  · rintro ⟨w, hlen, hs, rfl⟩
    exact ⟨w, rest, run_bytes_eq_ok.2 ⟨hlen, hs⟩, rfl⟩

theorem run_except_eq_ok {x : Except ε α} {a : α} :
    (except x).run s = .ok (a, rest) ↔ x = .ok a ∧ s = rest := by
  cases x with
  | error e => exact ⟨fun h => (nomatch h), fun h => (nomatch h.1)⟩
  | ok b =>
    refine ⟨fun h => ?_, fun ⟨h, hs⟩ => ?_⟩
    · cases h
      exact ⟨rfl, rfl⟩
    · cases h
      cases hs
      rfl

end Parser

end UsageDb.Lib
