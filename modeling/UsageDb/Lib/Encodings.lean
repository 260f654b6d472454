import UsageDb.Lib.Parse
import Mathlib.Algebra.Order.BigOperators.Group.List
import Mathlib.Data.List.AList
import Mathlib.Tactic.Ring

/-!
# Encodings of columns

Four ways to write a list of values so that it compresses well, each with the way back:
differences of neighbours (`deltas`), runs of equal values (`runs`), indices into a dictionary
of the different values (`Dict`), and numbers of seven bits a byte (`varint`), signed numbers
being folded into unsigned ones before that (`zigzag`).

Each is stated with the limits a machine word gives it: a counter of runs that saturates, an
index into the dictionary that is a word, a number of so many bits. What the loop that reads a
number makes of one that has too many is said by `readVarint_append`. -/

namespace UsageDb.Lib

open List

variable {α β γ σ : Type} {n x y shift bits w : ℕ}

/-! ### Differences -/

/-- The difference of each value to the one before it, the first to `prev`. -/
def deltas (sub : α → α → α) : α → List α → List α
  | _, [] => []
  | prev, v :: vs => sub v prev :: deltas sub v vs

/-- The values of some differences. -/
def sums (add : α → α → α) : α → List α → List α
  | _, [] => []
  | prev, d :: ds => add prev d :: sums add (add prev d) ds

theorem sums_deltas {sub add : α → α → α} (h : ∀ v prev, add prev (sub v prev) = v) (prev : α)
    (vs : List α) :
    sums add prev (deltas sub prev vs) = vs := by
  induction vs generalizing prev with
  | nil => rfl
  | cons v vs ih => rw [deltas, sums, h, ih]

theorem length_deltas (sub : α → α → α) (prev : α) (vs : List α) :
    (deltas sub prev vs).length = vs.length := by
  induction vs generalizing prev with
  | nil => rfl
  | cons v vs ih => rw [deltas, length_cons, ih, length_cons]

/-! ### Runs -/

section Runs

variable [DecidableEq α] {cap : ℕ}

/-- The runs of a list that goes on a run of `current`, `count` of which have been seen; the
counter stays at `cap` once it is there. -/
def runsFrom (cap : ℕ) (current : α) (count : ℕ) : List α → List (α × ℕ)
  | [] => [(current, count)]
  | v :: vs =>
    if v = current then runsFrom cap current (min cap (count + 1)) vs else (current, count) ::
      runsFrom cap v 1 vs

/-- The runs of a list. -/
def runs (cap : ℕ) : List α → List (α × ℕ)
  | [] => []
  | first :: vs => runsFrom cap first 1 vs

/-- The values of some runs, after `out`; nothing if there are more than `limit`. -/
def expandRuns (limit : ℕ) : List α → List (α × ℕ) → Option (List α)
  | out, [] => some out
  | out, (v, c) :: rs => if limit < out.length +
      c then none else expandRuns limit (out ++ List.replicate c v) rs

theorem expandRuns_runsFrom {limit : ℕ} {current : α} {count : ℕ} (vs : List α) (out : List α)
    (hcap : count + vs.length ≤ cap) (hlimit : out.length + count + vs.length ≤ limit) :
    expandRuns limit out (runsFrom cap current count vs) =
      some (out ++ List.replicate count current ++ vs) := by
  induction vs generalizing current count out with
  | nil =>
    rw [length_nil] at hlimit
    rw [runsFrom, expandRuns, if_neg (by omega), expandRuns, append_nil]
  | cons v vs ih =>
    rw [length_cons] at hcap hlimit
    rw [runsFrom]
    by_cases hv : v = current
    · rw [if_pos hv, min_eq_right (by omega), ih out (by omega) (by omega), hv, replicate_succ']
      simp
    · rw [if_neg hv, expandRuns, if_neg (by omega), ih _ (by omega) (by simp; omega)]
      simp

theorem sum_runsFrom {current : α} {count : ℕ} (vs : List α) (hcap : count + vs.length ≤ cap) :
    ((runsFrom cap current count vs).map (·.2)).sum = count + vs.length := by
  induction vs generalizing current count with
  | nil => simp [runsFrom]
  | cons v vs ih =>
    rw [length_cons] at hcap
    rw [runsFrom]
    by_cases hv : v = current
    · rw [if_pos hv, min_eq_right (by omega), ih (by omega), length_cons]
      omega
    · rw [if_neg hv, map_cons, sum_cons, ih (by omega), length_cons]
      omega

/-- The counts of the runs add up to the length of the list. -/
theorem sum_runs {vs : List α} (hcap : vs.length ≤ cap) : ((runs cap vs).map (·.2)).sum =
    vs.length := by
  cases vs with
  | nil => rfl
  | cons v vs =>
    rw [length_cons] at hcap ⊢
    rw [runs, sum_runsFrom vs (by omega)]
    omega

/-- A list that the counter and the limit have room for comes back. -/
theorem expandRuns_runs {limit : ℕ} {vs : List α} (hcap : vs.length ≤ cap)
    (hlimit : vs.length ≤ limit) :
    expandRuns limit [] (runs cap vs) = some vs := by
  cases vs with
  | nil => rfl
  | cons v vs =>
    rw [length_cons] at hcap hlimit
    rw [runs, expandRuns_runsFrom vs [] (by omega) (by simp; omega)]
    simp

theorem length_runsFrom_le (cap : ℕ) (current : α) (count : ℕ) (vs : List α) :
    (runsFrom cap current count vs).length ≤ vs.length + 1 := by
  induction vs generalizing current count with
  | nil => exact le_rfl
  | cons v vs ih =>
    rw [runsFrom]
    split_ifs
    · exact (ih _ _).trans (Nat.le_succ _)
    · exact Nat.succ_le_succ (ih _ _)

theorem length_runs_le (cap : ℕ) (vs : List α) : (runs cap vs).length ≤ vs.length := by
  cases vs with
  | nil => exact le_rfl
  | cons v vs => exact length_runsFrom_le cap v 1 vs

end Runs

/-! ### A state that is carried along -/

/-- Each element is turned into a code, with a state that the next one sees. -/
def mapAccum (f : σ → β → σ × γ) : σ → List β → σ × List γ
  | s, [] => (s, [])
  | s, b :: bs => ((mapAccum f (f s b).1 bs).1, (f s b).2 :: (mapAccum f (f s b).1 bs).2)

theorem length_mapAccum (f : σ → β → σ × γ) (s : σ) (bs : List β) :
    (mapAccum f s bs).2.length = bs.length := by
  induction bs generalizing s with
  | nil => rfl
  | cons b bs ih => rw [mapAccum, length_cons, ih, length_cons]

/-- If each step gives a code that the state after it decodes, and what a state decodes all later
ones do, then the last state decodes all codes. `I n` is what holds after `n` steps. -/
theorem mapAccum_decode {f : σ → β → σ × γ} {g : σ → γ → Option β} {I : ℕ → σ → Prop} {m : ℕ}
    (hstep : ∀ n s b, n < m → I n s → I (n + 1) (f s b).1 ∧ g (f s b).1 (f s b).2 = some b ∧
      ∀ c x, g s c = some x → g (f s b).1 c = some x) {s : σ} (hs : I n s) (bs : List β)
    (hm : n + bs.length ≤ m) :
    (∀ c x, g s c = some x → g (mapAccum f s bs).1 c = some x) ∧
      (mapAccum f s bs).2.mapM (g (mapAccum f s bs).1) = some bs := by
  induction bs generalizing n s with
  | nil => exact ⟨fun _ _ h => h, rfl⟩
  | cons b bs ih =>
    rw [length_cons] at hm
    obtain ⟨hI, hdec, hlater⟩ := hstep n s b (by omega) hs
    obtain ⟨hkeep, hall⟩ := ih hI (by omega)
    refine ⟨fun c x h => hkeep c x (hlater c x h), ?_⟩
    rw [mapAccum]
    rw [mapM_cons, hkeep _ _ hdec, hall]
    rfl

/-! ### A dictionary -/

section Dict

variable [DecidableEq α] {ι : Type}

/-- The different values so far, in the order in which they came, and where each is. -/
structure Dict (α ι : Type) where
  values : List α
  /-- The place of each. -/
  indexOf : AList fun _ : α => ι

/-- No value yet. -/
def Dict.empty : Dict α ι := ⟨[], ∅⟩

/-- The place of a value, which is put at the end if it is new; `word` makes the number of a place
a machine word. -/
def Dict.index (word : ℕ → ι) (d : Dict α ι) (v : α) : Dict α ι × ι :=
  match d.indexOf.lookup v with
  | some i => (d, i)
  | none => (⟨d.values ++ [v], d.indexOf.insert v (word d.values.length)⟩, word d.values.length)

/-- The places of a list of values. -/
def Dict.indexAll (word : ℕ → ι) (vs : List α) : Dict α ι × List ι :=
  mapAccum (Dict.index word) .empty vs

/-- A value that may be missing has a place if it is there. -/
def Dict.indexOption (word : ℕ → ι) (d : Dict α ι) : Option α → Dict α ι × Option ι
  | none => (d, none)
  | some v => ((d.index word v).1, some (d.index word v).2)

/-- The places of a list of values that may be missing. -/
def Dict.indexAllOption (word : ℕ → ι) (vs : List (Option α)) : Dict α ι × List (Option ι) :=
  mapAccum (Dict.indexOption word) .empty vs

variable {word : ℕ → ι} {num : ι → ℕ} {m : ℕ}

/-- A dictionary has values of the list, each no more often than it. -/
theorem Dict.exists_sublist (word : ℕ → ι) (d : Dict α ι) (vs : List α) :
    ∃ l, l.Sublist vs ∧ (mapAccum (Dict.index word) d vs).1.values = d.values ++ l := by
  induction vs generalizing d with
  | nil => exact ⟨[], .slnil, (append_nil _).symm⟩
  | cons v vs ih =>
    obtain ⟨l, hl, hvalues⟩ := ih (d.index word v).1
    rw [mapAccum, hvalues, Dict.index]
    cases d.indexOf.lookup v with
    | some i => exact ⟨l, hl.cons v, rfl⟩
    | none => exact ⟨v :: l, hl.cons_cons v, by simp⟩

theorem Dict.values_sublist (word : ℕ → ι) (vs : List α) :
    (Dict.indexAll word vs).1.values.Sublist vs := by
  obtain ⟨l, hl, hvalues⟩ := Dict.exists_sublist word .empty vs
  rw [Dict.indexAll, hvalues]
  exact hl

/-- The places of a dictionary of at most `n` values are right. -/
structure Dict.Ok (num : ι → ℕ) (n : ℕ) (d : Dict α ι) : Prop where
  /-- The size. -/
  length : d.values.length ≤ n
  /-- The places. -/
  index : ∀ v i, d.indexOf.lookup v = some i → d.values[num i]? = some v

theorem Dict.ok_empty : (Dict.empty : Dict α ι).Ok num 0 := by
  refine ⟨le_rfl, fun v i h => ?_⟩
  rw [Dict.empty, AList.lookup_empty] at h
  cases h

/-- While a place fits in a word, a value is found at its place, and the others stay at theirs. -/
theorem Dict.Ok.step (hword : ∀ n < m, num (word n) = n) {d : Dict α ι} (h : d.Ok num n)
    (hn : n < m) (v : α) :
    (d.index word v).1.Ok num (n + 1) ∧
      (d.index word v).1.values[num (d.index word v).2]? = some v ∧
      ∀ (i : ℕ) x, d.values[i]? = some x → (d.index word v).1.values[i]? = some x := by
  rw [Dict.index]
  cases hv : d.indexOf.lookup v with
  | some i => exact ⟨⟨h.length.trans (Nat.le_succ n), h.index⟩, h.index v i hv, fun _ _ hx => hx⟩
  | none =>
    have hlen := h.length
    have hplace := hword d.values.length (by omega)
    have hold : ∀ (i : ℕ) x, d.values[i]? = some x → (d.values ++ [v])[i]? = some x := by
      intro i x hx
      obtain ⟨hi, -⟩ := List.getElem?_eq_some_iff.1 hx
      rw [List.getElem?_append_left hi]
      exact hx
    refine ⟨⟨by simp; omega, fun w i hw => ?_⟩, by simp [hplace], hold⟩
    by_cases hwv : w = v
    · subst hwv
      rw [AList.lookup_insert] at hw
      cases hw
      simp [hplace]
    · rw [AList.lookup_insert_ne hwv] at hw
      exact hold _ w (h.index w i hw)

/-- Where no value is there, there are no places. -/
theorem Dict.indexAllOption_none (n : ℕ) :
    Dict.indexAllOption word (List.replicate n (none : Option α)) =
      (.empty, List.replicate n none) := by
  rw [Dict.indexAllOption]
  induction n with
  | zero => rfl
  | succ n ih =>
    rw [replicate_succ, mapAccum, Dict.indexOption, ih]
    rfl

/-- The value at a place, if there is one. -/
def Dict.getOption (values : List α) : Option ℕ → Option (Option α)
  | none => some none
  | some i => values[i]?.map some

/-- All values are found at their places. -/
theorem Dict.indexAll_values (hword : ∀ n < m, num (word n) = n) {vs : List α} (h : vs.length ≤ m) :
    (Dict.indexAll word vs).2.mapM (fun i => (Dict.indexAll word vs).1.values[num i]?) = some vs := by
  refine (mapAccum_decode (m := m) (g := fun d i => d.values[num i]?)
    (I := fun n (d : Dict α ι) => d.Ok num n) (fun n d v hn hd => ?_) Dict.ok_empty vs
    (by omega)).2
  obtain ⟨hok, hv, hold⟩ := hd.step hword hn v
  exact ⟨hok, hv, fun i => hold (num i)⟩

theorem Dict.indexAllOption_values (hword : ∀ n < m, num (word n) = n) {vs : List (Option α)}
    (h : vs.length ≤ m) :
    (Dict.indexAllOption word vs).2.mapM
      (fun i => Dict.getOption (Dict.indexAllOption word vs).1.values (i.map num)) = some vs := by
  refine (mapAccum_decode (m := m) (g := fun d (i : Option ι) => Dict.getOption d.values (i.map num))
    (I := fun n (d : Dict α ι) => d.Ok num n) (fun n d v hn hd => ?_) Dict.ok_empty vs
    (by omega)).2
  cases v with
  | none => exact ⟨⟨hd.length.trans (Nat.le_succ n), hd.index⟩, rfl, fun _ _ hx => hx⟩
  | some v =>
    obtain ⟨hok, hv, hold⟩ := hd.step hword hn v
    refine ⟨hok, ?_, fun c x hx => ?_⟩
    · rw [Dict.indexOption, Option.map_some, Dict.getOption, hv]
      rfl
    · cases c with
      | none => exact hx
      | some i =>
        rw [Option.map_some, Dict.getOption, Option.map_eq_some_iff] at hx
        obtain ⟨y, hy, rfl⟩ := hx
        rw [Option.map_some, Dict.getOption, Dict.indexOption, hold _ y hy]
        rfl

end Dict

/-! ### Numbers of seven bits a byte -/

/-- Why a number could not be read. -/
inductive VarintError where
  /-- The bytes end inside it. -/
  | truncated
  /-- It has too many bits. -/
  | overflow
  deriving DecidableEq

/-- The low seven bits of a number first, every byte but the last with its high bit set; a
number of at most `7 * n` bits. -/
def varint : ℕ → ℕ → Bytes
  | 0, _ => []
  | n + 1, x => if x < 128 then [UInt8.ofNat x] else (UInt8.ofNat (x &&& 0x7F) ||| 0x80) ::
      varint n (x >>> 7)

/-- The loop that reads a number of `bits` bits: `x` is what has been read, `shift` where the
next seven bits go. -/
def readVarint (bits : ℕ) : ℕ → ℕ → Bytes → Except VarintError (ℕ × Bytes)
  | _, _, [] => .error .truncated
  | x, shift, b :: rest =>
    let y := x ||| (((b &&& 0x7F).toNat <<< shift) % 2 ^ bits)
    if b &&& 0x80 = 0 then .ok (y, rest)
    else if bits ≤ shift + 7 then .error .overflow
    else readVarint bits y (shift + 7) rest

theorem last_byte (h : x < 128) : UInt8.ofNat x &&& 0x80 = 0 ∧ (UInt8.ofNat x &&& 0x7F).toNat = x := by
  have hall : ∀ y : Fin 128, UInt8.ofNat y &&& 0x80 = 0 ∧
    (UInt8.ofNat y &&& 0x7F).toNat = y := by decide
  exact hall ⟨x, h⟩

theorem group_of_last {b : UInt8} (h : b &&& 0x80 = 0) : (b &&& 0x7F).toNat = b.toNat := by
  have hall : ∀ y : Fin 256, UInt8.ofNat y &&& 0x80 = 0 → (UInt8.ofNat y &&& 0x7F).toNat = y := by
    decide +kernel
  have hb := hall ⟨b.toNat, b.toNat_lt⟩
  rw [UInt8.ofNat_toNat] at hb
  exact hb h

theorem next_byte (h : x < 128) :
    (UInt8.ofNat x ||| 0x80) &&& 0x80 ≠ 0 ∧ ((UInt8.ofNat x ||| 0x80) &&& 0x7F).toNat = x := by
  have hall : ∀ y : Fin 128, (UInt8.ofNat y ||| 0x80) &&& 0x80 ≠ 0 ∧
      ((UInt8.ofNat y ||| 0x80) &&& 0x7F).toNat = y := by
    decide
  exact hall ⟨x, h⟩

/-- The bytes of one number: all but the last have the high bit. -/
inductive IsVarint : Bytes → Prop where
  /-- The last one. -/
  | last {b : UInt8} : b &&& 0x80 = 0 → IsVarint [b]
  /-- One more before it. -/
  | more {b : UInt8} {w : Bytes} : b &&& 0x80 ≠ 0 → IsVarint w → IsVarint (b :: w)

theorem IsVarint.length_pos {w : Bytes} (h : IsVarint w) : 0 < w.length := by cases h <;> simp

/-- The number that they stand for: group `i` of seven bits, times `2 ^ (7 * i)`, added up. -/
def varintValue (w : Bytes) : ℕ := (w.mapIdx fun i b => (b &&& 0x7F).toNat * 2 ^ (7 * i)).sum

theorem varintValue_nil : varintValue [] = 0 := rfl

theorem varintValue_cons (b : UInt8) (w : Bytes) :
    varintValue (b :: w) = (b &&& 0x7F).toNat + 2 ^ 7 * varintValue w := by
  have hshift : ∀ (f : ℕ → UInt8 → ℕ) (l : Bytes),
      (l.mapIdx fun i b => f i b * 2 ^ 7).sum = 2 ^ 7 * (l.mapIdx f).sum := by
    intro f l
    induction l generalizing f with
    | nil => rfl
    | cons b l ih =>
      rw [mapIdx_cons, mapIdx_cons, sum_cons, sum_cons, ih fun i => f (i + 1)]
      ring
  have hgroups : (fun i (b : UInt8) => (b &&& 0x7F).toNat * 2 ^ (7 * (i + 1))) =
      fun i b => (b &&& 0x7F).toNat * 2 ^ (7 * i) * 2 ^ 7 := by
    funext i b
    rw [Nat.mul_add, pow_add, Nat.mul_assoc]
  rw [varintValue, mapIdx_cons, sum_cons, hgroups, hshift]
  simp [varintValue]

theorem varintValue_append (v w : Bytes) : varintValue (v ++ w) = varintValue v +
    2 ^ (7 * v.length) * varintValue w := by
  induction v with
  | nil => simp [varintValue_nil]
  | cons b v ih =>
    have hpow : 2 ^ (7 * (v.length + 1)) = 2 ^ 7 * 2 ^ (7 * v.length) := by
      rw [Nat.mul_add, pow_add, Nat.mul_comm]
    rw [cons_append, varintValue_cons, varintValue_cons, ih, length_cons, hpow]
    ring

theorem group_lt (b : UInt8) : (b &&& 0x7F).toNat < 128 := by
  rw [UInt8.toNat_and]
  exact Nat.and_lt_two_pow _ (show (0x7F : UInt8).toNat < 2 ^ 7 by decide)

theorem varintValue_lt (w : Bytes) : varintValue w < 2 ^ (7 * w.length) := by
  induction w with
  | nil => decide
  | cons b w ih =>
    have hb := group_lt b
    rw [varintValue_cons, length_cons, Nat.mul_add, pow_add]
    omega

/-- Seven bits above what has been read; what does not fit in the word is dropped. -/
theorem or_shiftLeft_mod (hx : x < 2 ^ shift) (hshift : shift ≤ bits) :
    x ||| ((y <<< shift) % 2 ^ bits) = (x + y * 2 ^ shift) % 2 ^ bits := by
  obtain ⟨k, rfl⟩ := Nat.exists_eq_add_of_le hshift
  have hlow : (x + 2 ^ shift * y) % 2 ^ shift = x := by
    rw [Nat.add_mul_mod_self_left, Nat.mod_eq_of_lt hx]
  have hhigh : (x + 2 ^ shift * y) / 2 ^ shift = y := by
    rw [Nat.add_mul_div_left _ _ (Nat.two_pow_pos shift), Nat.div_eq_of_lt hx, Nat.zero_add]
  calc x ||| ((y <<< shift) % 2 ^ (shift + k))
      = x ||| (y % 2 ^ k) <<< shift := by
        rw [Nat.shiftLeft_eq, Nat.shiftLeft_eq, pow_add, Nat.mul_comm y,
          Nat.mul_mod_mul_left, Nat.mul_comm]
    _ = x + 2 ^ shift * (y % 2 ^ k) := by
        rw [Nat.or_comm, ← Nat.shiftLeft_add_eq_or_of_lt hx, Nat.shiftLeft_eq,
          Nat.add_comm, Nat.mul_comm]
    _ = (x + y * 2 ^ shift) % 2 ^ (shift + k) := by
        rw [pow_add, Nat.mul_comm y, Nat.mod_mul, hlow, hhigh]

/-- **What the loop reads**: the number modulo the size of the word, unless it has too many
groups. -/
theorem readVarint_append {w : Bytes} (hw : IsVarint w) (hx : x < 2 ^ shift) (hshift : shift < bits)
    (rest : Bytes) : readVarint bits x shift (w ++ rest) =
      if shift + 7 * (w.length - 1) < bits then .ok ((x + varintValue w * 2 ^ shift) % 2 ^ bits, rest)
      else .error .overflow := by
  induction hw generalizing x shift with
  | last hb =>
    rw [singleton_append, readVarint, or_shiftLeft_mod hx hshift.le, if_pos hb, varintValue_cons,
      varintValue_nil]
    simp [hshift]
  | @more b w hb hw ih =>
    have hpos := hw.length_pos
    rw [cons_append, readVarint, or_shiftLeft_mod hx hshift.le, if_neg hb, length_cons,
      Nat.add_sub_cancel]
    by_cases hroom : bits ≤ shift + 7
    · rw [if_pos hroom, if_neg (by omega)]
    · have hgroup := group_lt b
      have hpow : 2 ^ (shift + 7) = 128 * 2 ^ shift := by rw [pow_add]; ring
      have hy : x + (b &&& 0x7F).toNat * 2 ^ shift < 2 ^ (shift + 7) := by
        have hle : (b &&& 0x7F).toNat * 2 ^ shift ≤ 127 * 2 ^ shift := Nat.mul_le_mul_right _ (by omega)
        omega
      have hfit : x + (b &&& 0x7F).toNat * 2 ^ shift < 2 ^ bits :=
        hy.trans_le (Nat.pow_le_pow_right (by decide) (by omega))
      have hvalue : x + (b &&& 0x7F).toNat * 2 ^ shift + varintValue w * 2 ^ (shift + 7) =
          x + varintValue (b :: w) * 2 ^ shift := by
        rw [varintValue_cons, hpow]
        ring
      rw [if_neg hroom, Nat.mod_eq_of_lt hfit, ih hy (by omega), hvalue]
      congr 1
      rw [eq_iff_iff]
      constructor <;> intro <;> omega

/-- What is read is a number with something after it. -/
theorem isVarint_of_readVarint {bytes rest : Bytes}
    (h : readVarint bits x shift bytes = .ok (y, rest)) : ∃ w, IsVarint w ∧ bytes = w ++ rest := by
  induction bytes generalizing x shift with
  | nil => cases h
  | cons b bytes ih =>
    rw [readVarint] at h
    split_ifs at h with hlast hroom
    · cases h
      exact ⟨[b], .last hlast, rfl⟩
    · obtain ⟨w, hw, rfl⟩ := ih h
      exact ⟨b :: w, .more hlast hw, rfl⟩

theorem IsVarint.eq_append {w : Bytes} (hw : IsVarint w) : ∃ v b, w = v ++ [b] ∧ b &&& 0x80 = 0 := by
  induction hw with
  | last hb => exact ⟨[], _, rfl, hb⟩
  | @more b w _ _ ih =>
    obtain ⟨v, c, rfl, hc⟩ := ih
    exact ⟨b :: v, c, rfl, hc⟩

/-- A number ends where it ends. -/
theorem IsVarint.append_inj {w w' s s' : Bytes} (hw : IsVarint w) (hw' : IsVarint w')
    (h : w ++ s = w' ++ s') :
    w = w' ∧ s = s' := by
  induction hw generalizing w' with
  | last hb =>
    cases hw' with
    | last _ => simpa using h
    | more hb' _ =>
      obtain ⟨rfl, -⟩ := List.cons.inj h
      exact absurd hb hb'
  | more hb _ ih =>
    cases hw' with
    | last hb' =>
      obtain ⟨rfl, -⟩ := List.cons.inj h
      exact absurd hb' hb
    | more _ hw' =>
      obtain ⟨rfl, htail⟩ := List.cons.inj h
      obtain ⟨rfl, hs⟩ := ih hw' htail
      exact ⟨rfl, hs⟩

/-- What is written for a number stands for it, in no more groups than it needs. -/
theorem varint_spec (hn : y < 128 ^ n) (hpos : 0 < n) :
    IsVarint (varint n y) ∧ varintValue (varint n y) = y ∧
      ∀ bits, 0 < bits → y < 2 ^ bits → 7 * ((varint n y).length - 1) < bits := by
  induction n generalizing y with
  | zero => omega
  | succ n ih =>
    rw [varint]
    by_cases hlast : y < 128
    · obtain ⟨hbit, hval⟩ := last_byte hlast
      rw [if_pos hlast, varintValue_cons, hval, varintValue_nil]
      exact ⟨.last hbit, rfl, fun bits hbits _ => by simpa using hbits⟩
    · have hlow : y &&& 0x7F = y % 128 := Nat.and_two_pow_sub_one_eq_mod y 7
      have hhigh : y >>> 7 = y / 128 := Nat.shiftRight_eq_div_pow y 7
      obtain ⟨hbit, hval⟩ := next_byte (Nat.mod_lt y (show 0 < 128 by decide))
      have hn' : y / 128 < 128 ^ n := by
        rw [pow_succ] at hn
        exact Nat.div_lt_of_lt_mul (by rwa [Nat.mul_comm])
      have hpos' : 0 < n := by
        by_contra hzero
        obtain rfl : n = 0 := by omega
        omega
      obtain ⟨hw, hvalue, hlen⟩ := ih hn' hpos'
      rw [if_neg hlast, hlow, hhigh, varintValue_cons, hval, hvalue]
      refine ⟨.more hbit hw, by omega, fun bits hbits hy => ?_⟩
      have hlong : 7 < bits := by
        by_contra hshort
        have hle : 2 ^ bits ≤ 2 ^ 7 := Nat.pow_le_pow_right (by decide) (by omega)
        omega
      obtain ⟨k, rfl⟩ := Nat.exists_eq_add_of_le hlong.le
      rw [pow_add] at hy
      have hrest := hlen k (by omega) (by omega)
      rw [length_cons]
      omega

/-- A number is read back, the bytes after it untouched. -/
theorem readVarint_varint (hn : y < 128 ^ n) (hpos : 0 < n) (hbits : 0 < bits) (hy : y < 2 ^ bits)
    (rest : Bytes) : readVarint bits 0 0 (varint n y ++ rest) = .ok (y, rest) := by
  obtain ⟨hw, hvalue, hlen⟩ := varint_spec hn hpos
  rw [readVarint_append hw (by decide) hbits, if_pos (by simpa using hlen bits hbits hy), hvalue]
  simp [Nat.mod_eq_of_lt hy]

/-! ### Signed numbers as unsigned ones -/

/-- The sign goes into the lowest bit. -/
def zigzag {w : ℕ} (n : BitVec (w + 1)) : BitVec (w + 1) := (n <<< 1) ^^^ n.sshiftRight w

/-- And back. -/
def unzigzag {w : ℕ} (x : BitVec (w + 1)) : BitVec (w + 1) := (x >>> 1) ^^^ -(x &&& 1#(w + 1))

theorem msb_eq_last (n : BitVec (w + 1)) : n.msb = n[w] := by
  rw [BitVec.msb_eq_getLsbD_last]
  rfl

theorem sshiftRight_width (n : BitVec (w + 1)) :
    n.sshiftRight w = if n.msb then BitVec.allOnes (w + 1) else 0#(w + 1) := by
  refine BitVec.eq_of_getLsbD_eq fun i hi => ?_
  rw [BitVec.getLsbD_sshiftRight]
  by_cases hzero : i = 0
  · subst hzero
    cases hbit : n[w] <;> simp [msb_eq_last, hbit]
  · have hbig : ¬ w + i < w + 1 := by omega
    cases hbit : n[w] with
    | false => simp [msb_eq_last, hbit, hbig]
    | true =>
      have hin : ¬ w + 1 ≤ i := by omega
      simp only [hi, hin, decide_true, decide_false, Bool.not_false, Bool.and_self, hbig, if_false,
        msb_eq_last, hbit, if_true, BitVec.getLsbD_allOnes]

/-- A number that is not negative is doubled. -/
theorem toNat_zigzag {n : BitVec (w + 1)} (h : n.toNat < 2 ^ w) :
    (zigzag n).toNat = 2 * n.toNat := by
  have hmsb : n.msb = false := by
    rw [BitVec.msb_eq_false_iff_two_mul_lt, pow_succ]
    omega
  rw [zigzag, sshiftRight_width, hmsb]
  simp only [Bool.false_eq_true, if_false, BitVec.xor_zero, BitVec.toNat_shiftLeft]
  rw [Nat.shiftLeft_eq, pow_one, Nat.mod_eq_of_lt (by rw [pow_succ]; omega), Nat.mul_comm]

/-- The sign is the lowest bit. -/
theorem neg_and_one (x : BitVec (w + 1)) :
    -(x &&& 1#(w + 1)) = if x[0] then BitVec.allOnes (w + 1) else 0#(w + 1) := by
  have hbit : x &&& 1#(w + 1) = if x[0] then 1#(w + 1) else 0#(w + 1) := by
    refine BitVec.eq_of_getLsbD_eq fun i hi => ?_
    by_cases hzero : i = 0
    · subst hzero
      cases h : x[0] <;> simp [h]
    · cases h : x[0] <;> simp [hzero, BitVec.getLsbD_one]
  rw [hbit]
  split_ifs
  · exact BitVec.neg_one_eq_allOnes
  · exact BitVec.neg_zero _

/-- Nothing is lost. -/
theorem unzigzag_zigzag (n : BitVec (w + 1)) : unzigzag (zigzag n) = n := by
  have hmsb := msb_eq_last n
  have hsign : (zigzag n)[0] = n.msb := by
    rw [zigzag, sshiftRight_width]
    cases n.msb <;> simp
  rw [unzigzag, neg_and_one, hsign, zigzag, sshiftRight_width]
  refine BitVec.eq_of_getLsbD_eq fun i hi => ?_
  by_cases hlast : i = w
  · subst hlast
    cases h : n.msb <;> simp [← hmsb, h]
  · -- the bits are turned over and back if the number is negative
    have hlt : 1 + i < w + 1 := by omega
    cases n.msb <;> simp [hlt, hi]

theorem unzigzag_injective {x y : BitVec (w + 1)} (h : unzigzag x = unzigzag y) : x = y := by
  rw [unzigzag, unzigzag, neg_and_one, neg_and_one] at h
  -- the highest bit is the sign
  have htop : ∀ z : BitVec (w + 1),
      (z >>> 1 ^^^ if z[0] then BitVec.allOnes (w + 1) else 0#(w + 1)).getLsbD w = z[0] := by
    intro z
    have hout : z.getLsbD (1 + w) = false := BitVec.getLsbD_of_ge _ _ (by omega)
    rw [BitVec.getLsbD_xor, BitVec.getLsbD_ushiftRight, hout, Bool.false_xor]
    cases z[0] <;> simp
  have hsign : x[0] = y[0] := by rw [← htop x, ← htop y, h]
  rw [hsign] at h
  have hrest : x >>> 1 = y >>> 1 := (BitVec.xor_left_inj _).1 h
  refine BitVec.eq_of_getLsbD_eq fun i hi => ?_
  cases i with
  | zero => simpa using hsign
  | succ i =>
    have hbit := congrArg (fun z => z.getLsbD i) hrest
    simpa [Nat.add_comm] using hbit

theorem zigzag_unzigzag (x : BitVec (w + 1)) : zigzag (unzigzag x) = x :=
  unzigzag_injective (unzigzag_zigzag (unzigzag x))

/-! ### Printers -/

/-- A printer of values, and a parser that reads what was printed. -/
structure Printer (α : Type) where
  /-- The bytes of a value. -/
  print : α → Bytes
  /-- The value at the front of some bytes. -/
  parse : Parser Unit α
  /-- What was printed is read. -/
  parses : ∀ a, Parses parse (print a) a

namespace Printer

/-- The value of some bytes; what comes after it is not looked at. -/
def read (P : Printer α) (b : Bytes) : Except String α :=
  match P.parse.run b with
  | .ok (a, _) => .ok a
  | .error _ => .error "unexpected bytes"

theorem read_print (P : Printer α) (a : α) : P.read (P.print a) = .ok a := by
  have h := P.parses a []
  rw [append_nil] at h
  rw [read, h]

/-- A word of `n` bytes. -/
def word (n : ℕ) (enc : α → ℕ) (dec : ℕ → α) (hlt : ∀ a, enc a < 256 ^ n)
    (hdec : ∀ a, dec (enc a) = a) : Printer α where
  print a := leBytes n (enc a)
  parse := dec <$> Parser.le n ()
  parses a := by
    have h := (Parses.le (hlt a) ()).map (f := dec)
    rwa [hdec] at h

/-- Another type with the same bytes. -/
def via (P : Printer α) (enc : β → α) (dec : α → Option β) (hdec : ∀ b, dec (enc b) = some b) :
    Printer β where
  print b := P.print (enc b)
  parse := P.parse >>= fun a => Parser.except ((dec a).elim (.error ()) .ok)
  parses b := by
    have h := (P.parses (enc b)).bind (f := fun a => Parser.except ((dec a).elim (.error ()) .ok))
      (Parses.except (by rw [hdec]; rfl))
    rwa [append_nil] at h

/-- One value after another. -/
def pair (P : Printer α) (Q : Printer β) : Printer (α × β) where
  print x := P.print x.1 ++ Q.print x.2
  parse := P.parse >>= fun a => (a, ·) <$> Q.parse
  parses x := (P.parses x.1).bind (Q.parses x.2).map

/-- A value that may be missing, after a tag. -/
def option (P : Printer α) : Printer (Option α) where
  print x := x.elim [0] fun a => 1 :: P.print a
  parse := Parser.byte () >>= fun tag => if tag = 0 then pure none else some <$> P.parse
  parses x := by
    cases x with
    | none => exact (Parses.byte 0 ()).bind (Parses.pure none)
    | some a => exact (Parses.byte 1 ()).bind (P.parses a).map

theorem lt_pow_log2 (n : ℕ) : n < 128 ^ (n.log2 + 1) :=
  Nat.lt_log2_self.trans_le (Nat.pow_le_pow_left (by decide) _)

theorem log2_lt_of_lt_pow {k : ℕ} (h : n < 2 ^ k) (hk : 0 < k) : n.log2 < k := by
  by_cases hzero : n = 0
  · rwa [hzero]
  · exact (Nat.log2_lt hzero).2 h

/-- A number of any size, seven bits a byte. -/
def count : Printer ℕ where
  print n := varint (n.log2 + 1) n
  parse := fun s => (readVarint (7 * s.length) 0 0 s).mapError fun _ => ()
  parses n := by
    intro rest
    have hn := lt_pow_log2 n
    obtain ⟨hw, hvalue, -⟩ := varint_spec hn (Nat.succ_pos _)
    have hpos := hw.length_pos
    have hlt : n < 2 ^ (7 * (varint (n.log2 + 1) n ++ rest).length) := by
      have h := varintValue_lt (varint (n.log2 + 1) n)
      rw [hvalue] at h
      exact h.trans_le (Nat.pow_le_pow_right (by decide) (by simp))
    show Except.mapError _ (readVarint _ _ _ _) = _
    rw [readVarint_varint hn (Nat.succ_pos _) (by rw [length_append]; omega) hlt]
    rfl

theorem isVarint_print_count (n : ℕ) : IsVarint (count.print n) :=
  (varint_spec (lt_pow_log2 n) (Nat.succ_pos _)).1

/-- A number that is read stands at the front. -/
theorem isVarint_of_parse_count {s rest : Bytes} (h : count.parse.run s = .ok (n, rest)) :
    ∃ w, IsVarint w ∧ s = w ++ rest := by
  cases hread : readVarint (7 * s.length) 0 0 s with
  | error err =>
    rw [show count.parse.run s = Except.mapError _ (readVarint (7 * s.length) 0 0 s) from rfl,
      hread] at h
    cases h
  | ok r =>
    rw [show count.parse.run s = Except.mapError _ (readVarint (7 * s.length) 0 0 s) from rfl,
      hread] at h
    cases h
    exact isVarint_of_readVarint hread

/-- Values after their number. -/
def list (P : Printer α) : Printer (List α) where
  print l := count.print l.length ++ l.flatMap P.print
  parse := count.parse >>= fun n => P.parse.times n
  parses l := by
    have h : Parses (P.parse.times l.length) (l.flatMap P.print) (l.map id) :=
      .times l fun a _ => P.parses a
    rw [map_id] at h
    exact (count.parses l.length).bind h

theorem length_varint_le (n x : ℕ) : (varint n x).length ≤ n := by
  induction n generalizing x with
  | zero => exact le_rfl
  | succ n ih =>
    rw [varint]
    split_ifs
    · simp
    · simpa using ih _

/-- A list takes the bytes of its values and a few more. -/
theorem length_print_list_le {P : Printer α} {l : List α} {k : ℕ}
    (h : ∀ a ∈ l, (P.print a).length ≤ k) :
    (P.list.print l).length ≤ l.length.log2 + 1 + l.length * k := by
  have hcount := length_varint_le (l.length.log2 + 1) l.length
  have hsum := sum_le_card_nsmul (l.map fun a => (P.print a).length) k (by simpa using h)
  rw [length_map, nsmul_eq_mul, Nat.cast_id] at hsum
  show (varint _ _ ++ l.flatMap P.print).length ≤ _
  rw [length_append, length_flatMap]
  omega

end Printer

end UsageDb.Lib
