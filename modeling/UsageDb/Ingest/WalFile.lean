import UsageDb.Ingest.Wal
import UsageDb.Lib.Lines
import UsageDb.Model.Extern

/-!
# The bytes of a log file

`append_batch` writes each event as a line of JSON, and `replay_file` reads a file line by
line (`src/ingest/wal.rs`). The JSON library is a parameter, `Serde`; what is assumed of it is
`Serde.Lawful`, for the events in question only: the text of an event decodes to it, has no
newline in it and is an object.

`replayFile_append` is about a file that is empty or ends with a newline: what is written
after that does not change how the file was read. It is not true of a file that ends in the
middle of a line, where the unfinished line is continued.
-/

namespace UsageDb

open Lib List

variable {e : UsageEvent}

/-- `serde_json` for events. -/
structure Serde where
  /-- `to_string`. -/
  text : UsageEvent → String
  /-- `from_str`, `none` for an error. -/
  ofText : String → Option UsageEvent

/-- The byte of `\n`. -/
def newline : UInt8 := 10

/-- The byte of `\r`. -/
def carriageReturn : UInt8 := 13

/-- `line.trim().is_empty()`. -/
def blank (line : String) : Bool := line.toList.all isWhiteSpace

/-- A complete line loses a carriage return at its end. -/
def dropCr (line : Bytes) : Bytes := if line.getLast? = some carriageReturn then line.dropLast else line

/-- `BufRead::lines`: the complete lines, and an unfinished one if there is any. -/
def fileLines (content : Bytes) : List Bytes :=
  (cut newline content).lines.map dropCr ++
    if (cut newline content).rest.isEmpty then [] else [(cut newline content).rest]

namespace Serde

variable (J : Serde)

/-- The bytes of an event's text. -/
def bytes (e : UsageEvent) : Bytes := utf8 (J.text e)

/-- `writeln!`. -/
def line (e : UsageEvent) : Bytes := J.bytes e ++ [newline]

/-- What `append_batch` writes. -/
def batch (events : List UsageEvent) : Bytes := events.flatMap J.line

/-- What `replay_file` makes of a line: nothing, if it is not UTF-8, blank or not an event. -/
def replayLine (line : Bytes) : Option UsageEvent :=
  (String.fromUTF8? ⟨line.toArray⟩).bind fun s => if blank s then none else J.ofText s

/-- `replay_file`, for a file that is there. -/
def replayFile (content : Bytes) : List UsageEvent := (fileLines content).filterMap J.replayLine

/-- Replaying the files that `list_files_after` lists, in order. -/
def replayAll (dir : WalDir Bytes) (lastSealedId : ℕ) : List UsageEvent :=
  (dir.listFilesAfter lastSealedId).flatMap fun id => ((dir.read id).map J.replayFile).getD []

/-- What is assumed of the library, for the events of `U`. -/
structure Lawful (U : Set UsageEvent) : Prop where
  /-- It decodes what it encodes. -/
  decode : ∀ e ∈ U, J.ofText (J.text e) = some e
  /-- It writes no raw newline. -/
  newline : ∀ e ∈ U, newline ∉ J.bytes e
  /-- It writes an object. -/
  object : ∀ e ∈ U, ∃ t, J.text e = "\x7b" ++ t ++ "\x7d"

end Serde

variable {J : Serde} {U : Set UsageEvent}

theorem Serde.Lawful.mono {V : Set UsageEvent} (h : J.Lawful U) (hV : ∀ e ∈ V, e ∈ U) : J.Lawful V :=
  ⟨fun e he => h.decode e (hV e he), fun e he =>
    h.newline e (hV e he), fun e he => h.object e (hV e he)⟩

/-! ### Reading what was written -/

theorem utf8_append (s t : String) : utf8 (s ++ t) = utf8 s ++ utf8 t := by
  simp [utf8]

/-- The text of an event is read as the event. -/
theorem Serde.Lawful.replayLine_bytes (hJ : J.Lawful U) (he : e ∈ U) :
    J.replayLine (J.bytes e) = some e := by
  have hutf : String.fromUTF8? ⟨(J.bytes e).toArray⟩ = some (J.text e) := fromUTF8?_utf8 _
  have hblank : blank (J.text e) = false := by
    obtain ⟨t, ht⟩ := hJ.object e he
    rw [blank, ht]
    simp [isWhiteSpace]
  rw [Serde.replayLine, hutf, Option.bind_some, hblank]
  exact hJ.decode e he

/-- A line that ends with the text of an event does not end with a carriage return. -/
theorem Serde.Lawful.dropCr_append_bytes (hJ : J.Lawful U) (he : e ∈ U) (r : Bytes) :
    dropCr (r ++ J.bytes e) = r ++ J.bytes e := by
  obtain ⟨t, ht⟩ := hJ.object e he
  have hbytes : J.bytes e = utf8 ("\x7b" ++ t) ++ [125] := by
    rw [Serde.bytes, ht, utf8_append]
    rfl
  have hlast : (r ++ J.bytes e).getLast? = some 125 := by
    rw [hbytes, ← append_assoc, List.getLast?_append]
    rfl
  rw [dropCr, hlast, if_neg (by decide)]

theorem Serde.Lawful.bytes_ne_nil (hJ : J.Lawful U) (he : e ∈ U) : J.bytes e ≠ [] := by
  obtain ⟨t, ht⟩ := hJ.object e he
  rw [Serde.bytes, ht, utf8_append]
  exact append_ne_nil_of_right_ne_nil _ (by decide)

theorem Serde.ended_batch (es : List UsageEvent) : Ended newline (J.batch es) := by
  rcases eq_nil_or_concat es with rfl | ⟨es, e, rfl⟩
  · intro x hx
    cases hx
  · have hbatch : J.batch (es.concat e) = (J.batch es ++ J.bytes e) ++ [UsageDb.newline] := by
      simp [Serde.batch, Serde.line]
    rw [hbatch]
    exact Ended.append_singleton _ _

/-- **After an ended file, what is written is read by itself.** -/
theorem Serde.replayFile_append {b : Bytes} (hb : Ended UsageDb.newline b) (c : Bytes) :
    J.replayFile (b ++ c) = J.replayFile b ++ J.replayFile c := by
  rw [Serde.replayFile, Serde.replayFile, Serde.replayFile, fileLines, fileLines, fileLines,
    cut_append_of_ended hb, hb.rest_eq_nil]
  simp [filterMap_append]

/-- The line of an event is read as the event. -/
theorem Serde.Lawful.replayFile_line (hJ : J.Lawful U) (he : e ∈ U) :
    J.replayFile (J.line e) = [e] := by
  have hdrop : dropCr (J.bytes e) = J.bytes e := hJ.dropCr_append_bytes he []
  rw [Serde.replayFile, fileLines, Serde.line, cut_line (hJ.newline e he)]
  simp [hdrop, hJ.replayLine_bytes he]

/-- A batch is read as its events. -/
theorem Serde.Lawful.replayFile_batch (hJ : J.Lawful U) {es : List UsageEvent} (hes : ∀ e ∈ es, e ∈ U) :
    J.replayFile (J.batch es) = es := by
  induction es with
  | nil => rfl
  | cons e es ih =>
    have hcons : J.batch (e :: es) = J.line e ++ J.batch es := rfl
    have hended : Ended UsageDb.newline (J.line e) := Ended.append_singleton _ _
    rw [hcons, Serde.replayFile_append hended, hJ.replayFile_line (hes e (by simp)),
      ih fun e he => hes e (by simp [he])]
    rfl

/-- In a sorted directory the files above the seal are read in their own order. -/
theorem Serde.replayAll_eq {dir : WalDir Bytes} (h : dir.Sorted) (s : ℕ) :
    J.replayAll dir s = (dir.after s).flatMap fun f => J.replayFile f.2 := by
  rw [Serde.replayAll, WalDir.listFilesAfter_eq h, WalDir.ids, flatMap_map]
  refine flatMap_congr fun f hf => ?_
  rw [WalDir.read_of_mem h (mem_of_mem_filter hf)]
  rfl

/-! ### A stand-in for concrete runs -/

/-- A text that shows the id of an event only, read back for the events of a list. -/
def Serde.sample (events : List UsageEvent) : Serde where
  text e := "\x7b" ++ ("\"event_id\":\"" ++ e.eventId ++ "\"") ++ "\x7d"
  ofText s := events.find? fun e => s = "\x7b" ++ ("\"event_id\":\"" ++ e.eventId ++ "\"") ++ "\x7d"

theorem Serde.lawful_sample {events : List UsageEvent}
    (h : ∀ e ∈ events, (Serde.sample events).ofText ((Serde.sample events).text e) = some e ∧
      newline ∉ (Serde.sample events).bytes e) : (Serde.sample events).Lawful { e | e ∈ events } :=
  ⟨fun e he => (h e he).1, fun e he => (h e he).2, fun _ _ => ⟨_, rfl⟩⟩

end UsageDb
