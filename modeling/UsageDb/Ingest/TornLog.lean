import UsageDb.Ingest.WalFile
import UsageDb.Lib.Transition

/-!
# The log after torn writes

The `Wal` of `src/ingest/wal.rs` over bytes: `append_batch` goes into a buffer, `sync` and
`rotate` make what was written durable, and a crash keeps any part of what was written since,
cut at any byte. `Wal::open` appends to the file that is there, whatever it ends with.

So a file can end in the middle of a line when it is opened, and the first line appended is
then glued to that piece: `reopened_event_lost` is such a run, in which an event that was
synced is not read back. `replay_synced` is the converse: if every `append_batch` finds its
file empty or ended with a newline, replaying the log gives every synced event, in order.
-/

namespace UsageDb

open Lib List

variable {dir : WalDir Bytes} {U : Set UsageEvent}

/-- `Wal`: what a crash keeps, the active file, and what was written to it since the last
sync, in the buffer or in the kernel. -/
structure Wal where
  /-- The files as they are on the disk. -/
  dir : WalDir Bytes
  activeId : ℕ
  /-- The bytes not yet synced. -/
  pending : Bytes

namespace Wal

/-- `Wal::open`. -/
def opened (dir : WalDir Bytes) (lastSealedId : ℕ) : Wal :=
  let id := dir.openId lastSealedId
  ⟨dir.create id [], id, []⟩

/-- `append_batch`. -/
def appendBatch (J : Serde) (w : Wal) (events : List UsageEvent) : Wal :=
  { w with pending := w.pending ++ J.batch events }

/-- `sync`. -/
def sync (w : Wal) : Wal := { w with dir := w.dir.modify w.activeId (· ++ w.pending), pending := [] }

/-- `rotate`: the active file is synced, and the next one is opened. -/
def rotate (w : Wal) : Wal :=
  { dir := w.sync.dir.create (w.activeId + 1) [], activeId := w.activeId + 1, pending := [] }

/-- What a crash leaves, when `k` of the bytes not yet synced have reached the disk. -/
def crash (w : Wal) (k : ℕ) : WalDir Bytes := w.dir.modify w.activeId (· ++ w.pending.take k)

/-- The content of the active file, as it would be after a sync. -/
def active (w : Wal) : Bytes := (w.sync.dir.read w.activeId).getD []

end Wal

/-- The log, open or not. -/
inductive LogSys where
  /-- It is open. -/
  | up (w : Wal)
  /-- There is only the directory. -/
  | down (dir : WalDir Bytes)

/-- What can happen to the log. -/
inductive LogLabel where
  /-- `append_batch`. -/
  | append (events : List UsageEvent)
  | sync
  | rotate
  /-- A crash that keeps `k` of the bytes not yet synced. -/
  | crash (k : ℕ)
  /-- `Wal::open`. -/
  | reopen

/-- The events appended in the log's life: those whose append was followed by a sync, and
those appended since. -/
structure LogBook where
  /-- Synced, in the order of the appends. -/
  synced : List UsageEvent
  /-- Not synced yet. -/
  unsynced : List UsageEvent

/-- The log keeps the promise. -/
def LogBook.sync (b : LogBook) : LogBook := ⟨b.synced ++ b.unsynced, []⟩

/-- A step of the log, with the book of its events; `s` is the seal. -/
inductive LogStep (J : Serde) (s : ℕ) : LogSys × LogBook → LogLabel → LogSys × LogBook → Prop where
  /-- `append_batch`. -/
  | append {w : Wal} {b : LogBook} (events : List UsageEvent) :
      LogStep J s (.up w, b) (.append events) (.up (w.appendBatch J events), ⟨b.synced,
        b.unsynced ++ events⟩)
  | sync {w : Wal} {b : LogBook} : LogStep J s (.up w, b) .sync (.up w.sync, b.sync)
  /-- `rotate`, which syncs. -/
  | rotate {w : Wal} {b : LogBook} : LogStep J s (.up w, b) .rotate (.up w.rotate, b.sync)
  /-- A crash; what was not synced is not promised. -/
  | crash {w : Wal} {b : LogBook} (k : ℕ) :
      LogStep J s (.up w, b) (.crash k) (.down (w.crash k), ⟨b.synced, []⟩)
  /-- `Wal::open`. -/
  | reopen {dir : WalDir Bytes} {b : LogBook} :
      LogStep J s (.down dir, b) .reopen (.up (Wal.opened dir s), b)

/-- The file that is appended to is empty or ends with a newline. -/
def LogSys.AppendsToEnded : LogSys → LogLabel → Prop
  | .up w, .append _ => Ended newline w.active
  | _, _ => True

/-- The events appended in a run. -/
def appendedEvents (ls : List LogLabel) : List UsageEvent :=
  ls.flatMap fun l => match l with
    | .append events => events
    | _ => []

/-! ### What a crash cannot take -/

section Kept

variable {J : Serde} {s : ℕ} {w : Wal} {b : LogBook}
  {front : WalDir Bytes} {id : ℕ} {c : Bytes} {es : List UsageEvent}

/-- The directory is sorted, above the seal, and ends with the file `id` of content `c`. -/
structure EndsWith (s : ℕ) (dir front : WalDir Bytes) (id : ℕ) (c : Bytes) : Prop where
  /-- The last file. -/
  eq : dir = front ++ [(id, c)]
  /-- The files are in order. -/
  sorted : dir.Sorted
  /-- They are above the seal. -/
  above : ∀ i ∈ dir.ids, s < i

theorem EndsWith.modify (h : EndsWith s dir front id c)
    (f : Bytes → Bytes) : EndsWith s (dir.modify id f) front id (f c) := by
  refine ⟨?_, h.sorted.modify id f, fun i hi => h.above i (by rwa [WalDir.ids_modify] at hi)⟩
  have hlt : ∀ x ∈ front, x.1 ≠ id := by
    have hsorted := h.sorted
    rw [h.eq, WalDir.Sorted, WalDir.ids_append, pairwise_append] at hsorted
    exact fun x hx => (hsorted.2.2 x.1 (mem_map_of_mem hx) id (by simp [WalDir.ids])).ne
  have hfront : front.map (fun x => if x.1 = id then (x.1, f x.2) else x) = front := by
    rw [map_congr_left fun x hx => if_neg (hlt x hx), map_id']
  rw [h.eq, WalDir.modify, map_append, hfront]
  simp

theorem EndsWith.le (h : EndsWith s dir front id c) :
    ∀ i ∈ dir.ids, i ≤ id := by
  have hsorted := h.sorted
  rw [h.eq, WalDir.Sorted, WalDir.ids_append, pairwise_append] at hsorted
  intro i hi
  rw [h.eq, WalDir.ids_append, mem_append] at hi
  rcases hi with hi | hi
  · exact (hsorted.2.2 i hi id (by simp [WalDir.ids])).le
  · simp only [WalDir.ids, map_cons, map_nil, mem_singleton] at hi
    exact hi.le

/-- A new last file. -/
theorem EndsWith.next (h : EndsWith s dir front id c) :
    EndsWith s (dir.create (id + 1) []) dir (id + 1) [] := by
  have hlt : ∀ i ∈ dir.ids, i < id + 1 := fun i hi => Nat.lt_succ_of_le (h.le i hi)
  rw [WalDir.create_of_forall_lt hlt]
  refine ⟨rfl, h.sorted.append_singleton hlt [], fun i hi => ?_⟩
  rw [WalDir.ids_append, mem_append] at hi
  rcases hi with hi | hi
  · exact h.above i hi
  · simp only [WalDir.ids, map_cons, map_nil, mem_singleton] at hi
    have hid := h.above id (by rw [h.eq]; simp [WalDir.ids])
    omega

theorem EndsWith.after_eq (h : EndsWith s dir front id c) :
    dir.after s = dir :=
  filter_eq_self.2 fun f hf => decide_eq_true (h.above f.1 (mem_map_of_mem hf))

/-- `open` appends to the last file. -/
theorem EndsWith.opened (h : EndsWith s dir front id c) :
    Wal.opened dir s = ⟨dir, id, []⟩ := by
  have hid : dir.openId s = id := by
    rw [WalDir.openId_eq h.sorted, h.after_eq, h.eq]
    simp [WalDir.ids]
  have hmem : id ∈ dir.ids := by
    rw [h.eq]
    simp [WalDir.ids]
  rw [Wal.opened, hid, WalDir.create, if_pos hmem]

/-- In an empty directory `open` starts the file after the seal. -/
theorem endsWith_opened_nil (s : ℕ) :
    EndsWith s (Wal.opened [] s).dir [] (Wal.opened [] s).activeId [] := by
  refine ⟨rfl, by simp [Wal.opened, WalDir.create, WalDir.Sorted, WalDir.ids], fun i hi => ?_⟩
  have hi : i = s + 1 := by simpa [Wal.opened, WalDir.create, WalDir.ids, WalDir.openId] using hi
  omega

theorem EndsWith.active (h : EndsWith s w.dir front w.activeId c) :
    w.active = c ++ w.pending := by
  have hsync : EndsWith s w.sync.dir front w.activeId (c ++ w.pending) := h.modify (· ++ w.pending)
  have hmem : (w.activeId, c ++ w.pending) ∈ w.sync.dir := by
    rw [hsync.eq]
    simp
  rw [Wal.active, WalDir.read_of_mem hsync.sorted hmem]
  rfl

/-- The events read from some files. -/
def readFiles (J : Serde) (dir : WalDir Bytes) : List UsageEvent :=
  dir.flatMap fun f => J.replayFile f.2

/-- The events `es` are read whatever comes after the last file's content `c`. -/
def Kept (J : Serde) (front : WalDir Bytes) (c : Bytes) (es : List UsageEvent) : Prop :=
  ∀ x, es.Sublist (readFiles J front ++ J.replayFile (c ++ x))

/-- Appending to an ended file keeps what was kept, and the new events. -/
theorem Kept.batch {new : List UsageEvent} (hJ : J.Lawful U)
    (hnew : ∀ e ∈ new, e ∈ U) (hc : Ended newline c) (h : Kept J front c es) :
    Kept J front (c ++ J.batch new) (es ++ new) := by
  intro x
  have hold := h []
  rw [append_nil] at hold
  rw [append_assoc, Serde.replayFile_append hc, Serde.replayFile_append (Serde.ended_batch new),
    hJ.replayFile_batch hnew, ← append_assoc]
  exact hold.append (sublist_append_left _ _)

/-- A longer file. -/
theorem Kept.extend (h : Kept J front c es) (y : Bytes) :
    Kept J front (c ++ y) es := by
  intro x
  rw [append_assoc]
  exact h _

/-- The next file. -/
theorem Kept.next (h : Kept J front c es) (id : ℕ) :
    Kept J (front ++ [(id, c)]) [] es := by
  intro x
  have hold := h []
  rw [append_nil] at hold
  have hread : readFiles J (front ++ [(id, c)]) = readFiles J front ++
    J.replayFile c := by simp [readFiles]
  rw [hread]
  exact hold.trans (sublist_append_left _ _)

/-- What holds of the log and its book: the synced events are read from the disk whatever is
written next, and those appended since are read as well once they are synced. -/
def LogOk (J : Serde) (s : ℕ) : LogSys × LogBook → Prop
  | (.up w, b) => ∃ front c, EndsWith s w.dir front w.activeId c ∧ Kept J front c b.synced ∧
      Kept J front (c ++ w.pending) (b.synced ++ b.unsynced)
  | (.down dir, b) => b.unsynced = [] ∧
      (dir = [] ∧ b.synced = [] ∨ ∃ front id c, EndsWith s dir front id c ∧ Kept J front c b.synced)

/-- **A step keeps the log in order**, if it appends to an ended file only. -/
theorem LogOk.step (hJ : J.Lawful U) {a a' : LogSys × LogBook} {l : LogLabel}
    (h : LogOk J s a) (hstep : LogStep J s a l a') (hended : a.1.AppendsToEnded l)
    (hU : ∀ e ∈ appendedEvents [l], e ∈ U) : LogOk J s a' := by
  cases hstep with
  | @append w b events =>
    obtain ⟨front, c, hends, hsynced, hall⟩ := h
    have hended : Ended newline w.active := hended
    rw [hends.active] at hended
    refine ⟨front, c, hends, hsynced, ?_⟩
    have hbatch := hall.batch hJ (fun e he => hU e (by simpa [appendedEvents] using he)) hended
    rwa [append_assoc, append_assoc] at hbatch
  | @sync w b =>
    obtain ⟨front, c, hends, -, hall⟩ := h
    refine ⟨front, c ++ w.pending, hends.modify (· ++ w.pending), hall, ?_⟩
    rw [LogBook.sync, append_nil]
    exact hall.extend _
  | @rotate w b =>
    obtain ⟨front, c, hends, -, hall⟩ := h
    have hsync : EndsWith s w.sync.dir front w.activeId (c ++ w.pending) :=
      hends.modify (· ++ w.pending)
    refine ⟨_, [], hsync.next, ?_, ?_⟩
    · rw [hsync.eq]
      exact hall.next _
    · rw [hsync.eq, LogBook.sync, append_nil]
      exact (hall.next _).extend _
  | crash k =>
    obtain ⟨front, c, hends, hsynced, -⟩ := h
    exact ⟨rfl, .inr ⟨front, _, _, hends.modify _, hsynced.extend _⟩⟩
  | @reopen dir b =>
    obtain ⟨hnone, ⟨rfl, hsynced⟩ | ⟨front, id, c, hends, hsynced⟩⟩ := h
    · refine ⟨[], [], endsWith_opened_nil s, ?_, ?_⟩
      · rw [hsynced]
        exact fun x => nil_sublist _
      · rw [hsynced, hnone]
        exact fun x => nil_sublist _
    · rw [LogOk, hends.opened]
      refine ⟨front, c, hends, hsynced, ?_⟩
      rw [hnone, append_nil, append_nil]
      exact hsynced

end Kept

variable {J : Serde} {s : ℕ}

/-- The log is in order after every run that appends to ended files only. -/
theorem logOk_run (hJ : J.Lawful U) {ls : List LogLabel} {a : LogSys × LogBook}
    (hrun : Run (fun a l a' => LogStep J s a l a' ∧ a.1.AppendsToEnded l) (.down [], ⟨[], []⟩) ls a)
    (hU : ∀ e ∈ appendedEvents ls, e ∈ U) : LogOk J s a := by
  induction hrun with
  | nil => exact ⟨rfl, .inl ⟨rfl, rfl⟩⟩
  | @snoc _ _ ls l _ hstep ih =>
    rw [appendedEvents, flatMap_append] at hU
    have hok := ih fun e he => hU e (mem_append_left _ he)
    exact hok.step hJ hstep.1 hstep.2 fun e he => hU e (mem_append_right _ he)

/-- **Replaying the log gives back what was synced.** After every run of appends, syncs,
rotations, crashes that cut what was not synced anywhere, and reopenings, in which each append
finds its file empty or ended with a newline: the events whose append was followed by a sync
are read back, exactly and in their order. -/
theorem replay_synced {ls : List LogLabel} {b : LogBook}
    (hJ : J.Lawful { e | e ∈ appendedEvents ls })
    (hrun : Run (fun a l a' => LogStep J s a l a' ∧ a.1.AppendsToEnded l) (.down [], ⟨[], []⟩) ls
      (.down dir, b)) :
    b.synced.Sublist (J.replayAll dir s) := by
  obtain ⟨-, ⟨-, hsynced⟩ | ⟨front, id, c, hends, hkept⟩⟩ := logOk_run hJ hrun fun e he => he
  · rw [hsynced]
    exact nil_sublist _
  · have hread : J.replayAll dir s = readFiles J front ++ J.replayFile (c ++ []) := by
      rw [Serde.replayAll_eq hends.sorted, hends.after_eq, hends.eq, append_nil]
      simp [readFiles]
    rw [hread]
    exact hkept []

/-! ### A torn line, and what is appended to it -/

/-- An event for concrete runs. -/
def firstEvent : UsageEvent := sampleEvent "a" "acme" 7200000 5

/-- And another one. -/
def secondEvent : UsageEvent := sampleEvent "b" "acme" 7200000 2

/-- The library that reads them. -/
def tornSerde : Serde := .sample [firstEvent, secondEvent]

theorem lawful_tornSerde : tornSerde.Lawful { e | e ∈ [firstEvent, secondEvent] } :=
  Serde.lawful_sample (by decide +kernel)

/-- The second event is torn after five bytes. The file it was in is not appended to any more:
the next append goes to a new file, and both events are read back. -/
theorem replay_synced_after_rotate :
    let ls : List LogLabel := [.reopen, .append [firstEvent], .sync, .append [secondEvent],
      .crash 5, .reopen, .rotate, .append [secondEvent], .sync, .crash 0]
    tornSerde.Lawful { e | e ∈ appendedEvents ls } ∧ ∃ dir book,
      Run (fun a l a' => LogStep tornSerde 0 a l a' ∧ a.1.AppendsToEnded l)
        (.down [], ⟨[], []⟩) ls (.down dir, book) ∧
        book.synced = [firstEvent, secondEvent] ∧ book.synced.Sublist (tornSerde.replayAll dir 0) := by
  intro ls
  have hJ : tornSerde.Lawful { e | e ∈ appendedEvents ls } :=
    lawful_tornSerde.mono (show ∀ e ∈ appendedEvents ls, e ∈ [firstEvent, secondEvent] by decide)
  have hfirst :
      Run (fun a l a' => LogStep tornSerde 0 a l a' ∧ a.1.AppendsToEnded l) (.down [], ⟨[], []⟩)
      [.reopen, .append [firstEvent], .sync] _ :=
    (((Run.nil _).snoc ⟨.reopen, trivial⟩).snoc ⟨.append _, show Ended _ _ by decide +kernel⟩).snoc
      ⟨.sync, trivial⟩
  have htorn := (hfirst.snoc ⟨.append [secondEvent], show Ended _ _ by decide +kernel⟩).snoc
    ⟨.crash 5, trivial⟩
  have hnext := (htorn.snoc ⟨.reopen, trivial⟩).snoc ⟨.rotate, trivial⟩
  have hlast := ((hnext.snoc ⟨.append [secondEvent], show Ended _ _ by decide +kernel⟩).snoc ⟨.sync,
    trivial⟩).snoc
    ⟨.crash 0, trivial⟩
  exact ⟨hJ, _, _, hlast, rfl, replay_synced hJ hlast⟩

/-- **An event that was synced is not read back.** The first event is torn after five bytes;
the log is opened again, the second event is appended to the same file and synced. Its line
begins with the five bytes of the first. -/
theorem reopened_event_lost :
    let ls : List LogLabel := [.reopen, .append [firstEvent], .crash 5, .reopen,
      .append [secondEvent], .sync, .crash 0]
    tornSerde.Lawful { e | e ∈ appendedEvents ls } ∧ ∃ dir book,
      Run (LogStep tornSerde 0) (.down [], ⟨[], []⟩) ls (.down dir, book) ∧
        book.synced = [secondEvent] ∧ tornSerde.replayAll dir 0 = [] := by
  intro ls
  have htorn : Run (LogStep tornSerde 0) (.down [], ⟨[], []⟩) [.reopen, .append [firstEvent],
      .crash 5] _ :=
    (((Run.nil _).snoc .reopen).snoc (.append _)).snoc (.crash 5)
  have hlast := (((htorn.snoc .reopen).snoc (.append [secondEvent])).snoc .sync).snoc (.crash 0)
  exact ⟨lawful_tornSerde.mono (show ∀ e ∈ appendedEvents ls, e ∈ [firstEvent,
    secondEvent] by decide), _, _, hlast, rfl, by decide +kernel⟩

end UsageDb
