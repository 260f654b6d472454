import UsageDb.Ingest.Pieces
import UsageDb.Ingest.TornLog
import UsageDb.Runtime.Frame

/-!
# The log's bytes beside its events

In `State` a log file is the list of the events appended to it; here `Wal` runs beside it and
has the bytes, with those that are not synced yet. `Reads` is how the two agree: whatever part
of the unsynced bytes is on the disk, each file is read as events of its list at most, each
once and in order. `reads_op` shows it for every durable step of every operation.

While the server runs it never reads its log, so the difference shows only when it starts:
`Disk.reread` is the disk with the log as it is read from bytes, and `DiskOk.reread` says that
it is in order and holds nothing more than before.
-/

namespace UsageDb

open Lib List

variable {new : List UsageEvent}

/-! ### The bytes beside the events -/

/-- What a durable step does to the log's bytes; `sync` says whether an append is followed by
a sync (`Strict`) or not (`Fast`). -/
def Wal.apply (J : Serde) (sync : Bool) (w : Wal) : Effect → Wal
  | .walAppend _ events => if sync then (w.appendBatch J events).sync else w.appendBatch J events
  | .walCreate _ => w.rotate
  | .walDelete id => { w with dir := w.dir.filter fun f => f.1 ≠ id }
  | _ => w

/-- The steps, in order. -/
def Wal.applyAll (J : Serde) (sync : Bool) (w : Wal) (es : List Effect) : Wal :=
  es.foldl (Wal.apply J sync) w

/-- The disk with the log as it is read from bytes. -/
def Disk.reread (J : Serde) (d : Disk) (dir : WalDir Bytes) : Disk :=
  { d with wal := dir.map fun f => (f.1, J.replayFile f.2) }

/-! ### What is read of a file -/

section Files

variable {J : Serde} {U : Set UsageEvent} {c pending : Bytes} {g : List UsageEvent}

/-- A file of content `c`, with the bytes `pending` not synced: at most the events `g` are read
from it, wherever a crash cuts it. -/
structure FileReads (J : Serde) (U : Set UsageEvent) (c pending : Bytes) (g : List UsageEvent) :
    Prop where
  /-- The shape of the file. -/
  pieces : Pieces J U (c ++ pending)
  /-- What is read. -/
  reads : ∀ k, (J.replayFile (c ++ pending.take k)).Sublist g

theorem FileReads.nil : FileReads J U [] [] [] :=
  ⟨.nil, fun k => by rw [take_nil]; exact List.Sublist.refl _⟩

theorem FileReads.sync (h : FileReads J U c pending g) : FileReads J U (c ++ pending) [] g := by
  refine ⟨by rw [append_nil]; exact h.pieces, fun k => ?_⟩
  have hall := h.reads pending.length
  rw [take_length] at hall
  rw [take_nil, append_nil]
  exact hall

/-- What is written next. -/
theorem FileReads.write (h : FileReads J U c pending g) {p : Bytes}
    (hp : Pieces J U (c ++ pending ++ p))
    (hnew : ∀ q, q <+: p →
      (J.replayFile (c ++ pending ++ q)).Sublist (J.replayFile (c ++ pending) ++ new)) :
    FileReads J U c (pending ++ p) (g ++ new) := by
  refine ⟨by rw [← append_assoc]; exact hp, fun k => ?_⟩
  rw [take_append]
  by_cases hk : k ≤ pending.length
  · rw [Nat.sub_eq_zero_of_le hk, take_zero, append_nil]
    exact (h.reads k).trans (sublist_append_left _ _)
  · have hall := h.reads pending.length
    rw [take_length] at hall
    rw [take_of_length_le (by omega), ← append_assoc]
    exact (hnew _ ( take_prefix _ _)).trans (hall.append_right _)

/-- A batch adds its events. -/
theorem FileReads.append (hJ : J.Strict U) (h : FileReads J U c pending g)
    (hnew : ∀ e ∈ new, e ∈ U) : FileReads J U c (pending ++ J.batch new) (g ++ new) :=
  h.write (h.pieces.batch hnew) fun _ hq => h.pieces.replayFile_batch hJ hnew hq

/-- A piece of a text adds nothing. -/
theorem FileReads.torn (hJ : J.Strict U) (h : FileReads J U c pending g) {e : UsageEvent}
    (he : e ∈ U) {p : Bytes}
    (hp : p <+: J.bytes e) (hlt : p.length < (J.bytes e).length) :
      FileReads J U c (pending ++ p) g := by
  have hwrite : FileReads J U c (pending ++ p) (g ++ []) :=
    h.write (h.pieces.piece he hp) fun q hq => ?_
  · rwa [append_nil] at hwrite
  · rw [append_nil]
    refine h.pieces.replayFile_torn hJ he (hq.trans hp) fun heq => ?_
    have hle := hq.length_le
    rw [heq] at hle
    omega

end Files

/-! ### What is read of the log -/

section Log

variable {J : Serde} {U : Set UsageEvent} {w : Wal} {log : WalDir (List UsageEvent)}

/-- The bytes of a file that are not synced. -/
def Wal.pendingOf (w : Wal) (id : ℕ) : Bytes := if id = w.activeId then w.pending else []

/-- The log's bytes, file by file, are read as events of `log` at most. -/
structure Reads (J : Serde) (U : Set UsageEvent) (w : Wal) (log : WalDir (List UsageEvent)) : Prop where
  files : List.Forall₂ (fun f g => f.1 = g.1 ∧ FileReads J U f.2 (w.pendingOf f.1) g.2) w.dir log
  /-- The active file exists, … -/
  active : w.activeId ∈ log.ids
  /-- … and is the last. -/
  last : ∀ i ∈ log.ids, i ≤ w.activeId

/-- Files of the same ids, related one by one. -/
theorem ids_eq_of_forall₂ {α β : Type} {dir : WalDir α} {dir' : WalDir β} {R : ℕ → α → β → Prop}
    (h : List.Forall₂ (fun f g => f.1 = g.1 ∧ R f.1 f.2 g.2) dir dir') : dir.ids = dir'.ids := by
  induction h with
  | nil => rfl
  | cons hfg _ ih => exact congrArg₂ List.cons hfg.1 ih

theorem forall₂_modify {α β : Type} {dir : WalDir α} {dir' : WalDir β} {R S : ℕ → α → β → Prop} {id : ℕ}
    {f : α → α} {g : β → β} (h : List.Forall₂ (fun x y => x.1 = y.1 ∧ R x.1 x.2 y.2) dir dir')
    (hid : ∀ a b, R id a b → S id (f a) (g b)) (hne : ∀ i a b, i ≠ id → R i a b → S i a b) :
    List.Forall₂ (fun x y => x.1 = y.1 ∧ S x.1 x.2 y.2) (dir.modify id f) (dir'.modify id g) := by
  rw [WalDir.modify, WalDir.modify, List.forall₂_map_left_iff, List.forall₂_map_right_iff]
  refine h.imp fun x y hxy => ?_
  obtain ⟨hid', hR⟩ := hxy
  by_cases hx : x.1 = id
  · rw [if_pos hx, if_pos (hid' ▸ hx)]
    refine ⟨hid', ?_⟩
    rw [hx] at hR
    rw [hx]
    exact hid _ _ hR
  · rw [if_neg hx, if_neg (hid' ▸ hx)]
    exact ⟨hid', hne _ _ _ hx hR⟩

theorem forall₂_filter {α β : Type} {dir : WalDir α} {dir' : WalDir β} {R : ℕ → α → β → Prop}
    (p : ℕ → Bool) (h : List.Forall₂ (fun x y => x.1 = y.1 ∧ R x.1 x.2 y.2) dir dir') :
    List.Forall₂
      (fun x y => x.1 = y.1 ∧ R x.1 x.2 y.2) (dir.filter fun f =>
        p f.1) (dir'.filter fun f => p f.1) := by
  induction h with
  | nil => exact .nil
  | @cons x y _ _ hxy _ ih =>
    rw [filter_cons, filter_cons, ← hxy.1]
    split
    · exact .cons hxy ih
    · exact ih

theorem Reads.append (hJ : J.Strict U) (h : Reads J U w log) (hnew : ∀ e ∈ new, e ∈ U) :
    Reads J U (w.appendBatch J new) (log.modify w.activeId (· ++ new)) := by
  refine ⟨?_, by rw [WalDir.ids_modify]; exact h.active, by rw [WalDir.ids_modify]; exact h.last⟩
  -- the bytes on the disk stay, the active file has more that is not synced
  have hdir : (w.appendBatch J new).dir = w.dir.modify w.activeId id := by
    rw [Wal.appendBatch, WalDir.modify]
    simp
  rw [hdir]
  refine forall₂_modify (R := fun i a b => FileReads J U a (w.pendingOf i) b)
    (S := fun i a b => FileReads J U a ((w.appendBatch J new).pendingOf i) b) h.files
      (fun a b hab => ?_)
    fun i a b hi hab => ?_
  · rw [Wal.pendingOf, if_pos rfl] at hab
    rw [Wal.pendingOf, if_pos (show w.activeId = (w.appendBatch J new).activeId from rfl)]
    exact hab.append hJ hnew
  · rw [Wal.pendingOf, if_neg hi] at hab
    rw [Wal.pendingOf, if_neg (show ¬ i = (w.appendBatch J new).activeId from hi)]
    exact hab

theorem Reads.sync (h : Reads J U w log) : Reads J U w.sync log := by
  refine ⟨?_, h.active, h.last⟩
  have hlog : log = log.modify w.activeId id := by
    rw [WalDir.modify]
    simp
  have hnone : ∀ i, w.sync.pendingOf i = [] := fun i => ite_self _
  have hdir : w.sync.dir = w.dir.modify w.activeId (· ++ w.pending) := rfl
  rw [hlog, hdir]
  refine forall₂_modify (R := fun i a b => FileReads J U a (w.pendingOf i) b)
    (S := fun i a b => FileReads J U a (w.sync.pendingOf i) b) h.files (fun a b hab => ?_)
    fun i a b hi hab => ?_
  · rw [Wal.pendingOf, if_pos rfl] at hab
    rw [hnone]
    exact hab.sync
  · rw [Wal.pendingOf, if_neg hi] at hab
    rw [hnone]
    exact hab

theorem Reads.rotate (h : Reads J U w log) : Reads J U w.rotate (log.create (w.activeId + 1) []) := by
  have hlt : ∀ i ∈ log.ids, i < w.activeId + 1 := fun i hi => Nat.lt_succ_of_le (h.last i hi)
  have hids : w.sync.dir.ids = log.ids :=
    ids_eq_of_forall₂ (R := fun i a b => FileReads J U a (w.sync.pendingOf i) b) h.sync.files
  have hdir : w.rotate.dir = w.sync.dir ++ [(w.activeId + 1, [])] :=
    WalDir.create_of_forall_lt (by rwa [hids]) _
  rw [WalDir.create_of_forall_lt hlt]
  refine ⟨?_, by simp [Wal.rotate, WalDir.ids], fun i hi => ?_⟩
  · rw [hdir]
    refine rel_append ?_ (.cons ⟨rfl, ?_⟩ .nil)
    · refine h.sync.files.imp fun f g hfg => ⟨hfg.1, ?_⟩
      have hnone : ∀ i, w.sync.pendingOf i = [] ∧ w.rotate.pendingOf i = [] := by
        intro i
        constructor <;> exact ite_self _
      rw [(hnone _).2, ← (hnone f.1).1]
      exact hfg.2
    · simp only [Wal.pendingOf, Wal.rotate, ite_self]
      exact FileReads.nil
  · rw [WalDir.ids_append, mem_append] at hi
    rcases hi with hi | hi
    · exact (hlt i hi).le
    · simp only [WalDir.ids, map_cons, map_nil, mem_singleton] at hi
      exact hi.le

theorem Reads.delete (h : Reads J U w log) {id : ℕ} (hid : id ≠ w.activeId) :
    Reads J U { w with dir := w.dir.filter fun f => f.1 ≠ id } (log.filter fun f => f.1 ≠ id) := by
  refine ⟨?_, ?_, fun i hi => ?_⟩
  · exact forall₂_filter
      (R := fun i a b => FileReads J U a (w.pendingOf i) b) (fun i => decide (i ≠ id)) h.files
  · rw [WalDir.ids_filter fun i => decide (i ≠ id), mem_filter]
    exact ⟨h.active, decide_eq_true hid.symm⟩
  · rw [WalDir.ids_filter fun i => decide (i ≠ id)] at hi
    exact h.last i (mem_of_mem_filter hi)

/-- What a crash leaves of the log: files of the same ids, each read as a part of its list. -/
def ReadsAs (J : Serde) (U : Set UsageEvent) (dir : WalDir Bytes) (log : WalDir (List UsageEvent)) :
    Prop :=
  List.Forall₂ (fun f g => f.1 = g.1 ∧ Pieces J U f.2 ∧ (J.replayFile f.2).Sublist g.2) dir log

theorem Reads.crash (h : Reads J U w log) (j : ℕ) : ReadsAs J U (w.crash j) log := by
  have hlog : log = log.modify w.activeId id := by
    rw [WalDir.modify]
    simp
  rw [hlog]
  refine forall₂_modify (R := fun i a b => FileReads J U a (w.pendingOf i) b)
    (S := fun _ a b => Pieces J U a ∧ (J.replayFile a).Sublist b) h.files (fun a b hab => ?_)
    fun i a b hi hab => ?_
  · rw [Wal.pendingOf, if_pos rfl] at hab
    exact ⟨hab.pieces.of_prefix ((prefix_append_right_inj a).2 ( take_prefix j w.pending)), hab.reads j⟩
  · rw [Wal.pendingOf, if_neg hi] at hab
    have hreads := hab.reads 0
    have hpieces := hab.pieces
    rw [append_nil] at hpieces
    rw [take_zero, append_nil] at hreads
    exact ⟨hpieces, hreads⟩

/-- A request whose write breaks off inside the text of its first event. -/
theorem Reads.torn (hJ : J.Strict U) (h : Reads J U w log) {e : UsageEvent} (he : e ∈ U) {p : Bytes}
    (hp : p <+: J.bytes e) (hlt : p.length < (J.bytes e).length) :
      Reads J U { w with pending := w.pending ++ p } log := by
  refine ⟨h.files.imp fun f g hfg => ⟨hfg.1, ?_⟩, h.active, h.last⟩
  have hfile := hfg.2
  by_cases hf : f.1 = w.activeId
  · rw [Wal.pendingOf, if_pos hf] at hfile
    rw [Wal.pendingOf, if_pos hf]
    exact hfile.torn hJ he hp hlt
  · rw [Wal.pendingOf, if_neg hf] at hfile
    rw [Wal.pendingOf, if_neg hf]
    exact hfile

end Log

/-! ### The operations -/

section Operations

variable {X : Extern} {cfg : Config} {J : Serde} {U : Set UsageEvent} {sync : Bool}
    {w : Wal} {s : State}

/-- A durable step on the bytes and on the disk beside them. -/
def stepBoth (J : Serde) (sync : Bool) (p : Wal × Disk) (x : Effect) : Wal × Disk :=
  (p.1.apply J sync x, p.2.apply x)

theorem foldl_stepBoth (es : List Effect) (w : Wal) (d : Disk) :
    es.foldl (stepBoth J sync) (w, d) = (w.applyAll J sync es, d.applyAll es) := by
  induction es generalizing w d with
  | nil => rfl
  | cons x es ih => exact ih (w.apply J sync x) (d.apply x)

/-- The bytes and the disk beside them agree. -/
def ReadsBoth (J : Serde) (U : Set UsageEvent) (p : Wal × Disk) : Prop := Reads J U p.1 p.2.wal

/-- A step that does nothing to the active file: it is not on the log, or deletes another file. -/
def Effect.Spares (active : ℕ) (x : Effect) : Prop := ¬ x.OnLog ∨ ∃ id, id ≠ active ∧ x = .walDelete id

theorem reads_spares {d : Disk} (h : Reads J U w d.wal) {es : List Effect}
    (hes : ∀ x ∈ es, x.Spares w.activeId) :
    EveryPrefix (stepBoth J sync) (ReadsBoth J U) (w, d) es := by
  have hkeep :
      EveryPrefix (stepBoth J sync)
          (fun p => ReadsBoth J U p ∧ p.1.activeId = w.activeId) (w, d) es := by
    refine EveryPrefix.of_forall ⟨h, rfl⟩ fun p x hx hp => ?_
    rcases hes x hx with hoff | ⟨id, hid, rfl⟩
    · cases x with
      | walAppend | walCreate | walDelete => exact absurd trivial hoff
      | _ => exact hp
    · exact ⟨hp.1.delete (hp.2 ▸ hid), hp.2⟩
  exact hkeep.mono fun _ hp => hp.1

theorem Reads.activeId_eq (h : Reads J U w s.disk.wal) (hm : MemOk s) : w.activeId = s.mem.activeId :=
  le_antisymm (hm.last _ h.active) (h.last _ hm.active)

theorem reads_drainIf {d : Disk} {m : Mem} (h : Reads J U w d.wal) (hid : w.activeId = m.activeId)
    (cond : Bool) :
    EveryPrefix (stepBoth J sync) (ReadsBoth J U) (w, d) (m.drainIf cond).effects := by
  unfold Mem.drainIf
  split
  · refine EveryPrefix.cons h (EveryPrefix.nil ?_)
    have hrotate := h.rotate
    rw [hid] at hrotate
    exact hrotate
  · exact EveryPrefix.nil h

/-- The append of a request. -/
theorem reads_append (sync : Bool) (hJ : J.Strict U) {d : Disk} (h : Reads J U w d.wal)
    (hnew : ∀ e ∈ new, e ∈ U) :
    EveryPrefix (stepBoth J sync) (fun p => ReadsBoth J U p ∧ p.1.activeId = w.activeId) (w, d)
      (appendEffects w.activeId new) := by
  rw [appendEffects]
  split
  · exact EveryPrefix.nil ⟨h, rfl⟩
  · refine EveryPrefix.cons ⟨h, rfl⟩ (EveryPrefix.nil ?_)
    have happend := h.append hJ hnew
    cases sync with
    | false => exact ⟨happend, rfl⟩
    | true => exact ⟨happend.sync, rfl⟩

/-- **Every operation keeps the bytes and the events in agreement**, after each of its durable
steps. -/
theorem reads_op (X : Extern) (cfg : Config) (sync : Bool) (hJ : J.Strict U)
    (h : Reads J U w s.disk.wal) (hm : MemOk s) {op : Op} (hU : ∀ e ∈ op.accepts X s, e ∈ U) :
    EveryPrefix (stepBoth J sync) (ReadsBoth J U) (w, s.disk) (op.outcome X cfg s).effects := by
  have hid := h.activeId_eq hm
  have hoff : ∀ {o : Outcome}, o.OffLog → EveryPrefix (stepBoth J sync) (ReadsBoth J U)
      (w, s.disk) o.effects :=
    fun ho => reads_spares h fun x hx => .inl (ho x hx)
  cases op with
  | ingest clk events =>
    have happend := reads_append sync hJ h hU
    rw [hid] at happend
    refine (happend.mono fun _ hp => hp.1).append ?_
    have hlast := happend.all
    rw [foldl_stepBoth] at hlast ⊢
    exact reads_drainIf (m := s.mem.accept X clk (classifyBatch s.mem.dedupe
      (classifiedEvents X s.mem.manifest.closedPeriods clk.now events)).newEvents) hlast.1 hlast.2 _
  | drain => exact reads_drainIf h hid _
  | flush uuid clk =>
    show EveryPrefix _ _ _ (flushNext X uuid clk s).effects
    rcases flushNext_cases X uuid clk s with hskip | ⟨msg, rest, hq,
      ⟨-, hdrop⟩ | ⟨segs, m, -, -, hflush⟩⟩
    · rw [hskip]
      exact EveryPrefix.nil h
    · rw [hdrop]
      exact EveryPrefix.nil h
    · rw [hflush]
      have hsealed : msg.sealedWalId < w.activeId := by
        rw [hid]
        exact (hm.covers.sealed_lt (by rw [hq]; exact mem_cons_self)).2
      refine reads_spares h fun x hx => ?_
      rcases mem_append.1 hx with hx | hx
      · obtain ⟨seg, -, hx⟩ := mem_flatMap.1 hx
        simp only [mem_cons, not_mem_nil, or_false] at hx
        rcases hx with rfl | rfl <;> exact .inl id
      · rcases mem_cons.1 hx with rfl | hx
        · exact .inl id
        · obtain ⟨i, hi, rfl⟩ := mem_map.1 hx
          have hle : i ≤ msg.sealedWalId := by simpa using (mem_filter.1 hi).2
          exact .inr ⟨i, by omega, rfl⟩
  | rollupTick now uuid =>
    exact tick_rule
      (R := fun o => EveryPrefix _ _ _ o.effects) (EveryPrefix.nil h) (reads_drainIf h hid _)
      fun _ _ => hoff (offLog_commitTick _ _ _)
  | compactionTick now uuid => exact hoff (offLog_compactionTick s now uuid)
  | closePeriod account year month now => exact hoff (offLog_closePeriod s account year month now)
  | reopenPeriod account year month => exact hoff (offLog_reopenPeriod s account year month)

end Operations

/-! ### Reading the log from what a crash has left -/

section Reread

variable {X : Extern} {cfg : Config} {J : Serde} {U : Set UsageEvent} {d : Disk} {dir : WalDir Bytes}
  {log : WalDir (List UsageEvent)}

theorem ReadsAs.ids_eq (h : ReadsAs J U dir log) : dir.ids = log.ids :=
  ids_eq_of_forall₂ (R := fun _ a b => Pieces J U a ∧ (J.replayFile a).Sublist b) h

/-- Every file that is read is a part of the list of the same file. -/
theorem ReadsAs.exists_file (h : ReadsAs J U dir log) {f : ℕ × Bytes} (hf : f ∈ dir) :
    ∃ g ∈ log, Pieces J U f.2 ∧ (J.replayFile f.2).Sublist g.2 := by
  induction h with
  | nil => cases hf
  | @cons x y _ _ hxy _ ih =>
    rcases mem_cons.1 hf with rfl | hf
    · exact ⟨y, mem_cons_self, hxy.2⟩
    · obtain ⟨g, hg, hread⟩ := ih hf
      exact ⟨g, mem_cons_of_mem _ hg, hread⟩

/-- What is read above the seal is a part of the lists above the seal. -/
theorem ReadsAs.walEvents_sublist (h : ReadsAs J U dir log) (lastSealedId : ℕ) :
    ((WalDir.after (dir.map fun f => (f.1, J.replayFile f.2)) lastSealedId).flatMap (·.2)).Sublist
      ((log.after lastSealedId).flatMap (·.2)) := by
  induction h with
  | nil => exact List.Sublist.refl _
  | @cons x y _ _ hxy _ ih =>
    simp only [WalDir.after, map_cons, filter_cons, ← hxy.1] at ih ⊢
    split
    · rw [flatMap_cons, flatMap_cons]
      exact hxy.2.2.append ih
    · exact ih

/-- **The disk is in order when its log is read from bytes**, and holds nothing more. -/
theorem DiskOk.reread (h : DiskOk X cfg d) (hread : ReadsAs J U dir d.wal) :
    DiskOk X cfg (d.reread J dir) ∧ (d.reread J dir).content ≤ d.content := by
  have hids : (d.reread J dir).wal.ids = d.wal.ids := by
    rw [← hread.ids_eq, Disk.reread, WalDir.ids, WalDir.ids, map_map]
    rfl
  refine ⟨⟨?_,
    fun f hf e he => ?_, fun m hm =>
      (h.segments m hm).congr rfl rfl, h.ids, h.replaced, h.bucketCount⟩, ?_⟩
  · rw [WalDir.Sorted, hids]
    exact h.sorted
  · obtain ⟨f', hf', rfl⟩ := mem_map.1 hf
    obtain ⟨g, hg, -, hsub⟩ := hread.exists_file hf'
    exact h.positive g hg e (hsub.subset he)
  · rw [Disk.content, Disk.content, Multiset.coe_le]
    exact ((List.Sublist.refl _).append (hread.walEvents_sublist _)).subperm

end Reread

end UsageDb
