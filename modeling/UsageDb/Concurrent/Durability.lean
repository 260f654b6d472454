import UsageDb.Concurrent.Machine

/-!
# Acknowledged events survive a crash, if batches are sent in order

A client that has been told that its event was accepted expects the event on the disk
(`Disk.Durable`): in a raw segment that the manifest lists, or in a log file above the seal.

The flusher seals "everything up to the log file of this batch", so it relies on batches
reaching it in the order in which their log files were sealed. The source does not see to
that: a batch is drained and its log file sealed under the locks, and sent after their
release. When a later batch overtakes an earlier one, its commit seals the log file of the
earlier batch too and deletes it, while those events are only in memory; a crash at that point
loses them (`acked_event_lost`). `acked_durable_of_sendsInOrder` says that this is the only
way: in every run in which no batch overtakes another, every acknowledged event is durable in
every state.

The argument is that of `Runtime.Preserve`, for the state in which the batch the flusher works
on, the channel and the held batches are one queue (`Machine.view`).
-/

namespace UsageDb

open Lib List

variable {X : Extern} {cfg : Config} {m : Machine}

/-! ### The invariant -/

/-- The batches under way, the one the flusher works on first. -/
def Machine.underWay (m : Machine) : List FlushMessage :=
  m.flusher.current ++ (m.state.mem.queue ++ m.held.map (·.2))

/-- The state with all batches under way in the channel. -/
def Machine.view (m : Machine) : State := ⟨m.state.disk, { m.state.mem with queue := m.underWay }⟩

/-- What holds of the flusher's work: the files it still has to write complete the segments
of its message, and it deletes sealed log files only. -/
def FlushPhase.Ok (X : Extern) (s : State) : FlushPhase → Prop
  | .idle => True
  | .writing msg metas todo => ∃ uuid, NewNames s.mem.manifest uuid ∧
      metas = (flushSegments X uuid s.mem.manifest.buckets msg.events).map (·.1) ∧
      FilesOk X (s.disk.applyAll todo) (flushSegments X uuid s.mem.manifest.buckets msg.events) ∧
      ∀ x ∈ todo, x.Unlisted s.mem.manifest.rawIds
  | .deleting ids => ∀ id ∈ ids, id ≤ s.mem.manifest.lastSealedWalId

/-- The server is in order. -/
structure Machine.Ok (X : Extern) (cfg : Config) (m : Machine) : Prop where
  disk : DiskOk X cfg m.state.disk
  /-- The batches under way and the memtable are the log above the seal. -/
  mem : MemOk m.view
  flusher : m.flusher.Ok X m.state
  /-- What has been acknowledged is on the disk. -/
  acked : ∀ e ∈ m.acked, e ∈ m.state.disk.content
  /-- What is to be acknowledged is on the disk. -/
  requests : ∀ r ∈ m.requests, ∀ e ∈ r.2, e ∈ m.state.disk.content

/-- The disk holds exactly `c`. -/
abbrev HoldsExactly (X : Extern) (cfg : Config) : Multiset UsageEvent → Disk →
    Prop := Holds X cfg fun _ => True

theorem DiskOk.holds {d : Disk} (h : DiskOk X cfg d) : HoldsExactly X cfg d.content d :=
  ⟨h, fun _ => rfl⟩

theorem Machine.Ok.loadManifest (h : m.Ok X cfg) : m.state.disk.loadManifest = m.state.mem.manifest :=
  h.mem.loadManifest

/-- Segment files after some effects depend on the segment files before. -/
theorem applyAll_files {d d' : Disk} (hseg : d'.seg = d.seg) (hidx : d'.idx = d.idx)
    (xs : List Effect) :
    (d'.applyAll xs).seg = (d.applyAll xs).seg ∧ (d'.applyAll xs).idx = (d.applyAll xs).idx := by
  induction xs generalizing d d' with
  | nil => exact ⟨hseg, hidx⟩
  | cons x xs ih =>
    rw [Disk.applyAll_cons, Disk.applyAll_cons]
    cases x with
    | segWrite id rows => exact ih (by simp only [Disk.apply, hseg]) hidx
    | segRemove id => exact ih (by simp only [Disk.apply, hseg]) hidx
    | idxWrite id rows => exact ih hseg (by simp only [Disk.apply, hidx])
    | _ => exact ih hseg hidx

/-- The flusher does not mind what the others do, who leave raw segments alone. -/
theorem FlushPhase.Ok.congr {s s' : State} {p : FlushPhase} (h : p.Ok X s)
    (hseg : s'.disk.seg = s.disk.seg)
    (hidx : s'.disk.idx = s.disk.idx) (hraw : s'.mem.manifest.rawSegments = s.mem.manifest.rawSegments)
    (hrep : s'.mem.manifest.compactedReplacements = s.mem.manifest.compactedReplacements)
    (hb : s'.mem.manifest.bucketCount = s.mem.manifest.bucketCount)
    (hseal : s'.mem.manifest.lastSealedWalId = s.mem.manifest.lastSealedWalId) : p.Ok X s' := by
  have hids : s'.mem.manifest.rawIds = s.mem.manifest.rawIds := by
    rw [Manifest.rawIds, hraw, Manifest.rawIds]
  have hbuckets : s'.mem.manifest.buckets = s.mem.manifest.buckets := by
    rw [Manifest.buckets, hb, Manifest.buckets]
  cases p with
  | idle => trivial
  | writing msg metas todo =>
    obtain ⟨uuid, hnew, hmetas, hfiles, htodo⟩ := h
    obtain ⟨hseg', hidx'⟩ := applyAll_files hseg hidx todo
    refine ⟨uuid, ⟨?_, ?_, hnew.injective⟩, ?_, ?_, ?_⟩
    · rw [hids]; exact hnew.unlisted
    · rw [hrep]; exact hnew.unreplaced
    · rw [hbuckets]; exact hmetas
    · rw [hbuckets]
      intro seg hmem
      rw [hseg', hidx']
      exact hfiles seg hmem
    · rw [hids]; exact htodo
  | deleting ids => rw [FlushPhase.Ok, hseal]; exact h

section Steps

variable {m m' : Machine}

/-- A step leaves the server in order, with the events `new` on the disk besides those before. -/
structure Machine.Adds (X : Extern) (cfg : Config) (m : Machine) (new : List UsageEvent)
    (m' : Machine) : Prop where
  /-- The server is in order. -/
  ok : m'.Ok X cfg
  /-- The disk holds what it held, and the new events. -/
  content : m'.state.disk.content = m.state.disk.content + ↑new

/-- A step that accepts nothing. -/
theorem Machine.Ok.keep (h : m.Ok X cfg) (hd : HoldsExactly X cfg m.state.disk.content m'.state.disk)
    (hm : MemOk m'.view) (hf : m'.flusher.Ok X m'.state) (hacked : m'.acked = m.acked)
    (hreq : m'.requests = m.requests) : m.Adds X cfg [] m' := by
  have hcontent : m'.state.disk.content = m.state.disk.content := hd.2 trivial
  refine ⟨⟨hd.1, hm, hf, ?_, ?_⟩, hcontent.trans (Multiset.add_zero _).symm⟩
  · rw [hacked, hcontent]; exact h.acked
  · rw [hreq, hcontent]; exact h.requests

/-! ### Requests -/

/-- A drained batch that is held back, and one that is sent to the end of a queue. -/
theorem Mem.drainIf_sent (mem : Mem) (q : List FlushMessage) (cond : Bool) :
    (({ mem with queue := q } : Mem).drainIf cond).sent =
      ⟨(mem.drainIf cond).effects,
        { (mem.drainIf cond).mem with queue := q ++ (mem.drainIf cond).msg.toList }⟩ := by
  unfold Mem.drainIf
  split
  · rfl
  · simp [Drained.sent]

theorem Mem.drainIf_queue (mem : Mem) (cond : Bool) : (mem.drainIf cond).mem.queue = mem.queue := by
  unfold Mem.drainIf
  split <;> rfl

/-- A party that drains and holds the batch back looks, in the view, as if it had sent it. -/
theorem Machine.view_drain (mem : Mem) {effects : List Effect} {cond : Bool} {party : Party}
    (hqueue : mem.queue = m.state.mem.queue)
    (hstate : m'.state = ⟨m.state.disk.applyAll (effects ++ (mem.drainIf cond).effects),
      (mem.drainIf cond).mem⟩)
    (hheld : m'.held = m.held ++ ((mem.drainIf cond).msg.map fun msg => (party, msg)).toList)
    (hflush : m'.flusher = m.flusher) :
    m'.view = ((({ mem with queue := m.underWay } : Mem).drainIf cond).sent).state
      ⟨m.state.disk.applyAll effects, { mem with queue := m.underWay }⟩ := by
  have hmsgs : (((mem.drainIf cond).msg.map fun msg => (party, msg)).toList).map (·.2) =
      (mem.drainIf cond).msg.toList := by
    cases (mem.drainIf cond).msg <;> rfl
  have hunder : m'.underWay = m.underWay ++ (mem.drainIf cond).msg.toList := by
    rw [Machine.underWay, hstate, hheld, hflush, map_append, hmsgs, Mem.drainIf_queue, hqueue,
      Machine.underWay]
    simp only [append_assoc]
  rw [Mem.drainIf_sent, Machine.view, hunder, hstate, Outcome.state, Disk.applyAll_append]

/-- In the view, a critical section is a whole request. -/
theorem Machine.view_ingest (at_ : ℤ) (clk : IngestClock) (events : List UsageEvent) :
    (m.ingest X cfg at_ clk events).view = (handleIngest X cfg clk events m.view).1.state m.view := by
  rw [handleIngest_eq, acceptAndDrain, Outcome.andThen_state]
  exact Machine.view_drain (m.state.mem.accept X clk (classifyBatch m.state.mem.dedupe
    (classifiedEvents X m.state.mem.manifest.closedPeriods clk.now events)).newEvents) rfl rfl rfl rfl

/-- Work on the log does not touch what the flusher does. -/
theorem FlushPhase.Ok.onLog {s s' : State} {o : Outcome} {p : FlushPhase} (h : p.Ok X s)
    (ho : o.OnLog s) (hs' : s' = o.state s) : p.Ok X s' := by
  subst hs'
  obtain ⟨hseg, hidx, -⟩ := Disk.applyAll_onLog ho.effects s.disk
  have hman : (o.state s).mem.manifest = s.mem.manifest := ho.manifest
  exact h.congr hseg hidx (by rw [hman]) (by rw [hman]) (by rw [hman]) (by rw [hman])

theorem Machine.Ok.ingest (h : m.Ok X cfg) (at_ : ℤ) (clk : IngestClock) (events : List UsageEvent) :
    m.Adds X cfg ((Op.ingest clk events).accepts X m.state) (m.ingest X cfg at_ clk events) := by
  have hview : HoldsExactly X cfg m.state.disk.content m.view.disk := h.disk.holds
  obtain ⟨-, hd, hm⟩ := ingest_ok (fun _ => trivial) hview h.mem clk events
  rw [← Machine.view_ingest at_] at hd hm
  have hcontent : (m.ingest X cfg at_ clk events).state.disk.content = _ := hd.2 trivial
  have hflush : m.flusher.Ok X (m.ingest X cfg at_ clk events).view :=
    FlushPhase.Ok.onLog (s := m.view) h.flusher (onLog_ingest _ clk events)
      (Machine.view_ingest at_ clk events)
  refine ⟨⟨hd.1, hm, hflush.congr rfl rfl rfl rfl rfl rfl, ?_, ?_⟩, hcontent⟩
  · intro e he
    rw [hcontent]
    exact Multiset.mem_add.2 (.inl (h.acked e he))
  · intro r hr e he
    rw [hcontent, Multiset.mem_add]
    rcases mem_append.1 hr with hr | hr
    · exact .inl (h.requests r hr e he)
    · rw [mem_singleton.1 hr] at he
      exact .inr (Multiset.mem_coe.2 he)

/-- Of the held batches, only the oldest may be sent: its seal is the smallest. -/
theorem Machine.Ok.send (h : m.Ok X cfg) {i : ℕ}
    (horder : ∀ x ∈ m.held[i]?, ∀ y ∈ m.held, x.2.sealedWalId ≤ y.2.sealedWalId)
    (hstep : m.send i = some m') : m.Adds X cfg [] m' := by
  obtain ⟨x, hx, rfl⟩ := Option.map_eq_some_iff.1 hstep
  have hpair : m.held.Pairwise fun x y => x.2.sealedWalId < y.2.sealedWalId := by
    have hall := h.mem.covers.sealed_pairwise
    have hlast := (pairwise_append.1 (pairwise_append.1 hall).2.1).2.1
    rw [pairwise_map] at hlast
    exact hlast
  -- a batch behind another one has a larger seal
  obtain ⟨rest, hheld, rfl⟩ : ∃ rest, m.held = x :: rest ∧ i = 0 := by
    cases hlist : m.held with
    | nil => simp [hlist] at hx
    | cons y rest =>
      rw [hlist] at hx hpair
      cases i with
      | zero => exact ⟨rest, by simpa using hx, rfl⟩
      | succ i =>
        have hmem : x ∈ rest := mem_of_getElem? (by simpa using hx)
        have hlt := (pairwise_cons.1 hpair).1 x hmem
        have hle := horder x (by rw [hlist]; exact hx) y (by simp [hlist])
        omega
  refine h.keep h.disk.holds ?_ (h.flusher.congr rfl rfl rfl rfl rfl rfl) rfl rfl
  have hunder : m.underWay = m.flusher.current ++
      ((m.state.mem.send x.2).queue ++ (m.held.eraseIdx 0).map (·.2)) := by
    rw [Machine.underWay, hheld]
    simp [Mem.send]
  have hmem := h.mem
  rw [Machine.view, hunder] at hmem
  exact hmem

theorem Machine.Ok.respond (h : m.Ok X cfg) {i : ℕ} (hstep : m.Next X cfg (.respond i) m') :
    m.Adds X cfg [] m' := by
  cases hstep
  rename_i hreq
  refine ⟨⟨h.disk, h.mem, h.flusher, fun e he => ?_, fun r hr => h.requests r (mem_of_mem_eraseIdx hr)⟩,
    (Multiset.add_zero _).symm⟩
  rcases mem_append.1 he with he | he
  · exact h.acked e he
  · exact h.requests _ (mem_of_getElem? hreq) e he

/-! ### The flusher -/

theorem Machine.Ok.take (h : m.Ok X cfg) {uuid : ℕ → String} (hnew : NewNames m.state.mem.manifest uuid)
    (hstep : m.Next X cfg (.take uuid) m') : m.Adds X cfg [] m' := by
  cases hstep
  rename_i msg rest flusher hidle hqueue hflusher
  have hunder : m.underWay = msg :: (rest ++ m.held.map (·.2)) := by
    rw [Machine.underWay, hidle, hqueue]
    rfl
  have hmem := h.mem
  rw [Machine.view, hunder] at hmem
  obtain ⟨hempty, rfl⟩ | rfl := hflusher
  · refine h.keep h.disk.holds ⟨hmem.loaded, hmem.active, hmem.last, ?_⟩ trivial rfl rfl
    have hcov := hmem.covers.drop_empty h.disk.sorted hempty
    simpa [Machine.view, Machine.underWay, hidle, FlushPhase.current] using hcov
  · refine h.keep h.disk.holds hmem ⟨uuid, hnew, rfl, filesOk_segmentEffects _ hnew.injective _ _,
      ?_⟩ rfl rfl
    have hunl := flush_unlisted (X := X) h.mem hnew msg.events
    rw [h.mem.loadManifest] at hunl
    exact hunl

theorem Machine.Ok.write (h : m.Ok X cfg) (hstep : m.Next X cfg .write m') : m.Adds X cfg [] m' := by
  cases hstep
  rename_i msg metas x todo hwriting
  have hflush := h.flusher
  rw [hwriting] at hflush
  obtain ⟨uuid, hnew, hmetas, hfiles, htodo⟩ := hflush
  have hview : HoldsExactly X cfg m.state.disk.content m.view.disk := h.disk.holds
  have hunl : ∀ y ∈ [x], y.Unlisted m.view.disk.loadManifest.rawIds := by
    rw [h.mem.loadManifest]
    exact fun y hy => mem_singleton.1 hy ▸ htodo x (by simp)
  have hkeep := (keepsOffLog_unlisted hview h.mem.loaded hunl).keeps h.mem
  refine h.keep hkeep.disk ?_ ⟨uuid, hnew, hmetas, hfiles, fun y hy => htodo y (by simp [hy])⟩ rfl rfl
  have hmem := hkeep.mem
  simp only [Machine.view, Machine.underWay, hwriting, Outcome.state] at hmem ⊢
  exact hmem

theorem Machine.Ok.commit (h : m.Ok X cfg) (hstep : m.Next X cfg .commit m') : m.Adds X cfg [] m' := by
  cases hstep
  rename_i msg metas _ hwriting hmanifest
  subst hmanifest
  have hflush := h.flusher
  rw [hwriting] at hflush
  obtain ⟨uuid, hnew, rfl, hfiles, -⟩ := hflush
  have hview : HoldsExactly X cfg m.state.disk.content m.view.disk := h.disk.holds
  have hqueue : m.view.mem.queue = msg :: (m.state.mem.queue ++ m.held.map (·.2)) := by
    simp [Machine.view, Machine.underWay, hwriting, FlushPhase.current]
  have hcov := h.mem.covers
  rw [hqueue] at hcov
  refine h.keep (hview.commitFlush h.mem hqueue hnew hfiles) (h.mem.commitFlush hqueue _) ?_ rfl rfl
  intro id hid
  have hle : id ≤ msg.sealedWalId := by simpa using (mem_filter.1 hid).2
  refine hle.trans ?_
  have hlt : m.state.mem.manifest.lastSealedWalId < msg.sealedWalId := hcov.1
  simp [Machine.after, Outcome.state, Manifest.commitFlush, hlt]

theorem Machine.Ok.delete (h : m.Ok X cfg) (hstep : m.Next X cfg .delete m') : m.Adds X cfg [] m' := by
  cases hstep with
  | @delete id ids hdeleting =>
    have hflush := h.flusher
    rw [hdeleting] at hflush
    have hid : id ≤ m.state.mem.manifest.lastSealedWalId := hflush id (by simp)
    refine h.keep (h.disk.holds.walDelete (h.loadManifest ▸ hid)) ?_
      (fun i hi => hflush i (by simp [hi])) rfl rfl
    have hmem := h.mem.walDelete hid
    simp only [Machine.view, Machine.underWay, hdeleting] at hmem ⊢
    exact hmem
  | deleted hdeleting =>
    refine h.keep h.disk.holds ?_ trivial rfl rfl
    have hmem := h.mem
    simp only [Machine.view, Machine.underWay, hdeleting] at hmem ⊢
    exact hmem

/-! ### The rollup worker -/

theorem rollupEffects_files (d : Disk) (segs : List (SegmentMeta × List HourlyRollupRecord)) :
    (d.applyAll (rollupEffects segs)).seg = d.seg ∧ (d.applyAll (rollupEffects segs)).idx = d.idx := by
  induction segs generalizing d with
  | nil => exact ⟨rfl, rfl⟩
  | cons seg segs ih => exact ih (d.apply (.rsegWrite seg.1.segmentId seg.2))

theorem Machine.Ok.tickDrain (h : m.Ok X cfg) (hstep : m.Next X cfg .tickDrain m') :
    m.Adds X cfg [] m' := by
  obtain ⟨hstate, hheld, hsame⟩ :
      m'.state = ⟨m.state.disk.applyAll ([] ++ (forceDrain m.state).effects),
      (forceDrain m.state).mem⟩ ∧
      m'.held = m.held ++ ((forceDrain m.state).msg.map fun msg => (Party.rollup, msg)).toList ∧
      m'.flusher = m.flusher := by
    cases hstep
    exact ⟨rfl, rfl, rfl⟩
  have hview :
      m'.view = (m.view.mem.drainIf (!m.state.mem.memtable.events.isEmpty)).sent.state m.view :=
    Machine.view_drain m.state.mem rfl hstate hheld hsame
  have hholds : HoldsExactly X cfg m.state.disk.content m.view.disk := h.disk.holds
  have hkeep := keeps_drainIf hholds h.mem (!m.state.mem.memtable.events.isEmpty)
  have hd := hkeep.disk
  have hm := hkeep.mem
  rw [← hview] at hd hm
  have hflush : m.flusher.Ok X m'.view :=
    FlushPhase.Ok.onLog (s := m.view) h.flusher (onLog_drainIf _ _) hview
  cases hstep
  exact h.keep hd hm (hflush.congr rfl rfl rfl rfl rfl rfl) rfl rfl

theorem Machine.Ok.tickScan (h : m.Ok X cfg) {uuid : ℤ → ℕ → String}
    (hstep : m.Next X cfg (.tickScan uuid) m') :
    m.Adds X cfg [] m' := by
  cases hstep
  rename_i snap target _ hticker hsegs
  subst hsegs
  have hholds : HoldsExactly X cfg m.state.disk.content m.view.disk := h.disk.holds
  have hunl : ∀ x ∈ rollupEffects (newRollups X m.state.disk snap uuid snap.start target),
      x.Unlisted m.view.disk.loadManifest.rawIds := by
    intro x hx
    obtain ⟨seg, -, rfl⟩ := mem_map.1 hx
    trivial
  have hkeep := (keepsOffLog_unlisted hholds h.mem.loaded hunl).keeps h.mem
  refine h.keep hkeep.disk hkeep.mem (h.flusher.congr ?_ ?_ rfl rfl rfl rfl) rfl rfl
  · exact (rollupEffects_files _ _).1
  · exact (rollupEffects_files _ _).2

theorem Machine.Ok.tickCommit (h : m.Ok X cfg) (hstep : m.Next X cfg .tickCommit m') :
    m.Adds X cfg [] m' := by
  cases hstep
  rename_i segs target _ hticker hmanifest
  subst hmanifest
  have hholds : HoldsExactly X cfg m.state.disk.content m.view.disk := h.disk.holds
  have hkeep :=
    (keepsOffLog_saveSame (m := (m.state.mem.manifest.commitRollup (segs.map (·.1)) target).saved)
      [] hholds
    h.mem.loaded (by simp) rfl rfl rfl fun r hr => hr).keeps h.mem
  exact h.keep hkeep.disk hkeep.mem (h.flusher.congr rfl rfl rfl rfl rfl rfl) rfl rfl

/-- The steps of a tick that only look. -/
theorem Machine.Ok.look (h : m.Ok X cfg) (ticker : TickPhase) (clock : ℤ) :
    m.Adds X cfg [] { m with ticker := ticker, clock := clock } :=
  ⟨⟨h.disk, h.mem, h.flusher, h.acked, h.requests⟩, (Multiset.add_zero _).symm⟩

/-- Batches are sent in the order of their log files: the one that is sent has the smallest
seal of those held. -/
def Action.SendsInOrder (m : Machine) : Action → Prop
  | .send i => ∀ x ∈ m.held[i]?, ∀ y ∈ m.held, x.2.sealedWalId ≤ y.2.sealedWalId
  | _ => True

/-- The events a step accepts. -/
def Action.accepts (X : Extern) (m : Machine) : Action → List UsageEvent
  | .ingest _ clk events => (Op.ingest clk events).accepts X m.state
  | _ => []

/-- **Every step of every party keeps the server in order**, if batches are sent in order, and
the disk gets exactly what the step accepts. -/
theorem Machine.Ok.next (h : m.Ok X cfg) {a : Action} (hfresh : a.Fresh m) (horder : a.SendsInOrder m)
    (hstep : m.next X cfg a = some m') : m.Adds X cfg (a.accepts X m) m' := by
  have hnext := Machine.next_cases hstep
  cases a with
  | ingest at_ clk events => exact Option.some.inj hstep ▸ h.ingest at_ clk events
  | send i => exact h.send horder hstep
  | respond i => exact h.respond hnext
  | take uuid => exact h.take hfresh hnext
  | write => exact h.write hnext
  | commit => exact h.commit hnext
  | delete => exact h.delete hnext
  | tickDrain => exact h.tickDrain hnext
  | tickScan uuid => exact h.tickScan hnext
  | tickCommit => exact h.tickCommit hnext
  | tickStart _ | tickActive | tickAge | tickTarget =>
    cases hnext
    exact h.look _ _

end Steps

/-! ### Every run -/

/-- The disk of the server. -/
def Server.disk : Server → Disk
  | .up m => m.state.disk
  | .down d _ => d

/-- The events whose acceptance has been answered. -/
def Server.acked : Server → List UsageEvent
  | .up m => m.acked
  | .down _ acked => acked

/-- Batches are sent in order. -/
def Server.SendsInOrder : Server → Event → Prop
  | .up m, .act a => a.SendsInOrder m
  | _, _ => True

/-- The server is in order, running or crashed. -/
def Server.Ok (X : Extern) (cfg : Config) : Server → Prop
  | .up m => m.Ok X cfg
  | .down d acked => DiskOk X cfg d ∧ ∀ e ∈ acked, e ∈ d.content

/-- A crash leaves the disk, and a start makes a running server of it. -/
theorem Server.Ok.step {s t : Server} {l : Event} (h : s.Ok X cfg) (hstep : Server.Step X cfg s l t)
    (horder : s.SendsInOrder l) : t.Ok X cfg := by
  cases hstep with
  | act hfresh hnext => exact (Machine.Ok.next h hfresh horder hnext).ok
  | @crash m =>
    have hm : m.Ok X cfg := h
    exact ⟨hm.disk, hm.acked⟩
  | @start d acked now clk =>
    obtain ⟨hdisk, hacked⟩ := h
    obtain ⟨hpre, hmem⟩ := restart_ok hdisk.holds now clk
    have hend : HoldsExactly X cfg d.content (d.applyAll (restart X cfg now clk d).effects) := hpre.all
    refine ⟨hend.1, hmem, trivial, fun e he => ?_, fun r hr => by cases hr⟩
    have hcontent := hend.2 trivial
    exact hcontent ▸ hacked e he

/-- **No acknowledged event is lost while batches are sent in order.** In every state of every
run from an empty disk, with crashes and restarts, every acknowledged event is in a raw segment
of the manifest or in a log file above the seal. -/
theorem acked_durable_of_sendsInOrder {ls : List Event} {s : Server}
    (hrun : Run (fun s l t => Server.Step X cfg s l t ∧ s.SendsInOrder l) (.down .empty []) ls s) :
    ∀ e ∈ s.acked, s.disk.Durable e := by
  have hempty : Server.Ok X cfg (.down .empty []) := by
    have h : SysOk X cfg DistinctIds 0 (.down .empty) := sysOk_empty
    exact ⟨h.1, fun e he => by cases he⟩
  have h : s.Ok X cfg := Run.invariant (I := Server.Ok X cfg)
    (fun _ _ _ hs hst => hs.step hst.1 hst.2) hrun hempty
  intro e he
  rw [Disk.durable_iff]
  cases s with
  | up m =>
    have hm : m.Ok X cfg := h
    exact hm.acked e he
  | down d acked => exact h.2 e he

/-! ### Runs that keep the order, and one that does not -/

/-- The flusher draws the sample names; no scan is made. -/
def Action.DrawsSample : Action → Prop
  | .take uuid => uuid = sampleUuid
  | .tickScan _ => False
  | _ => True

/-- A check for concrete runs: the sample names are new, as there is no segment yet. -/
def checkNames (m : Machine) : Action → Bool
  | .take _ => m.state.mem.manifest.rawSegments.isEmpty &&
      m.state.mem.manifest.compactedReplacements.isEmpty
  | _ => true

theorem checkNames_ok {a : Action} (hdraw : a.DrawsSample) (h : checkNames m a) : a.Fresh m := by
  cases a with
  | take uuid =>
    obtain rfl : uuid = sampleUuid := hdraw
    simp only [checkNames, Bool.and_eq_true, List.isEmpty_iff] at h
    refine ⟨fun b hb => ?_, fun b r hr => ?_, sampleUuid_injective⟩
    · simp [Manifest.rawIds, h.1] at hb
    · simp [h.2] at hr
  | tickScan uuid => cases hdraw
  | _ => trivial

/-- The same, and batches are sent in order. -/
def checkOrder (m : Machine) (a : Action) : Bool :=
  checkNames m a && match a with
    | .send i => decide (∀ x ∈ m.held[i]?, ∀ y ∈ m.held, x.2.sealedWalId ≤ y.2.sealedWalId)
    | _ => true

theorem checkOrder_ok {a : Action} (hdraw : a.DrawsSample) (h : checkOrder m a) :
    a.Fresh m ∧ (Server.up m).SendsInOrder (.act a) := by
  unfold checkOrder at h
  obtain ⟨hnames, hsend⟩ := (Bool.and_eq_true _ _).mp h
  refine ⟨checkNames_ok hdraw hnames, ?_⟩
  cases a with
  | send i =>
    have horder : ∀ x ∈ m.held[i]?, ∀ y ∈ m.held, x.2.sealedWalId ≤ y.2.sealedWalId :=
      of_decide_eq_true hsend
    exact horder
  | _ => trivial

/-- A memtable that is drained from the second event on. -/
def smallConfig : Config := { sampleConfig with maxMemtableSizeBytes := 600 }

/-- A server that has just been set up. -/
def newServer : Machine := .start .sample smallConfig 8000000 (fun _ => 8000000) .empty []

/-- A request of one event, which is answered, and one whose batch with both events is drained
and held back. -/
def firstBatch : List Action :=
  [.ingest 9000000 sampleClock [sampleEvent "a" "acme" 7200000 5], .respond 0,
    .ingest 9000000 sampleClock [sampleEvent "b" "acme" 7200000 5]]

/-- The flusher takes a message and works on it until the log files are deleted. -/
def flushAll : List Action := [.take sampleUuid, .write, .write, .commit, .delete, .delete]

/-- The batch is sent, the request answered, and the message flushed. -/
theorem acked_durable_of_flush :
    let as := firstBatch ++ [.send 0, .respond 0] ++ flushAll
    ∃ s, Run (fun s l t => Server.Step .sample smallConfig s l t ∧ s.SendsInOrder l) (.down .empty [])
        (.start 8000000 (fun _ => 8000000) :: as.map .act) s ∧
      s.acked.map (·.eventId) = ["a", "b"] ∧ ∀ e ∈ s.acked, s.disk.Durable e := by
  intro as
  have heval :
      (newServer.runAll .sample smallConfig checkOrder as).map (fun m => m.acked.map (·.eventId)) =
      some ["a", "b"] := by decide +kernel
  obtain ⟨m, hm, hacked⟩ := Option.map_eq_some_iff.1 heval
  have hdraws : ∀ a ∈ as, a.DrawsSample := by
    simp [as, firstBatch, flushAll, Action.DrawsSample]
  have hrun := Run.append (.single ⟨.start _ _, trivial⟩)
    (Server.run_runAll (fun a ha m hok => checkOrder_ok (hdraws a ha) hok) hm)
  exact ⟨.up m, hrun, hacked, acked_durable_of_sendsInOrder hrun⟩

/-- **A batch overtaken by a later one is lost in a crash.** Two batches are held; the second
is sent first. Its commit seals the log file of the first batch as well and the flusher
deletes it, while the first batch is still held. Its first event has been acknowledged, and is
neither in a segment of the manifest nor in a log file. -/
theorem acked_event_lost :
    let as := firstBatch ++ [.ingest 9000000 sampleClock
      [sampleEvent "c" "acme" 7200000 1, sampleEvent "d" "acme" 7200000 1], .send 1] ++ flushAll
    ∃ s e, Run (Server.Step .sample smallConfig) (.down .empty [])
        (.start 8000000 (fun _ => 8000000) :: as.map .act) s ∧
      e ∈ s.acked ∧ e.eventId = "a" ∧ ¬ s.disk.Durable e := by
  intro as
  have heval : (newServer.runAll .sample smallConfig checkNames as).map (fun m =>
      (m.acked.map fun e => (e.eventId, decide (e ∈ m.state.disk.content)))) = some [("a", false)] := by
    decide +kernel
  obtain ⟨m, hm, hlost⟩ := Option.map_eq_some_iff.1 heval
  have hdraws : ∀ a ∈ as, a.DrawsSample := by
    simp [as, firstBatch, flushAll, Action.DrawsSample]
  have hrun : Run (fun s l t => Server.Step .sample smallConfig s l t ∧ True) (.down .empty [])
      ([.start 8000000 fun _ => 8000000] ++ as.map .act) (.up m) :=
    Run.append (.single ⟨.start _ _, trivial⟩)
      (Server.run_runAll (fun a ha m hok => ⟨checkNames_ok (hdraws a ha) hok, trivial⟩) hm)
  obtain ⟨e, hacked, heq⟩ := map_eq_singleton_iff.1 hlost
  simp only [Prod.mk.injEq, decide_eq_false_iff_not] at heq
  refine ⟨.up m, e, hrun.mono fun _ _ _ h => h.1, ?_, heq.1, ?_⟩
  · rw [Server.acked, hacked]
    exact mem_singleton_self e
  · rw [Disk.durable_iff]
    exact heq.2

end UsageDb
