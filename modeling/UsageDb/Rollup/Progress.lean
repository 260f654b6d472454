import UsageDb.Rollup.Coverage
import UsageDb.Runtime.InFlight
import UsageDb.Runtime.Names

/-!
# Whether the rollups go on

A rollup tick takes the watermark to the last full hour before the safety lag, but not past what
is in the memtable. So that rare events do not hold it back, a tick that finds the memtable too
old has it drained, and goes on when the batch has been committed. With no log file beyond the one
after the seal that is so: a tick, a flush and a tick pass every event before the lag
(`rollups_catch_up`).

With such a file, and with no batch queued, the ticks take it for a batch in flight, and the drain
of a stale memtable is not reached. A crash with a drained batch leaves this. Then no tick, no
request that does not fill the memtable, and no restart moves the watermark again: it stands still
until a request fills the memtable (`rollups_stand_still`).
-/

namespace UsageDb

open Lib List

variable {X : Extern} {cfg : Config} {d : Disk} {s : State} {o : Outcome}

/-! ### Standing still -/

/-- There is a log file beyond the one after the seal. -/
def Disk.Gap (d : Disk) : Prop := ∃ id ∈ d.wal.ids, d.loadManifest.lastSealedWalId + 1 < id

/-- No batch waits for the flusher. -/
def Sys.Undrained : Sys → Prop
  | .up s => s.mem.queue = []
  | .down _ => True

/-- The seal, and how far the rollups are. -/
def Manifest.progress (m : Manifest) : ℕ × List SegmentMeta × ℤ :=
  (m.lastSealedWalId, m.rollupSegments, m.hourlyRollupMs)

/-- The outcome leaves the seal, the rollups and the log files above the seal as they are. -/
structure Idles (m : Manifest) (o : Outcome) : Prop where
  /-- In memory. -/
  mem : o.mem.manifest.progress = m.progress
  /-- On the disk. -/
  effects : ∀ x ∈ o.effects, x.Frames Manifest.progress m.progress
  log : ∀ id, .walDelete id ∈ o.effects → id ≤ m.lastSealedWalId

theorem Idles.gap (h : Idles d.loadManifest o) (hgap : d.Gap) :
    EveryPrefix Disk.apply
      (fun d' => d'.Gap ∧ d'.loadManifest.progress = d.loadManifest.progress) d o.effects := by
  obtain ⟨id, hid, hlt⟩ := hgap
  have hkept : EveryPrefix Disk.apply (fun d' => id ∈ d'.wal.ids) d o.effects := by
    refine EveryPrefix.of_forall hid fun d' x hx hd' => ?_
    cases x with
    | walAppend i events =>
      show id ∈ (d'.wal.modify i (· ++ events)).ids
      rwa [WalDir.ids_modify]
    | walCreate i =>
      show id ∈ (d'.wal.create i []).ids
      rw [WalDir.create]
      split
      · exact hd'
      · rw [WalDir.ids_append]
        exact mem_append_left _ hd'
    | walDelete i =>
      have hne : id ≠ i := by have := h.log i hx; omega
      obtain ⟨f, hf, rfl⟩ := mem_map.1 hd'
      exact mem_map_of_mem (mem_filter.2 ⟨hf, decide_eq_true hne⟩)
    | _ => exact hd'
  intro k
  have hsame := (frames_take h.effects k).1
  exact ⟨⟨id, hkept k, (congrArg (·.1 + 1) hsame).trans_lt hlt⟩, hsame⟩

theorem idles_of_frames (h : Frames Manifest.progress s o) (hlog : ∀ id, .walDelete id ∉ o.effects) :
    Idles s.mem.manifest o := ⟨h.mem, h.effects, fun id hid => absurd hid (hlog id)⟩

theorem Outcome.OffLog.idles (h : o.OffLog) (hframes : Frames Manifest.progress s o) :
    Idles s.mem.manifest o :=
  idles_of_frames hframes fun _ hid => h _ hid trivial

/-- With a gap and no batch, no operation moves the seal or the watermark. -/
theorem idles_op (hm : MemOk s) (hgap : s.disk.Gap) (hq : s.mem.queue = []) (op : Op) :
    Idles s.mem.manifest (op.outcome X cfg s) := by
  have hdrain : ∀ (m : Mem) (cond : Bool) (id : ℕ), .walDelete id ∉ (m.drainIf cond).sent.effects := by
    intro m cond id hid
    rw [Mem.drainIf] at hid
    split at hid <;> simp [Mem.drainAndRotate, Drained.sent] at hid
  cases op with
  | ingest clk events =>
    refine idles_of_frames (.onLog (onLog_ingest s clk events)) fun id hid => ?_
    rcases mem_append.1 hid with hid | hid
    · rw [appendEffects] at hid
      split at hid <;> simp at hid
    · exact hdrain _ _ id hid
  | drain => exact idles_of_frames (.onLog (onLog_drainIf s _)) (hdrain _ _)
  | flush uuid clk =>
    rw [Op.outcome, flushNext, hq]
    exact idles_of_frames (.skip s) fun _ => not_mem_nil
  | rollupTick now uuid =>
    obtain ⟨id, hid, hlt⟩ := hgap
    rw [hm.loadManifest] at hlt
    have hshut : s.mem.manifest.tickSnapshot.inFlight s.mem.activeId :=
      decide_eq_true (hlt.trans_le (hm.last id hid))
    rw [Op.outcome, tick, if_pos hshut]
    exact idles_of_frames (.skip s) fun _ => not_mem_nil
  | compactionTick now uuid =>
    exact (offLog_compactionTick s now uuid).idles
      (frames_compactionTick (fun _ _ => rfl) (fun _ _ _ _ => rfl) s now uuid)
  | closePeriod account year month now =>
    exact (offLog_closePeriod s account year month now).idles
      (frames_closePeriod (fun _ _ => rfl) s account year month now)
  | reopenPeriod account year month =>
    exact (offLog_reopenPeriod s account year month).idles
      (frames_reopenPeriod (fun _ _ _ _ => rfl) (fun _ _ _ _ => rfl) s account year month)

theorem idles_restart (now : ℤ) (clk : ℕ → ℤ) (d : Disk) :
    Idles d.loadManifest (restart X cfg now clk d) := by
  have hframes := frames_restart X cfg (f := Manifest.progress) (fun _ _ => rfl) now clk d
  refine ⟨hframes.1, hframes.2, fun id hid => ?_⟩
  have hid' : .walDelete id ∈ recoveryEffects d := by
    rw [restart, initBuckets] at hid
    split at hid <;> simpa using hid
  rw [recoveryEffects] at hid'
  split at hid'
  · obtain ⟨i, hi, heq⟩ := mem_map.1 hid'
    obtain rfl := Effect.walDelete.inj heq
    exact of_decide_eq_true (mem_filter.1 hi).2
  · cases hid'

theorem Step.gap {sys sys' : Sys} {l : Label} {c : Multiset UsageEvent}
    (hok : SysOk X cfg DistinctIds c sys)
    (hgap : sys.disk.Gap) (hq : sys.Undrained) (hstep : Step X cfg sys l sys') :
    sys'.disk.Gap ∧ sys'.manifest.progress = sys.manifest.progress := by
  cases hstep with
  | @run s op =>
    have hidles : Idles s.mem.manifest (op.outcome X cfg s) := idles_op hok.2 hgap hq op
    exact ⟨((hok.2.loadManifest.symm ▸ hidles).gap hgap).all.1, hidles.mem⟩
  | @cut s op k =>
    have hidles : Idles s.disk.loadManifest (op.outcome X cfg s) :=
      hok.2.loadManifest.symm ▸ idles_op hok.2 hgap hq op
    obtain ⟨hgap', hsame⟩ := hidles.gap hgap k
    exact ⟨hgap', hsame.trans (congrArg _ hok.2.loadManifest)⟩
  | restart now clk => exact ⟨((idles_restart now clk _).gap hgap).all.1, (idles_restart now clk _).mem⟩
  | cutRestart now clk k => exact (idles_restart now clk _).gap hgap k

/-- **The rollups stand still.** Once there is a log file beyond the one after the seal, the
watermark and the rollup segments stay what they are and the file stays, whatever the clock says,
along every run in which no request fills the memtable and so leaves a batch for a later step:
ticks, flushes, requests, crashes and restarts included. -/
theorem rollups_stand_still {ls : List Label} {sys : Sys}
    (hrun : Run (Step X cfg) (.down .empty) ls sys)
    (hgap : sys.disk.Gap) {ls' : List Label} {sys' : Sys}
    (hrun' : Run (fun a l b => Step X cfg a l b ∧ a.Undrained) sys ls' sys') :
    sys'.disk.Gap ∧ sys'.manifest.rollupSegments = sys.manifest.rollupSegments ∧
      sys'.manifest.hourlyRollupMs = sys.manifest.hourlyRollupMs := by
  obtain ⟨-, hgap', hsame⟩ :=
      hrun'.invariant (I := fun t => (∃ c, SysOk X cfg DistinctIds c t) ∧ t.disk.Gap ∧
      t.manifest.progress = sys.manifest.progress) (fun a l b ⟨⟨c, ha⟩, hgap, hsame⟩ ⟨hstep, hq⟩ => by
    obtain ⟨hgap', hsame'⟩ := hstep.gap ha hgap hq
    exact ⟨⟨_, ha.step DistinctIds.left (fun _ => rfl) hstep⟩, hgap', hsame'.trans hsame⟩)
    ⟨sysOk_of_run hrun, hgap, rfl⟩
  exact ⟨hgap', congrArg (·.2.1) hsame, congrArg (·.2.2) hsame⟩

/-- A request is accepted. -/
def oneRequest : List (Char × Label) :=
  [('0', .restart 8000000 fun _ => 8000000),
    ('1', .run (.ingest sampleClock [sampleEvent "a" "acme" 7200000 5]))]

/-- The server crashes when it has drained the memtable, and starts again. -/
def lostBatch : List (Char × Label) := oneRequest ++ [('2', .cut .drain 1),
    ('3', .restart 9500000 fun _ => 9500000)]

/-- A tick ten days later leaves the watermark of an empty database. -/
theorem rollups_stand_still_of_lostBatch :
    ∃ s s', Run (Step .sample sampleConfig) (.down .empty) (lostBatch.map (·.2)) (.up s) ∧ s.disk.Gap ∧
      Run (fun a l b => Step .sample sampleConfig a l b ∧ a.Undrained) (.up s)
        [.run (.rollupTick 873500000 (taggedHourUuid 'r'))] (.up s') ∧
      s.mem.memtable.events ≠ [] ∧ s'.mem.manifest.hourlyRollupMs = 0 := by
  have hls : Lettered lostBatch :=
    ⟨by simp [lostBatch, oneRequest, Label.DrawsTagged, Op.DrawsTagged], by decide⟩
  obtain ⟨s, hrun, hid, hlt, hq, hne, hzero⟩ := exists_up_of_tags .sample sampleConfig hls
    (P := fun s => 2 ∈ s.disk.wal.ids ∧ s.disk.loadManifest.lastSealedWalId + 1 < 2 ∧
      s.mem.queue = [] ∧ s.mem.memtable.events ≠ [] ∧ s.mem.manifest.hourlyRollupMs = 0)
    (by decide +kernel)
  have hgap : s.disk.Gap := ⟨2, hid, hlt⟩
  have htick : Run (fun a l b => Step .sample sampleConfig a l b ∧ a.Undrained) (.up s)
      [.run (.rollupTick 873500000 (taggedHourUuid 'r'))] _ :=
    .single ⟨.run (fresh_of_tags hls (by decide) hrun rfl), hq⟩
  exact ⟨s, _, hrun, hgap, htick, hne, (rollups_stand_still hrun hgap htick).2.2.trans hzero⟩

/-! ### Catching up -/

/-- What a flush of the only message does: the seal moves to it. -/
theorem flush_last {msg : FlushMessage} (hq : s.mem.queue = [msg]) (hne : msg.events ≠ [])
    (uuid : ℕ → String) (clk : ℕ → ℤ) :
    (flushNext X uuid clk s).mem.queue = [] ∧ (flushNext X uuid clk s).mem.memtable = s.mem.memtable ∧
      (flushNext X uuid clk s).mem.activeId = s.mem.activeId ∧
      msg.sealedWalId ≤ (flushNext X uuid clk s).mem.manifest.lastSealedWalId := by
  rw [flushNext_of_events X hq hne]
  exact ⟨rfl, rfl, rfl, lastSealedWalId_commitFlush _ _ _⟩

/-- A tick with nothing in the memtable passes every flushed event before the lag. -/
theorem passed_of_tick (hd : DiskOk X cfg s.disk) (hm : MemOk s)
    (hflight : s.mem.activeId ≤ s.mem.manifest.lastSealedWalId + 1)
    (hmem : s.mem.memtable = .new) (now : ℤ) (uuid : ℤ → ℕ → String) {e : UsageEvent}
    (he : e ∈ s.disk.rawEvents s.mem.manifest)
    (hlt : e.timestampMs < floorHour (now - cfg.rollupSafetyLagMs)) :
    e.timestampMs < (tick X cfg now uuid true s).1.mem.manifest.hourlyRollupMs := by
  have hopen : s.mem.manifest.tickSnapshot.inFlight s.mem.activeId = false :=
    decide_eq_false (not_lt.2 hflight)
  have hok := fun m hm' => (hd.listed hm m hm').times
  have hidle : needsForceDrain cfg now s.mem.memtable = false := hmem ▸ rfl
  have htarget : targetHour cfg now s.mem.memtable.minEventTimestampMs =
    floorHour (now - cfg.rollupSafetyLagMs) := hmem ▸ rfl
  rw [tick, if_neg (by simp [hopen]), if_neg (by simp [hidle])]
  dsimp only
  rw [htarget]
  split
  · rename_i hstart
    by_contra hnot
    -- above a watermark that was set the tick starts there, and in a new database where the events
    -- begin
    have hle : s.mem.manifest.tickSnapshot.start ≤ e.timestampMs := by
      by_cases hzero : s.mem.manifest.hourlyRollupMs = 0
      · have haligned : HOUR_MS ∣ s.mem.manifest.tickSnapshot.watermark :=
          (dvd_zero HOUR_MS).trans (dvd_of_eq hzero.symm)
        exact (start_bounds haligned hok).2.2 e he (not_lt.1 hnot)
      · rw [TickSnapshot.start, if_neg fun h => hzero h.1]
        exact not_lt.1 hnot
    exact absurd (hlt.trans_le (hstart.trans hle)) (lt_irrefl _)
  · exact hlt

/-- **The rollups catch up.** When no batch is queued, there is no log file beyond the one after the
seal and the memtable is too old, then a tick, a flush and a tick at the same time take the
watermark past every event that has been accepted and is before the safety lag. -/
theorem rollups_catch_up {ls : List Label} (hrun : Run (Step X cfg) (.down .empty) ls (.up s))
    (hq : s.mem.queue = [])
    (hgap : ¬ s.disk.Gap) {now : ℤ} (hstale : needsForceDrain cfg now s.mem.memtable)
    (hne : s.mem.memtable.events ≠ []) (uuid uuid' : ℤ → ℕ → String) {flushUuid : ℕ → String}
    {clk : ℕ → ℤ} :
    let s₁ := ((Op.rollupTick now uuid).outcome X cfg s).state s
    (Op.flush flushUuid clk).Fresh s₁ →
      let s₂ := ((Op.flush flushUuid clk).outcome X cfg s₁).state s₁
      let s₃ := ((Op.rollupTick now uuid').outcome X cfg s₂).state s₂
      ∀ e ∈ s.disk.content, e.timestampMs < floorHour (now - cfg.rollupSafetyLagMs) →
        e.timestampMs < s₃.mem.manifest.hourlyRollupMs := by
  intro s₁ hfresh s₂ s₃ e he hlt
  obtain ⟨c, hd, hm⟩ := sysOk_of_run hrun
  have hactive : s.mem.activeId ≤ s.mem.manifest.lastSealedWalId + 1 := by
    by_contra hlt
    exact hgap ⟨_, hm.active, hm.loadManifest.symm ▸ not_le.1 hlt⟩
  -- the first tick drains the memtable
  have hopen : s.mem.manifest.tickSnapshot.inFlight s.mem.activeId = false :=
    decide_eq_false (not_lt.2 hactive)
  have htick : (tick X cfg now uuid true s).1 = s.mem.drainAndRotate.sent := by
    rw [tick, if_neg (by simp [hopen]), if_pos hstale, forceDrainMemtable, forceDrain, Mem.drainIf,
      if_pos (by simp [hne])]
  have hs₁ : s₁.mem = s.mem.drainAndRotate.sent.mem := congrArg Outcome.mem htick
  have hqueue : s₁.mem.queue = [⟨s.mem.memtable.events, s.mem.activeId⟩] := by
    rw [hs₁]
    exact congrArg (· ++ _) hq
  -- the flush commits the batch, so the log above the seal is empty
  have hkeeps₁ : Keeps X cfg (fun _ => True) s.disk.content s (tick X cfg now uuid true s).1 :=
    keeps_tick ⟨hd.1, fun _ => rfl⟩ hm now uuid
  have hkeeps₂ := keeps_flush hkeeps₁.disk hkeeps₁.mem clk hfresh
  obtain ⟨hq₂, hmem₂, hactive₂, hseal₂⟩ := flush_last (X := X) hqueue hne flushUuid clk
  have hnew : s₂.mem.memtable = .new := hmem₂.trans (congrArg Mem.memtable hs₁)
  have hraw : e ∈ s₂.disk.rawEvents s₂.mem.manifest := by
    have hload : s₂.disk.loadManifest = s₂.mem.manifest := hkeeps₂.mem.loadManifest
    have hcontent : s₂.disk.content = s.disk.content := hkeeps₂.disk.2 trivial
    have hlog : (s₂.mem.queue.flatMap FlushMessage.events ++ s₂.mem.memtable.events).Perm
        (s₂.disk.walEvents s₂.mem.manifest.lastSealedWalId) :=
          hkeeps₂.mem.unsealed hkeeps₂.disk.1.sorted
    have hnil : s₂.disk.walEvents s₂.mem.manifest.lastSealedWalId = [] := by
      rw [show s₂.mem.queue = [] from hq₂, hnew] at hlog
      exact hlog.nil_eq.symm
    rw [← hcontent, Disk.content, hload, hnil, append_nil, Multiset.mem_coe] at he
    exact he
  refine passed_of_tick hkeeps₂.disk.1 hkeeps₂.mem ?_ hnew now uuid' hraw hlt
  have hactive₁ : s₁.mem.activeId = s.mem.activeId + 1 := congrArg Mem.activeId hs₁
  exact (hactive₂.trans hactive₁).le.trans (Nat.succ_le_succ hseal₂)

/-- The event of `oneRequest`, ten days later. -/
theorem rollups_catch_up_of_oneRequest :
    ∃ s s₂, Run (Step .sample sampleConfig) (.down .empty) (oneRequest.map (·.2)) (.up s) ∧
      Run (Step .sample sampleConfig) (.up s) [.run (.rollupTick 873500000 (taggedHourUuid 'r')),
        .run (.flush (taggedUuid 'f') fun _ => 9000000)] (.up s₂) ∧
      s.disk.content ≠ 0 ∧ ∀ e ∈ s.disk.content, e.timestampMs <
        floorHour (873500000 - sampleConfig.rollupSafetyLagMs) →
          e.timestampMs < (tick .sample sampleConfig 873500000 (taggedHourUuid 't') true
            s₂).1.mem.manifest.hourlyRollupMs := by
  have hls : Lettered oneRequest := ⟨by simp [oneRequest, Label.DrawsTagged, Op.DrawsTagged], by decide⟩
  obtain ⟨s, hrun, hids, hseal, hq, hcontent, hstale, hne⟩ :=
      exists_up_of_tags .sample sampleConfig hls (P := fun s =>
    s.disk.wal.ids = [1] ∧ s.disk.loadManifest.lastSealedWalId = 0 ∧ s.mem.queue = [] ∧
      s.disk.content ≠ 0 ∧
      needsForceDrain sampleConfig 873500000 s.mem.memtable ∧
        s.mem.memtable.events ≠ []) (by decide +kernel)
  have hgap : ¬ s.disk.Gap := by
    rintro ⟨id, hid, hlt⟩
    rw [hids, mem_singleton] at hid
    omega
  have htick : (Op.rollupTick 873500000 (taggedHourUuid 'r')).Fresh s :=
    fresh_of_tags hls (by decide) hrun rfl
  have hls' : Lettered (oneRequest ++ [('r', .run (.rollupTick 873500000 (taggedHourUuid 'r')))]) :=
    ⟨by simp [oneRequest, Label.DrawsTagged, Op.DrawsTagged], by decide⟩
  have hflush : (Op.flush (taggedUuid 'f') fun _ => 9000000).Fresh _ :=
    fresh_of_tags hls' (by decide) (hrun.snoc (.run htick)) rfl
  exact ⟨s, _, hrun, .snoc (.single (.run htick)) (.run hflush), hcontent,
    rollups_catch_up hrun hq hgap hstale hne (taggedHourUuid 'r') (taggedHourUuid 't') hflush⟩

end UsageDb
