import UsageDb.Runtime.System
import Mathlib.Data.Multiset.Basic

/-!
# What every reachable state keeps

`DiskOk` says when the disk is in order: the log sorted, and every raw segment of the
manifest there with the metadata and the sidecar of its rows. `MemOk` adds what the
memory has to do with it: the messages on the way to the flusher and the memtable are the
log above the seal, stretch by stretch (`Covers`).

What the disk holds is `Disk.content`: the rows of the manifest's raw segments and the
log above the seal. `Holds` says that this is `c`. Every operation is shown to keep the
disk in order **after each of its durable steps**, with the same content, or with the
accepted events added; compaction drops events that repeat an id, so the content is kept
as long as the ids are different.
-/

namespace UsageDb

open Lib List

/-! ### The disk -/

/-- What the disk holds: the raw segments and the log above the seal. -/
def Disk.content (d : Disk) : Multiset UsageEvent :=
  ↑(d.rawEvents d.loadManifest ++ d.walEvents d.loadManifest.lastSealedWalId)

/-- The event is in a raw segment of the manifest, or in a log file above the seal. -/
def Disk.Durable (d : Disk) (e : UsageEvent) : Prop :=
  (∃ m ∈ d.loadManifest.rawSegments, ∃ rows, d.seg m.segmentId = some rows ∧ e ∈ rows) ∨
    ∃ f ∈ d.wal, d.loadManifest.lastSealedWalId < f.1 ∧ e ∈ f.2

theorem Disk.durable_iff {d : Disk} {e : UsageEvent} : d.Durable e ↔ e ∈ d.content := by
  rw [Durable, content, Multiset.mem_coe, mem_append]
  refine or_congr ?_ ?_
  · rw [rawEvents, mem_flatMap]
    refine exists_congr fun m => and_congr_right fun _ => ?_
    rw [rows]
    cases d.seg m.segmentId <;> simp
  · simp only [walEvents, WalDir.after, mem_flatMap, mem_filter, decide_eq_true_eq, and_assoc]

/-- The disk is in order. -/
structure DiskOk (X : Extern) (cfg : Config) (d : Disk) : Prop where
  /-- The log files are sorted. -/
  sorted : d.wal.Sorted
  /-- The logged events have passed validation. -/
  positive : ∀ f ∈ d.wal, ∀ e ∈ f.2, 0 < (e.timestampMs : ℤ)
  /-- The listed segments agree with their files. -/
  segments : ∀ m ∈ d.loadManifest.rawSegments, SegmentOk X d d.loadManifest.buckets m
  /-- They are different. -/
  ids : d.loadManifest.rawIds.Nodup
  /-- A segment that has been replaced is not listed. -/
  replaced : ∀ r ∈ d.loadManifest.compactedReplacements, ∀ id ∈ r.oldSegments,
    id ∉ d.loadManifest.rawIds
  /-- The number of buckets was set when the database was new. -/
  bucketCount : d.manifest = none ∨ d.loadManifest.bucketCount = cfg.defaultBucketCount

/-- The ids of a collection of events are different. -/
def DistinctIds (c : Multiset UsageEvent) : Prop := (c.map (·.eventId)).Nodup

/-- The disk is in order, and holds `c` if `c` is as `D` says. Compaction needs `D` to be
`DistinctIds`; what all other operations do is exact. -/
def Holds (X : Extern) (cfg : Config) (D : Multiset UsageEvent → Prop) (c : Multiset UsageEvent)
    (d : Disk) : Prop :=
  DiskOk X cfg d ∧ (D c → d.content = c)

section Frame

variable {X : Extern} {cfg : Config} {D : Multiset UsageEvent → Prop}
    {c : Multiset UsageEvent} {d d' : Disk}
  {m : Manifest} {xs : List Effect}

theorem SegmentOk.congr {buckets : ℕ} {m : SegmentMeta} (h : SegmentOk X d buckets m)
    (hseg : d'.seg m.segmentId = d.seg m.segmentId) (hidx : d'.idx m.segmentId = d.idx m.segmentId) :
    SegmentOk X d' buckets m := by
  have hrows : d'.rows m = d.rows m := by rw [Disk.rows, Disk.rows, hseg]
  constructor
  · rw [hseg, hrows, h.file]
  · rw [hrows]; exact h.metadata
  · rw [hrows]; exact h.bucket
  · rw [hrows]; exact h.positive
  · rw [hidx, hrows]; exact h.sidecar

/-- `d'` has the log and the manifest of `d`, and the same listed files. -/
structure Agree (d d' : Disk) : Prop where
  /-- The same log. -/
  wal : d'.wal = d.wal
  /-- The same manifest. -/
  manifest : d'.manifest = d.manifest
  /-- The same rows. -/
  seg : ∀ id ∈ d.loadManifest.rawIds, d'.seg id = d.seg id
  /-- The same sidecars. -/
  idx : ∀ id ∈ d.loadManifest.rawIds, d'.idx id = d.idx id

theorem Agree.refl (d : Disk) : Agree d d := ⟨rfl, rfl, fun _ _ => rfl, fun _ _ => rfl⟩

theorem Agree.loadManifest (h : Agree d d') : d'.loadManifest = d.loadManifest := by
  rw [Disk.loadManifest, Disk.loadManifest, h.manifest]

theorem Agree.trans {d'' : Disk} (h : Agree d d') (h' : Agree d' d'') : Agree d d'' where
  wal := h'.wal.trans h.wal
  manifest := h'.manifest.trans h.manifest
  seg id hid := (h'.seg id (h.loadManifest ▸ hid)).trans (h.seg id hid)
  idx id hid := (h'.idx id (h.loadManifest ▸ hid)).trans (h.idx id hid)

theorem rawEvents_congr (h : ∀ s ∈ m.rawSegments, d'.seg s.segmentId = d.seg s.segmentId) :
    d'.rawEvents m = d.rawEvents m :=
  flatMap_congr fun s hs => by rw [Disk.rows, Disk.rows, h s hs]

theorem Agree.content (h : Agree d d') : d'.content = d.content := by
  have hraw : d'.rawEvents d.loadManifest = d.rawEvents d.loadManifest :=
    rawEvents_congr fun s hs => h.seg _ (mem_map_of_mem hs)
  rw [Disk.content, h.loadManifest, hraw, Disk.walEvents, h.wal, Disk.content, Disk.walEvents]

/-- Files that the manifest does not list do not matter. -/
theorem Holds.agree (h : Holds X cfg D c d) (hag : Agree d d') : Holds X cfg D c d' := by
  have hm := hag.loadManifest
  refine ⟨⟨?_, ?_, ?_, ?_, ?_, ?_⟩, fun hc => hag.content.trans (h.2 hc)⟩
  · rw [hag.wal]; exact h.1.sorted
  · rw [hag.wal]; exact h.1.positive
  · rw [hm]
    intro s hs
    have hid : s.segmentId ∈ d.loadManifest.rawIds := mem_map_of_mem hs
    exact (h.1.segments s hs).congr (hag.seg _ hid) (hag.idx _ hid)
  · rw [hm]; exact h.1.ids
  · rw [hm]; exact h.1.replaced
  · rw [hm, hag.manifest]; exact h.1.bucketCount

/-- A step that touches only segment files outside of `ids`. -/
def Effect.Unlisted (ids : List String) : Effect → Prop
  | .segWrite id _ => id ∉ ids
  | .segRemove id => id ∉ ids
  | .idxWrite id _ => id ∉ ids
  | .rsegWrite _ _ => True
  | .rsegRemove _ => True
  | _ => False

theorem agree_apply {x : Effect} (hx : x.Unlisted d.loadManifest.rawIds) : Agree d (d.apply x) := by
  cases x with
  | segWrite id rows =>
    exact ⟨rfl, rfl,
      fun i hi => Function.update_of_ne (fun e : i = id => hx (e ▸ hi)) _ _, fun _ _ => rfl⟩
  | segRemove id =>
    exact ⟨rfl, rfl,
      fun i hi => Function.update_of_ne (fun e : i = id => hx (e ▸ hi)) _ _, fun _ _ => rfl⟩
  | idxWrite id rows =>
    exact ⟨rfl, rfl,
      fun _ _ => rfl, fun i hi => Function.update_of_ne (fun e : i = id => hx (e ▸ hi)) _ _⟩
  | rsegWrite id rows => exact ⟨rfl, rfl, fun _ _ => rfl, fun _ _ => rfl⟩
  | rsegRemove id => exact ⟨rfl, rfl, fun _ _ => rfl, fun _ _ => rfl⟩
  | walAppend => exact hx.elim
  | walCreate => exact hx.elim
  | walDelete => exact hx.elim
  | manifestSave => exact hx.elim

/-- Steps on unlisted files, each of them and all of them. -/
theorem agree_unlisted (hxs : ∀ x ∈ xs, x.Unlisted d.loadManifest.rawIds) :
    EveryPrefix Disk.apply (Agree d) d xs := by
  refine EveryPrefix.of_forall (Agree.refl d) fun t x hx ht => ht.trans (agree_apply ?_)
  rw [ht.loadManifest]
  exact hxs x hx

theorem agree_applyAll (hxs : ∀ x ∈ xs, x.Unlisted d.loadManifest.rawIds) :
    Agree d (d.applyAll xs) := (agree_unlisted hxs).all

theorem Holds.unlisted (h : Holds X cfg D c d)
    (hxs : ∀ x ∈ xs, x.Unlisted d.loadManifest.rawIds) :
      EveryPrefix Disk.apply (Holds X cfg D c) d xs :=
  (agree_unlisted hxs).mono fun _ hag => h.agree hag

/-- Saving a manifest whose segments are in order. -/
theorem Holds.save (h : Holds X cfg D c d)
    (hsegs : ∀ s ∈ m.rawSegments, SegmentOk X d m.buckets s) (hids : m.rawIds.Nodup)
    (hrep : ∀ r ∈ m.compactedReplacements, ∀ id ∈ r.oldSegments, id ∉ m.rawIds)
    (hb : m.bucketCount = cfg.defaultBucketCount)
    (hcontent : D c → (↑(d.rawEvents m ++ d.walEvents m.lastSealedWalId) : Multiset UsageEvent) = c) :
    Holds X cfg D c (d.apply (.manifestSave m)) := by
  refine ⟨⟨h.1.sorted, h.1.positive, fun s hs => ?_, hids, hrep, .inr hb⟩, hcontent⟩
  exact (hsegs s hs).congr rfl rfl

/-- Saving a manifest with the same raw segments, buckets and seal. -/
theorem Holds.save_same (h : Holds X cfg D c d) {m' : Manifest} (hm : d.manifest = some m)
    (hraw : m'.rawSegments = m.rawSegments) (hseal : m'.lastSealedWalId = m.lastSealedWalId)
    (hb : m'.bucketCount = m.bucketCount)
    (hrep : ∀ r ∈ m'.compactedReplacements, r ∈ m.compactedReplacements) :
    Holds X cfg D c (d.apply (.manifestSave m')) := by
  have hload : d.loadManifest = m := by rw [Disk.loadManifest, hm]; rfl
  have hbuckets : m'.buckets = m.buckets := by rw [Manifest.buckets, hb, Manifest.buckets]
  have hids : m'.rawIds = m.rawIds := by rw [Manifest.rawIds, hraw, Manifest.rawIds]
  have hok := h.1
  refine h.save ?_ ?_ ?_ ?_ ?_
  · rw [hraw, hbuckets, ← hload]; exact hok.segments
  · rw [hids, ← hload]; exact hok.ids
  · intro r hr
    rw [hids, ← hload]
    exact hok.replaced r (hload ▸ hrep r hr)
  · rw [hb, ← hload]
    exact hok.bucketCount.resolve_left (by simp [hm])
  · intro hc
    rw [hseal, Disk.rawEvents, hraw, ← h.2 hc, Disk.content, hload]
    rfl

/-- Deleting a log file that is sealed. -/
theorem Holds.walDelete (h : Holds X cfg D c d) {id : ℕ} (hid : id ≤ d.loadManifest.lastSealedWalId) :
    Holds X cfg D c (d.apply (.walDelete id)) := by
  have hsorted : (d.apply (.walDelete id)).wal.Sorted := by
    simp only [Disk.apply, WalDir.Sorted]
    rw [WalDir.ids_filter fun i => decide (i ≠ id)]
    exact h.1.sorted.filter _
  refine ⟨⟨hsorted, fun f hf => h.1.positive f (mem_of_mem_filter hf), fun s hs => ?_, h.1.ids,
    h.1.replaced, h.1.bucketCount⟩, fun hc => ?_⟩
  · exact (h.1.segments s hs).congr rfl rfl
  · rw [← h.2 hc, Disk.content, Disk.content, Disk.walEvents, Disk.walEvents]
    have hafter : (d.apply (.walDelete id)).wal.after d.loadManifest.lastSealedWalId =
        d.wal.after d.loadManifest.lastSealedWalId :=
      WalDir.after_filter (p := fun i => decide (i ≠ id)) fun i hi => by simp; omega
    exact congrArg
      (fun l => (↑(d.rawEvents d.loadManifest ++ l.flatMap (·.2)) : Multiset UsageEvent)) hafter

/-- Deleting sealed log files, one after another. -/
theorem Holds.deleteThrough (h : Holds X cfg D c d) (dir : WalDir (List UsageEvent)) {upTo : ℕ}
    (hup : upTo ≤ d.loadManifest.lastSealedWalId) :
    EveryPrefix Disk.apply (Holds X cfg D c) d (deleteThroughEffects dir upTo) := by
  have hkeep : EveryPrefix Disk.apply (fun t => Holds X cfg D c t ∧ t.manifest = d.manifest) d
      (deleteThroughEffects dir upTo) := by
    refine EveryPrefix.of_forall ⟨h, rfl⟩ fun t x hx ht => ?_
    obtain ⟨id, hid, rfl⟩ := mem_map.1 hx
    have hle : id ≤ upTo := by simpa using (mem_filter.1 hid).2
    refine ⟨ht.1.walDelete ?_, ht.2⟩
    rw [Disk.loadManifest, ht.2]
    exact hle.trans hup
  exact hkeep.mono fun _ ht => ht.1

end Frame

/-! ### The log and the memory -/

/-- The messages on the way and the memtable are the log from `lo` on, stretch by stretch and
up to order: each message reaches to the file sealed with it, the memtable to the active file. -/
def Covers (log : WalDir (List UsageEvent)) (active : ℕ) : ℕ → List FlushMessage →
    List UsageEvent → Prop
  | lo, [], mem => lo < active ∧ mem.Perm (log.slice lo active)
  | lo, msg :: q, mem =>
    lo < msg.sealedWalId ∧ msg.events.Perm (log.slice lo msg.sealedWalId) ∧
      Covers log active msg.sealedWalId q mem

namespace Covers

variable {log : WalDir (List UsageEvent)} {active lo : ℕ} {q : List FlushMessage}
    {mem : List UsageEvent}

theorem lt_active (h : Covers log active lo q mem) : lo < active := by
  induction q generalizing lo with
  | nil => exact h.1
  | cons msg q ih => exact h.1.trans (ih h.2.2)

/-- A message on the way is sealed below the active file. -/
theorem sealed_lt (h : Covers log active lo q mem) {msg : FlushMessage} (hmsg : msg ∈ q) :
    lo < msg.sealedWalId ∧ msg.sealedWalId < active := by
  induction q generalizing lo with
  | nil => cases hmsg
  | cons m q ih =>
    rcases mem_cons.1 hmsg with rfl | hmem
    · exact ⟨h.1, h.2.2.lt_active⟩
    · have := ih h.2.2 hmem
      exact ⟨h.1.trans this.1, this.2⟩

/-- The seals of the messages ascend. -/
theorem sealed_pairwise (h : Covers log active lo q mem) :
    q.Pairwise fun msg msg' => msg.sealedWalId < msg'.sealedWalId := by
  induction q generalizing lo with
  | nil => exact .nil
  | cons msg q ih => exact .cons (fun msg' hmsg' => (h.2.2.sealed_lt hmsg').1) (ih h.2.2)

/-- Put together, they are the whole log from `lo` on. -/
theorem flatten (h : Covers log active lo q mem) (hs : log.Sorted) :
    ((q.flatMap (·.events)) ++ mem).Perm (log.slice lo active) := by
  induction q generalizing lo with
  | nil => simpa using h.2
  | cons msg q ih =>
    rw [flatMap_cons, append_assoc, WalDir.slice_append hs h.1.le h.2.2.lt_active.le]
    exact h.2.1.append (ih h.2.2)

/-- A message without events can be dropped. -/
theorem drop_empty {msg : FlushMessage} (hs : log.Sorted) (hmsg : msg.events = [])
    (h : Covers log active lo (msg :: q) mem) : Covers log active lo q mem := by
  obtain ⟨hlt, hev, hrest⟩ := h
  have hnil : log.slice lo msg.sealedWalId = [] := by
    rw [hmsg] at hev
    exact nil_perm.1 hev
  cases q with
  | nil =>
    refine ⟨hlt.trans hrest.1, ?_⟩
    rw [WalDir.slice_append hs hlt.le hrest.1.le, hnil, nil_append]
    exact hrest.2
  | cons msg' q =>
    refine ⟨hlt.trans hrest.1, ?_, hrest.2.2⟩
    rw [WalDir.slice_append hs hlt.le hrest.1.le, hnil, nil_append]
    exact hrest.2.1

/-- An append to the active file goes to the memtable. -/
theorem append (h : Covers log active lo q mem) (hs : log.Sorted) (hact : active ∈ log.ids)
    (hlast : ∀ id ∈ log.ids, id ≤ active) (new : List UsageEvent) :
    Covers (log.modify active (· ++ new)) active lo q (mem ++ new) := by
  induction q generalizing lo with
  | nil => exact ⟨h.1, by rw [WalDir.slice_modify_last hs hact hlast h.1]; exact h.2.append_right new⟩
  | cons msg q ih =>
    refine ⟨h.1, ?_, ih h.2.2⟩
    rw [WalDir.slice_modify_of_lt h.2.2.lt_active]
    exact h.2.1

/-- A drain turns the memtable into one more message, sealed with the active file or after it. -/
theorem drain (h : Covers log active lo q mem) (hlast : ∀ id ∈ log.ids, id ≤ active) {sealedId : ℕ}
    (hge : active ≤ sealedId) :
    Covers (log ++ [(sealedId + 1, [])]) (sealedId + 1) lo (q ++ [⟨mem, sealedId⟩]) [] := by
  have hlast' : ∀ id ∈ log.ids, id ≤ sealedId := fun id hid => (hlast id hid).trans hge
  have hlast'' : ∀ id ∈ log.ids, id ≤ sealedId + 1 :=
    fun id hid => (hlast' id hid).trans (Nat.le_succ _)
  induction q generalizing lo with
  | nil =>
    refine ⟨h.1.trans_le hge, ?_, Nat.lt_succ_self _, ?_⟩
    · rw [WalDir.slice_append_empty, ← WalDir.flatMap_after hlast', WalDir.flatMap_after hlast]
      exact h.2
    · have hnone : log.after sealedId = [] := by
        rw [WalDir.after, filter_eq_nil_iff]
        intro f hf hlt
        have := hlast' f.1 (mem_map_of_mem hf)
        simp only [decide_eq_true_eq] at hlt
        omega
      rw [WalDir.slice_append_empty, ← WalDir.flatMap_after hlast'', hnone]
      exact List.Perm.refl _
  | cons msg q ih =>
    exact ⟨h.1, by rw [WalDir.slice_append_empty]; exact h.2.1, ih h.2.2⟩

/-- Deleting a file up to `lo` changes nothing. -/
theorem delete (h : Covers log active lo q mem) {id : ℕ} (hid : id ≤ lo) :
    Covers (log.filter fun f => f.1 ≠ id) active lo q mem := by
  have hslice : ∀ lo', lo ≤ lo' →
      ∀ hi, WalDir.slice (log.filter fun f => f.1 ≠ id) lo' hi = log.slice lo' hi := by
    intro lo' hlo' hi
    exact WalDir.slice_filter (p := fun i => decide (i ≠ id)) fun i hi => by simp; omega
  induction q generalizing lo with
  | nil => exact ⟨h.1, by rw [hslice lo le_rfl]; exact h.2⟩
  | cons msg q ih =>
    refine ⟨h.1, by rw [hslice lo le_rfl]; exact h.2.1, ih h.2.2 (hid.trans h.1.le) ?_⟩
    exact fun lo' hlo' => hslice lo' (h.1.le.trans hlo')

end Covers

/-- The memory agrees with the disk. -/
structure MemOk (s : State) : Prop where
  /-- The manifest in memory is the saved one. -/
  loaded : s.disk.manifest = some s.mem.manifest
  /-- The active file exists, … -/
  active : s.mem.activeId ∈ s.disk.wal.ids
  /-- … and is the last. -/
  last : ∀ id ∈ s.disk.wal.ids, id ≤ s.mem.activeId
  /-- The messages and the memtable are the log above the seal. -/
  covers : Covers s.disk.wal s.mem.activeId s.mem.manifest.lastSealedWalId s.mem.queue
    s.mem.memtable.events

/-- What is shown of an operation that accepts nothing: the disk holds `c` after each of its
durable steps, and at its end the memory agrees with the disk. -/
structure Keeps (X : Extern) (cfg : Config) (D : Multiset UsageEvent → Prop)
    (c : Multiset UsageEvent) (s : State) (o : Outcome) : Prop where
  /-- After every durable step. -/
  prefixes : EveryPrefix Disk.apply (Holds X cfg D c) s.disk o.effects
  /-- At the end. -/
  mem : MemOk (o.state s)

/-- What is shown of an operation that leaves the log alone: the disk holds `c` after each of its
durable steps, and at its end the manifest in memory is the saved one, with the same seal, and
all else in memory is as it was. -/
structure KeepsOffLog (X : Extern) (cfg : Config) (D : Multiset UsageEvent → Prop)
    (c : Multiset UsageEvent) (s : State) (o : Outcome) : Prop where
  /-- After every durable step. -/
  prefixes : EveryPrefix Disk.apply (Holds X cfg D c) s.disk o.effects
  loaded : (o.state s).disk.manifest = some o.mem.manifest
  sealedId : o.mem.manifest.lastSealedWalId = s.mem.manifest.lastSealedWalId
  /-- The log. -/
  wal : (o.state s).disk.wal = s.disk.wal
  /-- The memory. -/
  mem : o.OnManifest s

section Operations

variable {X : Extern} {cfg : Config} {D : Multiset UsageEvent → Prop}
    {c : Multiset UsageEvent} {s : State}
  {o : Outcome}

namespace KeepsOffLog

theorem skip (hd : Holds X cfg D c s.disk) (hload : s.disk.manifest = some s.mem.manifest) :
    KeepsOffLog X cfg D c s (.skip s) := ⟨EveryPrefix.nil hd, hload, rfl, rfl, rfl⟩

theorem disk (h : KeepsOffLog X cfg D c s o) : Holds X cfg D c (o.state s).disk := h.prefixes.all

theorem andThen {next : State → Outcome} (h : KeepsOffLog X cfg D c s o)
    (hnext : KeepsOffLog X cfg D c (o.state s) (next (o.state s))) :
      KeepsOffLog X cfg D c s (o.andThen s next) := by
  have hstate := Outcome.andThen_state o s next
  refine ⟨h.prefixes.append hnext.prefixes, ?_, hnext.sealedId.trans h.sealedId, ?_,
    h.mem.andThen hnext.mem⟩
  · rw [hstate]
    exact hnext.loaded
  · rw [hstate]
    exact hnext.wal.trans h.wal

/-- Such an operation keeps what the memory has to do with the disk. -/
theorem keeps (h : KeepsOffLog X cfg D c s o) (hm : MemOk s) : Keeps X cfg D c s o := by
  have hmem : (o.state s).mem = { s.mem with manifest := o.mem.manifest } := h.mem
  refine ⟨h.prefixes, h.loaded, ?_, ?_, ?_⟩
  · rw [h.wal, hmem]
    exact hm.active
  · rw [h.wal, hmem]
    exact hm.last
  · rw [h.wal, hmem]
    rw [h.sealedId]
    exact hm.covers

end KeepsOffLog

theorem loadManifest_eq (hload : s.disk.manifest = some s.mem.manifest) :
    s.disk.loadManifest = s.mem.manifest := by
  rw [Disk.loadManifest, hload]
  rfl

theorem MemOk.loadManifest (h : MemOk s) : s.disk.loadManifest = s.mem.manifest :=
  loadManifest_eq h.loaded

/-- The raw segments that the running server lists are in order. -/
theorem DiskOk.listed {X : Extern} {cfg : Config} (hd : DiskOk X cfg s.disk) (hm : MemOk s) :
    ∀ m ∈ s.mem.manifest.rawSegments, SegmentOk X s.disk s.mem.manifest.buckets m := by
  have hsegs := hd.segments
  rwa [hm.loadManifest] at hsegs

theorem Keeps.disk (h : Keeps X cfg D c s o) : Holds X cfg D c (o.state s).disk := h.prefixes.all

theorem Keeps.skip (hd : Holds X cfg D c s.disk) (hm : MemOk s) : Keeps X cfg D c s (.skip s) :=
  ⟨EveryPrefix.nil hd, hm⟩

/-- The events on the way and in the memtable are the log above the seal. -/
theorem MemOk.unsealed (h : MemOk s) (hs : s.disk.wal.Sorted) :
    (s.mem.queue.flatMap (·.events) ++ s.mem.memtable.events).Perm
      (s.disk.walEvents s.mem.manifest.lastSealedWalId) := by
  rw [Disk.walEvents, WalDir.flatMap_after h.last]
  exact h.covers.flatten hs

end Operations

end UsageDb
