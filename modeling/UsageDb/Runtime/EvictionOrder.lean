import UsageDb.Ingest.Retention
import UsageDb.Runtime.Names

/-!
# The order in which entries leave the cache

Both evictions of `HotDedupe` take entries from the front of the queue: `evict_expired` stops at the
first that is not too old, "`order` is monotonically increasing", and `commit` takes the front for
the oldest. So the oldest entries leave first as long as the queue is in the order of time
(`InOrder`), and `evict_expired` leaves nothing behind at any time exactly then (`expiresAll_iff`).

Commits keep the queue in order while the clock does not go back. But recovery registers the events
of the log before those of the segments, and those of a segment in billing order, so that the queue
it leaves is seldom in order: its order is that of the first entries of the ids among all it goes
through (`firstEntries`).
-/

namespace UsageDb

open Lib List

variable {X : Extern} {cfg : Config} {d : HotDedupe}

namespace HotDedupe

/-! ### What is expected -/

/-- The queue is in the order of time. -/
def InOrder (d : HotDedupe) : Prop := d.order.Pairwise fun x y => x.2 ≤ y.2

/-- Whenever `evict_expired` is called, no entry older than its cutoff is left. -/
def ExpiresAll (d : HotDedupe) : Prop :=
  ∀ now h x, (d.evictExpired now).cache.lookup h = some x → now - d.ttlMs ≤ x.firstSeenMs

/-- What a commit evicts for capacity is not newer than what stays. -/
def EvictsOldest (d : HotDedupe) (i p : EventHash) (evictNow now : ℤ) : Prop :=
  ∀ h x, ((d.evictExpired evictNow).insertKnown i p now).cache.lookup h = some x →
    (d.commit i p evictNow now).cache.lookup h = none →
    ∀ h' y, (d.commit i p evictNow now).cache.lookup h' = some y → x.firstSeenMs ≤ y.firstSeenMs

/-! ### A queue in order -/

theorem InOrder.popFront (h : d.InOrder) (n : ℕ) : (d.popFront n).InOrder :=
  h.sublist (drop_sublist n d.order)

theorem InOrder.insertKnown (h : d.InOrder) (i p : EventHash) {t : ℤ} (ht : ∀ x ∈ d.order, x.2 ≤ t) :
    (d.insertKnown i p t).InOrder := by
  unfold HotDedupe.insertKnown
  split
  · exact h
  · refine pairwise_append.2 ⟨h, pairwise_singleton _ _, fun x hx y hy => ?_⟩
    rw [mem_singleton.1 hy]
    exact ht x hx

theorem InOrder.commit (hd : d.Ok) (h : d.InOrder) (i p : EventHash) (evictNow : ℤ) {now : ℤ}
    (hnow : ∀ x ∈ d.order, x.2 ≤ now) : (d.commit i p evictNow now).InOrder := by
  rw [hd.commit_eq]
  dsimp only
  split
  · exact h.popFront _
  · exact ((h.popFront _).insertKnown i p fun x hx => hnow x (mem_of_mem_drop hx)).popFront _

/-- What is behind the first entry that is not too old is not too old, if the queue is in order. -/
theorem InOrder.le_of_not_expired (h : d.InOrder) {now : ℤ} {x : EventHash × ℤ}
    (hx : x ∈ d.order.drop (d.expired now)) :
    now - d.ttlMs ≤ x.2 := by
  have hdrop : d.order.drop (d.expired now) = d.order.dropWhile fun x => x.2 < now - d.ttlMs := by
    have hsplit := takeWhile_append_dropWhile
      (p := fun x : EventHash × ℤ => decide (x.2 < now - d.ttlMs)) (l := d.order)
    conv_lhs => rw [← hsplit]
    exact drop_left
  rw [hdrop] at hx
  cases hrest : d.order.dropWhile fun x => x.2 < now - d.ttlMs with
  | nil =>
    rw [hrest] at hx
    cases hx
  | cons y rest =>
    have hy : now - d.ttlMs ≤ y.2 := by
      have hhead :=
        head_dropWhile_not (fun x : EventHash × ℤ => decide (x.2 < now - d.ttlMs)) (l := d.order)
        (by rw [hrest]; simp)
      simpa [hrest] using hhead
    have hsorted : (y :: rest).Pairwise fun x y => x.2 ≤ y.2 := hrest ▸ h.sublist (dropWhile_sublist _)
    rw [hrest] at hx
    rcases mem_cons.1 hx with rfl | hx
    · exact hy
    · exact hy.trans (rel_of_pairwise_cons hsorted hx)

/-- **All that is too old is evicted at every time exactly if the queue is in order.** -/
theorem expiresAll_iff (hd : d.Ok) : d.ExpiresAll ↔ d.InOrder := by
  constructor
  · intro h
    rw [InOrder, pairwise_iff_getElem]
    intro a b ha hb hab
    -- with the time of the first as the cutoff, neither of the two is evicted
    have hstop : d.expired (d.order[a].2 + d.ttlMs) ≤ a := by
      have hsplit : d.order = d.order.take a ++ d.order[a] :: d.order.drop (a + 1) := by
        rw [← drop_eq_getElem_cons ha, take_append_drop]
      have hprefix :=
        takeWhile_isPrefix_of_not (f := fun x => decide (x.2 < d.order[a].2 + d.ttlMs - d.ttlMs))
        (d.order.take a) (d.order.drop (a + 1)) (x := d.order[a]) (by simp)
      rw [← hsplit] at hprefix
      exact hprefix.length_le.trans (length_take_le _ _)
    have hleft : (d.order[b].1, d.order[b].2) ∈ d.order.drop (d.expired (d.order[a].2 + d.ttlMs)) := by
      rw [mem_drop_iff_getElem]
      exact ⟨b - d.expired (d.order[a].2 + d.ttlMs), by omega,
        by simp [Nat.add_sub_cancel' (hstop.trans hab.le)]⟩
    obtain ⟨q, hq⟩ := ((hd.popFront _).entry _ _).1 hleft
    rw [← evictExpired_eq] at hq
    have hle := h _ _ _ hq
    dsimp only at hle
    omega
  · intro h now k x hx
    rw [evictExpired_eq] at hx
    exact h.le_of_not_expired (((hd.popFront _).entry k x.firstSeenMs).2 ⟨x.payloadHash, hx⟩)

/-- The oldest entries are in front of a queue in order. -/
theorem InOrder.evictsOldest (hd : d.Ok) (h : d.InOrder) (i p : EventHash) (evictNow : ℤ) {now : ℤ}
    (hnow : ∀ x ∈ d.order, x.2 ≤ now) : d.EvictsOldest i p evictNow now := by
  have hd' := hd.popFront (d.expired evictNow)
  intro k x hx hgone k' y hy
  rw [hd.commit_eq] at hgone hy
  rw [evictExpired_eq] at hx
  dsimp only at hgone hy
  by_cases hi : i ∈ (d.popFront (d.expired evictNow)).cache
  · rw [if_pos hi] at hgone
    rw [HotDedupe.insertKnown, if_pos hi, hgone] at hx
    cases hx
  · rw [if_neg hi] at hgone hy
    have hok := hd'.insertKnown i p now
    have hsorted := (h.popFront (d.expired evictNow)).insertKnown i p
      fun z hz => hnow z (mem_of_mem_drop hz)
    obtain ⟨n, hn⟩ : ∃ n, n = ((d.popFront (d.expired evictNow)).insertKnown i p now).overfull :=
      ⟨_, rfl⟩
    rw [← hn] at hgone hy
    have hx' := (hok.entry k x.firstSeenMs).2 ⟨x.payloadHash, hx⟩
    have hy' := ((hok.popFront n).entry k' y.firstSeenMs).2 ⟨y.payloadHash, hy⟩
    -- the one that is gone was in front
    have htake :
        (k, x.firstSeenMs) ∈
            ((d.popFront (d.expired evictNow)).insertKnown i p now).order.take n := by
      rw [← take_append_drop n ((d.popFront (d.expired evictNow)).insertKnown i p now).order,
        mem_append] at hx'
      refine hx'.resolve_right fun hdrop => ?_
      rw [hok.lookup_popFront hdrop, hx] at hgone
      cases hgone
    rw [InOrder, ← take_append_drop n ((d.popFront (d.expired evictNow)).insertKnown i p now).order]
      at hsorted
    exact (pairwise_append.1 hsorted).2.2 _ htake _ hy'

end HotDedupe

/-! ### The queue that recovery leaves -/

/-- The first entry of each id. -/
def firstEntries : List IndexEntry → List IndexEntry
  | [] => []
  | x :: entries => x :: (firstEntries entries).filter fun y => y.1 ≠ x.1

/-- Recovery queues the first entry of each id that is not known. -/
theorem order_insertAllKnown_eq (d : HotDedupe) (entries : List IndexEntry) :
    (d.insertAllKnown entries).order = d.order ++
      ((firstEntries entries).filter fun x => x.1 ∉ d.cache).map fun x => (x.1, (x.2.2 : ℤ)) := by
  induction entries generalizing d with
  | nil => simp [firstEntries]
  | cons x entries ih =>
    rw [insertAllKnown_cons, ih, firstEntries]
    by_cases hx : x.1 ∈ d.cache
    · have hsame : d.insertKnown x.1 x.2.1 x.2.2 = d := if_pos hx
      rw [hsame, filter_cons_of_neg (by simpa using hx), filter_filter]
      congr 2
      refine filter_congr fun y _ => ?_
      by_cases hy : y.1 = x.1
      · simp [hy, hx]
      · simp [hy]
    · have hnew : (d.insertKnown x.1 x.2.1 x.2.2).order = d.order ++ [(x.1, (x.2.2 : ℤ))] := by
        rw [HotDedupe.insertKnown, if_neg hx]
      rw [hnew, filter_cons_of_pos (by simpa using hx), map_cons, append_assoc, singleton_append,
        filter_filter]
      congr 3
      refine filter_congr fun y _ => ?_
      simp only [HotDedupe.mem_insertKnown, not_or, Bool.decide_and, Bool.and_comm]

theorem ok_insertAllKnown {d : HotDedupe} (hd : d.Ok) (entries : List IndexEntry) :
    (d.insertAllKnown entries).Ok := by
  induction entries generalizing d with
  | nil => exact hd
  | cons x entries ih => exact ih (hd.insertKnown x.1 x.2.1 x.2.2)

/-- Of what recovery registers, the first entries of the ids come in the order of their times. -/
def Disk.KnownInOrder (X : Extern) (d : Disk) (now : ℤ) : Prop :=
  (firstEntries (d.knownEntries X d.loadManifest now)).Pairwise fun x y => (x.2.2 : ℤ) ≤ y.2.2

/-- The queue that recovery leaves is in order exactly then. -/
theorem inOrder_recovered_iff (X : Extern) (dedupeCapacity : ℕ) (now : ℤ) (clk : ℕ → ℤ) (d : Disk) :
    (runStartupRecovery X dedupeCapacity now clk d).dedupe.InOrder ↔ d.KnownInOrder X now := by
  have hall :
      (firstEntries (d.knownEntries X d.loadManifest now)).filter
        (fun x => x.1 ∉ (HotDedupe.new dedupeCapacity).cache) =
      firstEntries (d.knownEntries X d.loadManifest now) :=
    filter_eq_self.2 fun x _ => decide_eq_true (AList.notMem_empty x.1)
  show (List.Pairwise _ (HotDedupe.insertAllKnown _ _).order) ↔ _
  rw [order_insertAllKnown_eq, hall]
  exact pairwise_map

instance (X : Extern) (d : Disk) (now : ℤ) : Decidable (d.KnownInOrder X now) :=
  inferInstanceAs (Decidable (List.Pairwise _ _))

/-! ### From recovery on -/

/-- A call of `commit`. -/
structure Commit where
  eventIdHash : EventHash
  payloadHash : EventHash
  /-- The clock when old entries are evicted, … -/
  evictNow : ℤ
  /-- … and when the new one is stamped. -/
  now : ℤ

/-- The clock is not behind what is in the queue. -/
def Commit.InTime (c : Commit) (d : HotDedupe) : Prop := ∀ x ∈ d.order, x.2 ≤ c.now

/-- Such a commit. -/
def CommitStep (d : HotDedupe) (c : Commit) (d' : HotDedupe) : Prop :=
  c.InTime d ∧ d' = d.commit c.eventIdHash c.payloadHash c.evictNow c.now

theorem inOrder_of_commits {d d' : HotDedupe} {commits : List Commit}
    (hrun : Run CommitStep d commits d') (hd : d.Ok ∧ d.InOrder) : d'.Ok ∧ d'.InOrder := by
  refine hrun.invariant (I := fun d => d.Ok ∧ d.InOrder) ?_ hd
  rintro a c b ⟨hok, hsorted⟩ ⟨htime, rfl⟩
  exact ⟨hok.commit _ _ _ _, hsorted.commit hok _ _ _ htime⟩

/-- **Oldest first.** What recovery leaves is evicted in time, whenever it is called for, exactly if
the entries it registered came in the order of their times. And from there on, as long as each
commit reads a clock that is not behind the queue, expiry leaves nothing that is too old and
capacity takes the oldest. -/
theorem eviction_oldest_first (X : Extern) (dedupeCapacity : ℕ) (now : ℤ) (clk : ℕ → ℤ) (disk : Disk) :
    let recovered := (runStartupRecovery X dedupeCapacity now clk disk).dedupe
    (recovered.ExpiresAll ↔ disk.KnownInOrder X now) ∧
    (disk.KnownInOrder X now → ∀ commits d, Run CommitStep recovered commits d →
      d.ExpiresAll ∧ ∀ c : Commit, c.InTime d →
          d.EvictsOldest c.eventIdHash c.payloadHash c.evictNow c.now) := by
  intro recovered
  have hok : recovered.Ok := ok_insertAllKnown (HotDedupe.ok_new dedupeCapacity) _
  have hiff := inOrder_recovered_iff X dedupeCapacity now clk disk
  refine ⟨(HotDedupe.expiresAll_iff hok).trans hiff, fun hknown commits d hrun => ?_⟩
  obtain ⟨hd, hsorted⟩ := inOrder_of_commits hrun ⟨hok, hiff.2 hknown⟩
  exact ⟨(HotDedupe.expiresAll_iff hd).2 hsorted, fun c hc => hsorted.evictsOldest hd _ _ _ hc⟩

/-- The clock of a request at a time. -/
def clockAt (now : ℤ) : IngestClock := ⟨SInt.wrap 63 now, fun _ => now, fun _ => now, fun _ => now⟩

/-- Two requests at 8 500 000 and 9 000 000, of which the first is flushed, and the second if
`both`; the server stops. -/
def twoRequests (both : Bool) : List (Char × Label) :=
  [('0', .restart 8000000 fun _ => 8000000),
    ('1', .run (.ingest (clockAt 8500000) [sampleEvent "a" "acme" 7200000 5])),
    ('2', .run .drain), ('a', .run (.flush (taggedUuid 'a') fun _ => 8500000)),
    ('3', .run (.ingest (clockAt 9000000) [sampleEvent "b" "acme" 7200000 1]))] ++
    (if both then [('4', .run .drain),
      ('b', .run (.flush (taggedUuid 'b') fun _ => 9000000))] else []) ++
    [('5', .cut .drain 0)]

/-- The disk after them. -/
theorem run_twoRequests (both : Bool) {P : Disk → Prop} [DecidablePred P]
    (heval : (runAll (Sys.next .sample sampleConfig) (.down .empty) ((twoRequests both).map (·.2))).any
      (fun sys => sys matches .down _ ∧ P sys.disk)) :
    ∃ d, Run (Step .sample sampleConfig) (.down .empty) ((twoRequests both).map (·.2)) (.down d) ∧
      P d := by
  obtain ⟨sys, hrun, hdown, hP⟩ := exists_run_of_tags .sample sampleConfig
    ⟨by cases both <;> simp [twoRequests, Label.DrawsTagged, Op.DrawsTagged],
      by cases both <;> decide⟩ heval
  cases sys with
  | up s => cases hdown
  | down d => exact ⟨d, hrun, hP⟩

/-- The cache that is rebuilt from a disk at 10 000 000, with room for two entries. -/
def recoveredCache (disk : Disk) : HotDedupe :=
  (runStartupRecovery .sample 2 10000000 (fun _ => 10000000) disk).dedupe

/-- Then a third entry is committed. -/
def thirdCommit : Commit := ⟨7, 7, 10000000, 10000000⟩

/-- With both flushed, the cache is rebuilt in order: the commit of a third entry takes the older
one. -/
theorem eviction_oldest_first_of_flushed :
    ∃ disk, Run (Step .sample sampleConfig) (.down .empty) ((twoRequests true).map (·.2)) (.down disk) ∧
      disk.KnownInOrder .sample 10000000 ∧
      ((recoveredCache disk).commit 7 7 10000000 10000000).order.map (·.2) =
        [9000000, 10000000] ∧ (recoveredCache disk).EvictsOldest 7 7 10000000 10000000 ∧
      ((recoveredCache disk).commit 7 7 10000000 10000000).ExpiresAll := by
  obtain ⟨disk, hrun, hknown, htime, horder⟩ := run_twoRequests true (P := fun disk =>
    disk.KnownInOrder .sample 10000000 ∧ (∀ x ∈ (recoveredCache disk).order, x.2 ≤ 10000000) ∧
      ((recoveredCache disk).commit 7 7 10000000 10000000).order.map (·.2) = [9000000, 10000000])
        (by decide +kernel)
  obtain ⟨-, hall⟩ := eviction_oldest_first .sample 2 10000000 (fun _ => 10000000) disk
  have hstep :
      CommitStep (recoveredCache disk) thirdCommit ((recoveredCache disk).commit 7 7
          10000000 10000000) :=
    ⟨htime, rfl⟩
  exact ⟨disk, hrun, hknown, horder, (hall hknown _ _ (.nil _)).2 thirdCommit htime,
    (hall hknown _ _ (Run.single hstep)).1⟩

/-- With the second still in the log, it is registered first: the commit of a third entry evicts it
and keeps the older one, and at the end of its own time the older one is not evicted. -/
theorem newer_entry_evicted :
    ∃ disk, Run (Step .sample sampleConfig) (.down .empty) ((twoRequests false).map (·.2))
      (.down disk) ∧
      ¬ (recoveredCache disk).ExpiresAll ∧
      ¬ (recoveredCache disk).EvictsOldest 7 7 10000000 10000000 := by
  obtain ⟨disk, hrun, hold, hbefore, hgone, hstays⟩ := run_twoRequests false (P := fun disk =>
    let a := Extern.sample.idHash (sampleEvent "a" "acme" 7200000 5)
    let b := Extern.sample.idHash (sampleEvent "b" "acme" 7200000 1)
    (((recoveredCache disk).evictExpired (9000000 + DEFAULT_TTL_MS)).cache.lookup a).map
      (·.firstSeenMs) = some 8500000 ∧
      ((((recoveredCache disk).evictExpired 10000000).insertKnown 7 7 10000000).cache.lookup b).map
        (·.firstSeenMs) = some 9000000 ∧
      ((recoveredCache disk).commit 7 7 10000000 10000000).cache.lookup b = none ∧
      (((recoveredCache disk).commit 7 7 10000000 10000000).cache.lookup a).map (·.firstSeenMs) =
        some 8500000)
    (by decide +kernel)
  obtain ⟨x, hx, hxt⟩ := Option.map_eq_some_iff.1 hold
  obtain ⟨y, hy, hyt⟩ := Option.map_eq_some_iff.1 hbefore
  obtain ⟨z, hz, hzt⟩ := Option.map_eq_some_iff.1 hstays
  refine ⟨disk, hrun, fun hexpires => ?_, fun holdest => ?_⟩
  · have hle := hexpires _ _ _ hx
    have httl : (recoveredCache disk).ttlMs = DEFAULT_TTL_MS := insertAllKnown_ttlMs _
    omega
  · have hle := holdest _ _ hy hgone _ _ hz
    omega

end UsageDb
