import UsageDb.Runtime.Commits
import Mathlib.Data.Nat.Pairing
import Mathlib.Logic.Equiv.Nat

/-!
# Names of segments

New segment names are random in the source, and a step needs them to be new. A name that a
step does not draw stays unused (`Sys.Unused.step`), so a run that is computed with names of
different letters for its steps draws new names only (`run_of_tags`).
-/

namespace UsageDb

open Lib List

variable {X : Extern} {cfg : Config} {s : State} {sys' : Sys} {c : Char}

/-- The names an operation draws. -/
def Op.Draws (id : String) : Op → Prop
  | .flush uuid _ => ∃ b, id = rawSegmentId (uuid b)
  | .compactionTick _ uuid => ∃ b, id = compactedSegmentId (uuid b)
  | .rollupTick _ uuid => ∃ h b, id = rollupSegmentId (uuid h b)
  | _ => False

/-- A name that nothing on the disk has. -/
structure Disk.Unused (d : Disk) (id : String) : Prop where
  /-- No raw segment. -/
  seg : d.seg id = none
  /-- No sidecar. -/
  idx : d.idx id = none
  /-- No rollup segment. -/
  rseg : d.rseg id = none
  /-- The saved manifest does not know it. -/
  manifest : ¬ d.loadManifest.mentions id

/-- A name that the system has not used. -/
def Sys.Unused (id : String) : Sys → Prop
  | .up s => s.disk.Unused id ∧ ¬ s.mem.manifest.mentions id
  | .down d => d.Unused id

/-- An operation that has nothing to do with a name. -/
structure Spares (id : String) (o : Outcome) : Prop where
  /-- It does not get into the manifest. -/
  manifest : Commits (fun m => ¬ m.mentions id) o
  /-- Its files are left alone. -/
  effects : ∀ x ∈ o.effects, x.Avoids id

section Names

variable {id : String} {o : Outcome} {uuid : ℕ → String}

theorem Spares.onLog (h : ¬ s.mem.manifest.mentions id) (ho : o.OnLog s) : Spares id o :=
  ⟨.onLog h ho, fun x hx => (ho.effects x hx).avoids id⟩

/-- The disk has not used the name after any part of the operation. -/
theorem Disk.Unused.spares {d : Disk} (h : d.Unused id) (ho : Spares id o) (k : ℕ) :
    (d.applyAll (o.effects.take k)).Unused id := by
  obtain ⟨hseg, hidx, hrseg⟩ := Disk.applyAll_avoids (fun x hx => ho.effects x (mem_of_mem_take hx)) d
  have hmanifest := commits_take (P := fun m => ¬ m.mentions id) h.manifest ho.manifest.saves k
  exact ⟨hseg.trans h.seg, hidx.trans h.idx, hrseg.trans h.rseg, hmanifest⟩

theorem not_mentions_append {m : Manifest} (h : ¬ m.mentions id) (raw rollups : List SegmentMeta)
    (hraw : ∀ seg ∈ raw, seg.segmentId ≠ id) (hrollups : ∀ seg ∈ rollups, seg.segmentId ≠ id)
    {n : Manifest}
    (hn : n.rawSegments = m.rawSegments ++ raw) (hn' : n.rollupSegments = m.rollupSegments ++ rollups)
    (hn'' : n.compactedReplacements = m.compactedReplacements) : ¬ n.mentions id := by
  rintro (hmem | ⟨seg, hseg, hid⟩ | hmem)
  · obtain ⟨seg, hseg, hid⟩ := mem_map.1 hmem
    rcases mem_append.1 (hn ▸ hseg) with hseg | hseg
    · exact h (.inl (hid ▸ mem_map_of_mem hseg))
    · exact hraw seg hseg hid
  · rcases mem_append.1 (hn' ▸ hseg) with hseg | hseg
    · exact h (.inr (.inl ⟨seg, hseg, hid⟩))
    · exact hrollups seg hseg hid
  · exact h (.inr (.inr (hn'' ▸ hmem)))

theorem spares_flush (h : ¬ s.mem.manifest.mentions id) (hne : ∀ b, id ≠ rawSegmentId (uuid b))
    (clk : ℕ → ℤ) : Spares id (flushNext X uuid clk s) := by
  have hname : ∀ events, ∀ seg ∈ flushSegments X uuid s.mem.manifest.buckets events,
      seg.1.segmentId ≠ id := by
    rintro events seg hseg rfl
    obtain ⟨b, -, rfl⟩ := mem_map.1 hseg
    exact hne b.1 rfl
  refine ⟨commits_flush h clk fun msg _ => ?_, fun x hx => ?_⟩
  · refine not_mentions_append h _ [] (fun seg hseg => ?_) (fun seg hseg => by cases hseg) rfl
      (append_nil _).symm rfl
    obtain ⟨seg', hseg', rfl⟩ := mem_map.1 hseg
    exact hname _ seg' hseg'
  · rcases flushNext_cases X uuid clk s with hskip | ⟨msg, rest, -,
      ⟨-, hdrop⟩ | ⟨segs, m, rfl, -, hflush⟩⟩
    · rw [hskip] at hx
      cases hx
    · rw [hdrop] at hx
      cases hx
    · rw [hflush] at hx
      rcases mem_append.1 hx with hx | hx
      · obtain ⟨seg, hseg, hx⟩ := mem_flatMap.1 hx
        simp only [mem_cons, not_mem_nil, or_false] at hx
        rcases hx with rfl | rfl <;> exact hname _ seg hseg
      · rcases mem_cons.1 hx with rfl | hx
        · trivial
        · obtain ⟨i, -, rfl⟩ := mem_map.1 hx
          trivial

theorem spares_tick (h : ¬ s.mem.manifest.mentions id) {uuid : ℤ → ℕ → String}
    (hne : ∀ h b, id ≠ rollupSegmentId (uuid h b))
    (now : ℤ) : Spares id (tick X cfg now uuid true s).1 := by
  have hname : ∀ start target,
      ∀ seg ∈ newRollups X s.disk s.mem.manifest.tickSnapshot uuid start target,
      seg.1.segmentId ≠ id := by
    rintro start target seg hseg rfl
    obtain ⟨hour, b, hid⟩ := segmentId_newRollups hseg
    exact hne hour b hid
  refine ⟨commits_tick h fun start target => ?_, tick_rule (R := fun o => ∀ x ∈ o.effects, x.Avoids id)
    (fun x hx => by cases hx) (fun x hx =>
      ((onLog_drainIf s _).effects x hx).avoids id) fun start target x hx => ?_⟩
  · refine not_mentions_append h [] _ (fun seg hseg => by cases hseg) (fun seg hseg => ?_)
      (append_nil _).symm rfl rfl
    obtain ⟨seg', hseg', rfl⟩ := mem_map.1 hseg
    exact hname _ _ seg' hseg'
  · rcases mem_append.1 hx with hx | hx
    · obtain ⟨seg, hseg, rfl⟩ := mem_map.1 hx
      exact hname _ _ seg hseg
    · rw [mem_singleton.1 hx]
      trivial

theorem avoids_runPlans (hne : ∀ b, id ≠ compactedSegmentId (uuid b)) (now : ℤ)
    (plans : List CompactionPlan) (s : State) :
    ∀ x ∈ (runPlans X uuid (fun _ => true) now plans s).effects, x.Avoids id := by
  induction plans generalizing s with
  | nil => exact fun x hx => by cases hx
  | cons plan plans ih =>
    intro x hx
    rcases mem_append.1 hx with hx | hx
    · rw [runOnePlan] at hx
      split at hx
      · cases hx
      split at hx <;> simp only [if_true, cons_append, nil_append, mem_cons, not_mem_nil,
        or_false] at hx
      · rcases hx with rfl | rfl | rfl
        · exact (hne plan.bucket).symm
        · exact (hne plan.bucket).symm
        · trivial
      · rcases hx with rfl | rfl | rfl <;> exact (hne plan.bucket).symm
    · exact ih _ x hx

theorem spares_compactionTick (h : ¬ s.mem.manifest.mentions id)
    (hne : ∀ b, id ≠ compactedSegmentId (uuid b)) (now : ℤ) :
    Spares id (compactionTick X cfg now uuid (fun _ => true) s) := by
  refine ⟨commits_compactionTick h ?_ ?_, ?_⟩
  · rintro (hmem | hmem | ⟨r, hr, hid⟩)
    · exact h (.inl hmem)
    · exact h (.inr (.inl hmem))
    · exact h (.inr (.inr ⟨r, mem_of_mem_filter hr, hid⟩))
  · rintro m hm d plan hplan (hmem | hmem | ⟨r, hr, hid⟩)
    · obtain ⟨seg, hseg, hid⟩ := mem_map.1 hmem
      rcases mem_append.1 hseg with hseg | hseg
      · exact hm (.inl (hid ▸ mem_map_of_mem (mem_of_mem_filter hseg)))
      · rw [mem_singleton.1 hseg] at hid
        exact hne plan.bucket hid.symm
    · exact hm (.inr (.inl hmem))
    · rcases mem_append.1 hr with hr | hr
      · exact hm (.inr (.inr ⟨r, hr, hid⟩))
      · -- the inputs of a plan are listed
        rw [mem_singleton.1 hr, (mem_planCompaction hplan).1] at hid
        obtain ⟨seg, hseg, rfl⟩ := mem_map.1 hid
        exact h (.inl (mem_map_of_mem (mem_of_mem_filter hseg)))
  · have hsweep : ∀ x ∈ (sweepPendingDeletions cfg.compactionGraceMs now true s).1.effects,
        x.Avoids id := by
      rw [sweepPendingDeletions]
      split
      · exact fun x hx => by cases hx
      · intro x hx
        rcases mem_append.1 hx with hx | hx
        · obtain ⟨i, hi, rfl⟩ := mem_map.1 hx
          obtain ⟨r, hr, hi⟩ := mem_flatMap.1 (mem_of_mem_filter hi)
          rintro rfl
          exact h (.inr (.inr ⟨r, mem_of_mem_filter hr, hi⟩))
        · rw [mem_singleton.1 hx]
          trivial
    rw [compactionTick_of_saves]
    intro x hx
    rcases mem_append.1 hx with hx | hx
    · exact hsweep x hx
    · exact avoids_runPlans hne now _ _ x hx

/-- An operation has nothing to do with a name that is not used and that it does not draw. -/
theorem Op.spares {op : Op} (h : ¬ s.mem.manifest.mentions id) (hdraws : ¬ op.Draws id) :
    Spares id (op.outcome X cfg s) := by
  cases op with
  | ingest clk events => exact .onLog h (onLog_ingest s clk events)
  | drain => exact .onLog h (onLog_drainIf s _)
  | flush uuid clk => exact spares_flush h (fun b hb => hdraws ⟨b, hb⟩) clk
  | rollupTick now uuid => exact spares_tick h (fun hour b hb => hdraws ⟨hour, b, hb⟩) now
  | compactionTick now uuid => exact spares_compactionTick h (fun b hb => hdraws ⟨b, hb⟩) now
  | closePeriod account year month now =>
    refine ⟨commits_closePeriod h (fun _ => h) account year month now, fun x hx => ?_⟩
    rw [Op.outcome, UsageDb.closePeriod] at hx
    split at hx
    · cases hx
    · split at hx
      · cases hx
      · rw [mem_singleton.1 hx]
        trivial
  | reopenPeriod account year month =>
    refine ⟨commits_reopenPeriod h h, fun x hx => ?_⟩
    rw [Op.outcome, UsageDb.reopenPeriod] at hx
    split at hx
    · rw [mem_singleton.1 hx]
      trivial
    · cases hx

theorem spares_restart {d : Disk} (h : ¬ d.loadManifest.mentions id) (now : ℤ) (clk : ℕ → ℤ) :
    Spares id (restart X cfg now clk d) := by
  refine ⟨commits_restart h (fun _ => h) now clk, fun x hx => ?_⟩
  rw [restart] at hx
  rcases mem_append.1 hx with hx | hx
  · rcases mem_append.1 hx with hx | hx
    · rw [recoveryEffects] at hx
      split at hx
      · obtain ⟨i, -, rfl⟩ := mem_map.1 hx
        trivial
      · cases hx
    · rw [initBuckets] at hx
      split at hx
      · rw [mem_singleton.1 hx]
        trivial
      · cases hx
  · rw [mem_singleton.1 hx]
    trivial

/-- The names a step draws. -/
def Label.Draws (id : String) : Label → Prop
  | .run op | .cut op _ => op.Draws id
  | _ => False

/-- **A name that a step does not draw stays unused.** -/
theorem Sys.Unused.step {sys : Sys} {l : Label} (h : sys.Unused id) (hdraws : ¬ l.Draws id)
    (hstep : Step X cfg sys l sys') : sys'.Unused id := by
  have hall : ∀ {d : Disk} {o : Outcome}, d.Unused id → Spares id o →
      (d.applyAll o.effects).Unused id := by
    intro d o hd ho
    rw [← take_length (l := o.effects)]
    exact hd.spares ho _
  cases hstep with
  | @run s op _ =>
    have hspares : Spares id (op.outcome X cfg s) := Op.spares h.2 hdraws
    exact ⟨hall h.1 hspares, hspares.manifest.mem⟩
  | cut k => exact Disk.Unused.spares h.1 (Op.spares h.2 hdraws) k
  | @restart d now clk =>
    have hspares : Spares id (restart X cfg now clk d) := spares_restart h.manifest now clk
    exact ⟨hall h hspares, hspares.manifest.mem⟩
  | cutRestart now clk k => exact Disk.Unused.spares h (spares_restart h.manifest now clk) k

end Names

/-! ### Runs whose operations draw names with different letters -/

/-- Names that begin with a letter. -/
def taggedUuid (c : Char) (n : ℕ) : String := String.ofList (c :: List.replicate n 'x')

/-- Names that begin with a letter, for the buckets of every hour. -/
def taggedHourUuid (c : Char) (h : ℤ) (b : ℕ) : String :=
  if h = HOUR_MS * (h / HOUR_MS).toNat then taggedUuid c (Nat.pair (h / HOUR_MS).toNat b)
  else String.ofList (c :: 'y' :: List.replicate (Nat.pair (Equiv.intEquivNat h) b) 'x')

/-- The name of a segment whose random part begins with the letter. -/
def Tagged (c : Char) (id : String) : Prop :=
  ∃ u, u.toList.head? = some c ∧ (id = rawSegmentId u ∨ id = compactedSegmentId u ∨
    id = rollupSegmentId u)

theorem Tagged.eq {c' : Char} {id : String} (h : Tagged c id) (h' : Tagged c' id) : c = c' := by
  obtain ⟨u, hu, hid⟩ := h
  obtain ⟨u', hu', hid'⟩ := h'
  have hsame : u = u' := by
    rcases hid with rfl | rfl | rfl <;> rcases hid' with hid' | hid' | hid' <;>
      simp [rawSegmentId, compactedSegmentId, rollupSegmentId, ← String.toList_inj] at hid' <;>
      exact String.toList_inj.1 hid'
  rw [hsame, hu'] at hu
  exact (Option.some.inj hu).symm

theorem taggedUuid_head (c : Char) (n : ℕ) : (taggedUuid c n).toList.head? =
    some c := by simp [taggedUuid]

theorem taggedHourUuid_head (c : Char) (h : ℤ) (b : ℕ) :
    (taggedHourUuid c h b).toList.head? = some c := by
  rw [taggedHourUuid]
  split
  · exact taggedUuid_head c _
  · simp

theorem taggedUuid_injective (c : Char) : Function.Injective (taggedUuid c) := by
  intro n m h
  simpa [taggedUuid] using congrArg List.length (String.ofList_injective h)

theorem taggedHourUuid_injective (c : Char) (h : ℤ) (b : ℕ) (h' : ℤ) (b' : ℕ)
    (heq : taggedHourUuid c h b = taggedHourUuid c h' b') : h = h' ∧ b = b' := by
  have hne : ∀ n m, String.ofList (c :: 'y' :: List.replicate m 'x') ≠ taggedUuid c n := by
    intro n m heq
    have hlist := (List.cons.inj (String.ofList_injective heq)).2
    cases n with
    | zero => cases hlist
    | succ n => exact absurd (List.cons.inj hlist).1 (by decide)
  unfold taggedHourUuid at heq
  split at heq <;> split at heq
  · rename_i h1 h2
    obtain ⟨hh, hb⟩ := Nat.pair_eq_pair.1 (taggedUuid_injective c heq)
    exact ⟨by rw [h1, h2, hh], hb⟩
  · exact absurd heq.symm (hne _ _)
  · exact absurd heq (hne _ _)
  · have hlen := congrArg List.length (String.ofList_injective heq)
    simp only [length_cons, length_replicate, Nat.add_right_cancel_iff, Nat.pair_eq_pair,
      EmbeddingLike.apply_eq_iff_eq] at hlen
    exact hlen

/-- The operation draws its names with this letter. -/
def Op.DrawsTagged (c : Char) : Op → Prop
  | .flush uuid _ | .compactionTick _ uuid => uuid = taggedUuid c
  | .rollupTick _ uuid => uuid = taggedHourUuid c
  | _ => True

/-- The step draws its names with this letter. -/
def Label.DrawsTagged (c : Char) : Label → Prop
  | .run op | .cut op _ => op.DrawsTagged c
  | _ => True

theorem Label.DrawsTagged.tagged {l : Label} (h : l.DrawsTagged c) {id : String} (hid : l.Draws id) :
    Tagged c id := by
  have hop : ∀ op : Op, op.DrawsTagged c → op.Draws id → Tagged c id := by
    intro op hop hid
    cases op with
    | flush uuid clk =>
      obtain ⟨b, rfl⟩ := hid
      exact ⟨_, by rw [show uuid = taggedUuid c from hop, taggedUuid_head], .inl rfl⟩
    | compactionTick now uuid =>
      obtain ⟨b, rfl⟩ := hid
      exact ⟨_, by rw [show uuid = taggedUuid c from hop, taggedUuid_head], .inr (.inl rfl)⟩
    | rollupTick now uuid =>
      obtain ⟨hour, b, rfl⟩ := hid
      exact ⟨_, by rw [show uuid = taggedHourUuid c from hop, taggedHourUuid_head], .inr (.inr rfl)⟩
    | _ => cases hid
  cases l with
  | run op => exact hop op h hid
  | cut op k => exact hop op h hid
  | _ => cases hid

/-- Names with a letter that has not been used are new. -/
theorem Op.DrawsTagged.fresh {op : Op} (h : op.DrawsTagged c)
    (hunused : ∀ id, Tagged c id → (Sys.up s).Unused id) : op.Fresh s := by
  have hstate : ∀ id, Tagged c id → s.Unused id := fun id hid =>
    ⟨(hunused id hid).1.seg, (hunused id hid).1.idx, (hunused id hid).1.rseg, (hunused id hid).2⟩
  cases op with
  | flush uuid clk =>
    obtain rfl : uuid = taggedUuid c := h
    exact ⟨fun b => hstate _ ⟨_, taggedUuid_head c b, .inl rfl⟩, taggedUuid_injective c⟩
  | compactionTick now uuid =>
    obtain rfl : uuid = taggedUuid c := h
    exact ⟨fun b => hstate _ ⟨_, taggedUuid_head c b, .inr (.inl rfl)⟩, taggedUuid_injective c⟩
  | rollupTick now uuid =>
    obtain rfl : uuid = taggedHourUuid c := h
    exact ⟨fun hour b => hstate _ ⟨_, taggedHourUuid_head c hour b, .inr (.inr rfl)⟩,
      taggedHourUuid_injective c⟩
  | _ => trivial

/-- A step of the system, computed. -/
def Sys.next (X : Extern) (cfg : Config) : Sys → Label → Option Sys
  | .up s, .run op => some (.up ((op.outcome X cfg s).state s))
  | .up s, .cut op k => some (.down (s.disk.applyAll ((op.outcome X cfg s).effects.take k)))
  | .down d, .restart now clk =>
    some (.up ⟨d.applyAll (UsageDb.restart X cfg now clk d).effects,
      (UsageDb.restart X cfg now clk d).mem⟩)
  | .down d,
      .cutRestart now clk k => some
        (.down (d.applyAll ((UsageDb.restart X cfg now clk d).effects.take k)))
  | _, _ => none

theorem Sys.step_of_next {sys : Sys} {l : Label} (hdraws : l.DrawsTagged c)
    (hunused : ∀ id, Tagged c id → sys.Unused id) (h : sys.next X cfg l = some sys') :
      Step X cfg sys l sys' := by
  cases sys with
  | up s =>
    cases l with
    | run op =>
      cases h
      exact .run (hdraws.fresh hunused)
    | cut op k =>
      cases h
      exact .cut k (hdraws.fresh hunused)
    | _ => cases h
  | down d =>
    cases l with
    | restart now clk =>
      cases h
      exact .restart now clk
    | cutRestart now clk k =>
      cases h
      exact .cutRestart now clk k
    | _ => cases h

/-- The steps draw their names with different letters. -/
structure Lettered (ls : List (Char × Label)) : Prop where
  /-- Each with its own, … -/
  draws : ∀ x ∈ ls, x.2.DrawsTagged x.1
  /-- … and no two with the same. -/
  nodup : (ls.map (·.1)).Nodup

section Lettered

variable {β : Type} {v : β → Sys} {next : β → Label → Option β} {step : β → Label → β → Prop}
  {ls : List (Char × Label)} {b b' : β}

/-- **A run computed with different letters is a run of the system**, and so of one that is seen
along with it. -/
theorem run_of_tags (X : Extern) (cfg : Config) (hnext : ∀ {b l b'}, next b l = some b' →
    (v b).next X cfg l = some (v b') ∧
      (Step X cfg (v b) l (v b') → step b l b')) (hls : Lettered ls)
    (hunused : ∀ x ∈ ls, ∀ id, Tagged x.1 id → (v b).Unused id)
    (h : runAll next b (ls.map (·.2)) = some b') :
    Run step b (ls.map (·.2)) b' := by
  induction ls generalizing b with
  | nil =>
    cases h
    exact .nil _
  | cons x ls ih =>
    obtain ⟨mid, hmid, hrest⟩ := Option.bind_eq_some_iff.1 h
    obtain ⟨hdraws, hnodup⟩ := hls
    rw [map_cons, nodup_cons] at hnodup
    have hx := hdraws x mem_cons_self
    have hstep := Sys.step_of_next hx (hunused x mem_cons_self) (hnext hmid).1
    refine Run.append (.single ((hnext hmid).2 hstep))
      (ih ⟨fun y hy => hdraws y (mem_cons_of_mem _ hy), hnodup.2⟩ (fun y hy id hid => ?_) hrest)
    refine (hunused y (mem_cons_of_mem _ hy) id hid).step (fun hdraw => hnodup.1 ?_) hstep
    rw [(hx.tagged hdraw).eq hid]
    exact mem_map_of_mem hy

/-- Nothing has been used at the beginning. -/
theorem unused_empty (id : String) : (Sys.down .empty).Unused id :=
  ⟨rfl, rfl, rfl, by rintro (h | ⟨_, h, _⟩ | ⟨_, h, _⟩) <;> exact absurd h not_mem_nil⟩

theorem exists_run_of_tags (X : Extern) (cfg : Config) (hls : Lettered ls) {P : Sys → Prop}
    [DecidablePred P] (heval : (runAll (Sys.next X cfg) (.down .empty) (ls.map (·.2))).any (P ·)) :
    ∃ sys, Run (Step X cfg) (.down .empty) (ls.map (·.2)) sys ∧ P sys := by
  obtain ⟨sys, hall, hP⟩ := (Option.any_eq_true _ _).1 heval
  exact ⟨sys,
    run_of_tags X cfg (v := id)
      (fun h => ⟨h, fun h => h⟩) hls (fun _ _ id _ => unused_empty id) hall,
    of_decide_eq_true hP⟩

/-- The server runs, and its state is one of these. -/
def Sys.UpWith (P : State → Prop) : Sys → Prop
  | .up s => P s
  | .down _ => False

instance (P : State → Prop) [DecidablePred P] : DecidablePred (Sys.UpWith P)
  | .up s => inferInstanceAs (Decidable (P s))
  | .down _ => inferInstanceAs (Decidable False)

theorem exists_up_of_tags (X : Extern) (cfg : Config) (hls : Lettered ls) {P : State → Prop}
    [DecidablePred P]
    (heval : (runAll (Sys.next X cfg) (.down .empty) (ls.map (·.2))).any (Sys.UpWith P ·)) :
    ∃ s, Run (Step X cfg) (.down .empty) (ls.map (·.2)) (.up s) ∧ P s := by
  obtain ⟨sys, hrun, hP⟩ := exists_run_of_tags X cfg hls heval
  cases sys with
  | up s => exact ⟨s, hrun, hP⟩
  | down d => cases hP

/-- A letter that the steps of a run do not use is still new after it. -/
theorem fresh_of_tags (hls : Lettered ls) (hc : ∀ x ∈ ls, x.1 ≠ c) {s : State}
    (hrun : Run (Step X cfg) (.down .empty) (ls.map (·.2)) (.up s)) {op : Op}
    (hop : op.DrawsTagged c) : op.Fresh s := by
  refine hop.fresh fun id hid => ?_
  have hrun' :
    Run (fun a l b => Step X cfg a l b ∧ l ∈ ls.map (·.2)) (.down .empty) (ls.map (·.2))
      (.up s) := hrun.labels
  refine hrun'.invariant (I := fun sys => sys.Unused id) ?_ (unused_empty id)
  rintro a l b h ⟨hstep, hl⟩
  obtain ⟨x, hx, rfl⟩ := mem_map.1 hl
  exact h.step (fun hdraw => hc x hx (((hls.draws x hx).tagged hdraw).eq hid)) hstep

end Lettered

/-- Every request drains, and two segments of a bucket are merged. -/
def tinyConfig : Config :=
  { sampleConfig with maxMemtableSizeBytes := 0, compactionMaxSmallSegments := 1 }

end UsageDb
