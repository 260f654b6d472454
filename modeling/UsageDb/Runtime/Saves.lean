import UsageDb.Runtime.Preserve
import UsageDb.Storage.Generations

/-!
# What is saved, and in which files

The durable steps of an operation have its saves among them (`savesOf`). Every operation numbers its
saves one after another from the generation in memory on (`numbers_op`), so the saves of a run are
the generations 1, 2, … .

`savedDir` is the directory `manifest` that they leave, each save with the steps of `saveSteps`. It
is one of the stores of `Generations`: `CURRENT` names the last save (`currentGen_savedDir`), the
one before it has not been pruned (`previous_mem_savedDir`), and it is what a load returns when the
last is damaged (`load_previous`). -/

namespace UsageDb

open Lib List

variable {X : Extern} {cfg : Config} {d : Disk} {s : State} {saves : List Manifest} {m : Manifest}

/-! ### Saves -/

/-- The manifests that are saved, in order. -/
def savesOf (es : List Effect) : List Manifest :=
  es.filterMap fun x =>
    match x with
    | .manifestSave m => some m
    | _ => none

@[simp] theorem savesOf_append (es es' : List Effect) : savesOf (es ++ es') = savesOf es ++
    savesOf es' :=
  filterMap_append

theorem savesOf_eq_nil {es : List Effect} (h : ∀ m, .manifestSave m ∉ es) : savesOf es = [] := by
  rw [savesOf, filterMap_eq_nil_iff]
  intro x hx
  cases x with
  | manifestSave m => exact absurd hx (h m)
  | _ => rfl

theorem savesOf_unlisted {ids : List String} {xs : List Effect} (h : ∀ x ∈ xs, x.Unlisted ids) :
    savesOf xs = [] :=
  savesOf_eq_nil fun _ hm => h _ hm

theorem savesOf_onLog {xs : List Effect} (h : ∀ x ∈ xs, x.OnLog) : savesOf xs = [] :=
  savesOf_eq_nil fun _ hm => h _ hm

/-- The newest save is the manifest on the disk. -/
theorem getLast?_savesOf {saves : List Manifest} {d : Disk} (hnewest : saves.getLast? = d.manifest)
    (es : List Effect) :
    (saves ++ savesOf es).getLast? = (d.applyAll es).manifest := by
  induction es generalizing d saves with
  | nil => simpa [savesOf] using hnewest
  | cons x es ih =>
    cases x with
    | manifestSave m =>
      have hsaved : (saves ++ [m]).getLast? = (d.apply (.manifestSave m)).manifest :=
        List.getLast?_concat ..
      have hrest := ih hsaved
      rwa [append_assoc] at hrest
    | _ => exact ih (d := d.apply _) hnewest

/-! ### What a start does -/

theorem recoveryEffects_onLog (d : Disk) : ∀ x ∈ recoveryEffects d, x.OnLog := by
  intro x hx
  rw [recoveryEffects] at hx
  split at hx
  · obtain ⟨id, -, rfl⟩ := mem_map.1 hx
    trivial
  · cases hx

/-- What a start does: the sealed log is deleted, a new database is saved, and a log file opened. -/
theorem restart_effects (X : Extern) (cfg : Config) (now : ℤ) (clk : ℕ → ℤ) (d : Disk) :
    ∃ sealedId, (restart X cfg now clk d).effects = recoveryEffects d ++
        [.walCreate ((d.applyAll (recoveryEffects d)).wal.openId sealedId)] ∨
      ∃ m : Manifest, m.lastSealedWalId = d.loadManifest.lastSealedWalId ∧
        m.currentGeneration = d.loadManifest.currentGeneration + 1 ∧
        (restart X cfg now clk d).effects = recoveryEffects d ++
          .manifestSave m :: [.walCreate ((d.applyAll (recoveryEffects d)).wal.openId sealedId)] := by
  have hload : (d.applyAll (recoveryEffects d)).loadManifest = d.loadManifest := by
    rw [Disk.loadManifest, recoveryEffects_manifest, Disk.loadManifest]
  refine ⟨(initBuckets cfg d.loadManifest).1.lastSealedWalId, ?_⟩
  rw [restart]
  dsimp only [runStartupRecovery]
  rw [hload]
  by_cases hzero : d.loadManifest.bucketCount = 0
  · refine .inr ⟨(initBuckets cfg d.loadManifest).1, initBuckets_sealed _ _, ?_⟩
    rw [initBuckets, if_pos hzero]
    exact ⟨rfl, by simp⟩
  · left
    rw [initBuckets, if_neg hzero]
    simp

/-! ### Numbers -/

/-- The manifests have the generations after `g`, one after another. -/
def Numbered (g : ℕ) (ms : List Manifest) : Prop := ms.map (·.currentGeneration) =
    List.range' (g + 1) ms.length

theorem numbered_append {g : ℕ} {ms ms' : List Manifest} (h : Numbered g ms)
    (h' : Numbered (g + ms.length) ms') :
    Numbered g (ms ++ ms') := by
  rw [Numbered] at h h' ⊢
  rw [map_append, h, h', length_append, ← range'_append_1]
  congr 2
  omega

/-- The saves of an operation are numbered from that of the manifest in memory on. -/
structure Numbers (s : State) (o : Outcome) : Prop where
  saves : Numbered s.mem.manifest.currentGeneration (savesOf o.effects)
  /-- The manifest at the end. -/
  mem : o.mem.manifest.currentGeneration = s.mem.manifest.currentGeneration + (savesOf o.effects).length

namespace Numbers

variable {o : Outcome}

theorem quiet (h : savesOf o.effects = []) (hm : o.mem.manifest.currentGeneration =
    s.mem.manifest.currentGeneration) :
    Numbers s o :=
  ⟨by rw [h]; rfl, by rw [h, hm]; rfl⟩

theorem save (h : savesOf o.effects = [m.saved]) (hm : o.mem.manifest = m.saved)
    (hgen : m.currentGeneration = s.mem.manifest.currentGeneration) : Numbers s o :=
  ⟨by rw [h, ← hgen]; rfl, by rw [h, hm, ← hgen]; rfl⟩

theorem andThen {next : State → Outcome} (h : Numbers s o)
    (hnext : Numbers (o.state s) (next (o.state s))) :
    Numbers s (o.andThen s next) := by
  have hgen : (o.state s).mem.manifest.currentGeneration = _ := h.mem
  refine ⟨?_, ?_⟩
  · show Numbered _ (savesOf (o.effects ++ _))
    rw [savesOf_append]
    exact numbered_append h.saves (hgen ▸ hnext.saves)
  · show (next (o.state s)).mem.manifest.currentGeneration = _ + (savesOf (o.effects ++ _)).length
    rw [savesOf_append, length_append, hnext.mem, hgen]
    omega

theorem onLog (h : o.OnLog s) : Numbers s o := quiet (savesOf_onLog h.effects) (congrArg _ h.manifest)

end Numbers

theorem numbers_flush (s : State) (uuid : ℕ → String) (clk : ℕ → ℤ) :
    Numbers s (flushNext X uuid clk s) := by
  rcases flushNext_cases X uuid clk s with hskip | ⟨msg, rest, -,
    ⟨-, hdrop⟩ | ⟨segs, m, rfl, rfl, hflush⟩⟩
  · rw [hskip]
    exact .quiet rfl rfl
  · rw [hdrop]
    exact .quiet rfl rfl
  · have hsegs :
        savesOf (segmentEffects X (flushSegments X uuid s.mem.manifest.buckets msg.events)) =
            [] := by
      refine savesOf_eq_nil fun m hm => ?_
      obtain ⟨seg, -, hm⟩ := mem_flatMap.1 hm
      simp at hm
    have hdelete : savesOf (deleteThroughEffects s.disk.wal msg.sealedWalId) = [] := by
      refine savesOf_eq_nil fun m hm => ?_
      obtain ⟨id, -, hm⟩ := mem_map.1 hm
      cases hm
    rw [hflush]
    refine .save (m := s.mem.manifest.commitFlush _ _) ?_ rfl rfl
    rw [savesOf_append, hsegs]
    show _ :: savesOf _ = _
    rw [hdelete]

theorem numbers_tick (s : State) (now : ℤ) (uuid : ℤ → ℕ → String) :
    Numbers s (tick X cfg now uuid true s).1 := by
  refine tick_rule (.quiet rfl rfl) (.onLog (onLog_drainIf s _)) fun start target =>
    .save (m := s.mem.manifest.commitRollup _ target) ?_ rfl rfl
  show savesOf (rollupEffects _ ++ _) = _
  rw [savesOf_append, savesOf_eq_nil fun m hm => ?_]
  · rfl
  · obtain ⟨seg, -, hm⟩ := mem_map.1 hm
    cases hm

theorem numbers_sweep (s : State) (graceMs now : ℤ) :
    Numbers s (sweepPendingDeletions graceMs now true s).1 := by
  rw [sweepPendingDeletions]
  split
  · exact .quiet rfl rfl
  · refine .save (m := s.mem.manifest.dropReplacements _) ?_ rfl rfl
    show savesOf (sweepEffects _ _ ++ _) = _
    rw [savesOf_append, savesOf_eq_nil fun m hm => ?_]
    · rfl
    · obtain ⟨seg, -, hm⟩ := mem_map.1 hm
      cases hm

theorem numbers_runPlans (s : State) (uuid : ℕ → String) (now : ℤ) (plans : List CompactionPlan) :
    Numbers s (runPlans X uuid (fun _ => true) now plans s) := by
  induction plans generalizing s with
  | nil => exact .quiet rfl rfl
  | cons plan plans ih =>
    refine Numbers.andThen ?_ (ih _)
    rw [runOnePlan]
    split
    · exact .quiet rfl rfl
    split
    · exact .save (m := s.mem.manifest.swap plan _ now) rfl rfl rfl
    · exact .quiet rfl rfl

/-- **Every operation numbers its saves**, one after another. -/
theorem numbers_op (s : State) (op : Op) : Numbers s (op.outcome X cfg s) := by
  cases op with
  | ingest clk events => exact .onLog (onLog_ingest s clk events)
  | drain => exact .onLog (onLog_drainIf s _)
  | flush uuid clk => exact numbers_flush s uuid clk
  | rollupTick now uuid => exact numbers_tick s now uuid
  | compactionTick now uuid =>
    rw [Op.outcome, compactionTick_of_saves]
    exact (numbers_sweep s cfg.compactionGraceMs now).andThen (numbers_runPlans _ uuid now _)
  | closePeriod account year month now =>
    rw [Op.outcome, closePeriod]
    split
    · exact .quiet rfl rfl
    split
    · exact .quiet rfl rfl
    · exact .save (m := s.mem.manifest.close _) rfl rfl rfl
  | reopenPeriod account year month =>
    rw [Op.outcome, reopenPeriod]
    split
    · exact .save (m := s.mem.manifest.reopen account year month) rfl rfl rfl
    · exact .quiet rfl rfl

/-- The newest generation is the number of saves. -/
theorem currentGeneration_getLast (hnum : Numbered 0 saves) :
    (saves.getLast?.getD {}).currentGeneration = saves.length := by
  have hlast := congrArg List.getLast? hnum
  rw [List.getLast?_map, List.getLast?_range'] at hlast
  cases hsaves : saves.getLast? with
  | none =>
    rw [List.getLast?_eq_none_iff.1 hsaves]
    rfl
  | some m =>
    have hne : saves.length ≠ 0 := fun h => by simp [length_eq_zero_iff.1 h] at hsaves
    rw [hsaves, if_neg hne] at hlast
    have hgen : m.currentGeneration = 0 + 1 + saves.length - 1 := Option.some.inj hlast
    show m.currentGeneration = saves.length
    omega

theorem currentGeneration_newest (hnum : Numbered 0 saves) (hnewest : saves.getLast? = d.manifest) :
    d.loadManifest.currentGeneration = saves.length := by
  rw [Disk.loadManifest, ← hnewest]
  exact currentGeneration_getLast hnum

/-! ### The directory of the saves -/

section Directory

variable {J : ManifestSerde} {U : Set Manifest}

/-- The manifest before a save. -/
def Manifest.unsaved (m : Manifest) : Manifest :=
  { m with currentGeneration := m.currentGeneration - 1 }

theorem Manifest.saved_unsaved (h : 1 ≤ m.currentGeneration) : m.unsaved.saved = m := by
  rw [saved, unsaved]
  rw [Nat.sub_add_cancel h]

/-- The directory `manifest` after the saves: each of them lists it and prunes. -/
def savedDir (J : ManifestSerde) (saves : List Manifest) : ManifestDir :=
  saves.foldl (fun dir m => dir.applyAll (m.unsaved.saveSteps J dir.keys)) ∅

theorem savedDir_concat (saves : List Manifest) (m : Manifest) :
    savedDir J (saves ++ [m]) =
      (savedDir J saves).applyAll (m.unsaved.saveSteps J (savedDir J saves).keys) := by
  simp only [savedDir, foldl_append, foldl_cons, foldl_nil]

/-- The store after the saves. -/
def storeAfter (J : ManifestSerde) (saves : List Manifest) : ManifestStore where
  root := ⟨savedDir J saves, none⟩
  mem := some (saves.getLast?.getD {})
  committed := saves.getLast?
  written g := if g = 0 then none else saves[g - 1]?

theorem Numbered.init (h : Numbered 0 (saves ++ [m])) :
    Numbered 0 saves ∧ m.currentGeneration = saves.length + 1 := by
  rw [Numbered, map_append, length_append, ← range'_append_1] at h
  obtain ⟨hinit, hlast⟩ := append_inj h (by simp)
  refine ⟨hinit, ?_⟩
  have hhead : m.currentGeneration = 0 + 1 + saves.length := Option.some.inj (congrArg List.head? hlast)
  omega

/-- One more save is one more save of the store. -/
theorem storeAfter_snoc (h : Numbered 0 (saves ++ [m])) :
    storeAfter J (saves ++ [m]) = (storeAfter J saves).cut J m.unsaved (savedDir J saves).keys
      (m.unsaved.saveSteps J (savedDir J saves).keys).length (some m) := by
  obtain ⟨-, hgen⟩ := h.init
  have hsaved : m.unsaved.saved = m := Manifest.saved_unsaved (by omega)
  have hlength : 4 ≤ (m.unsaved.saveSteps J (savedDir J saves).keys).length := by
    simp [Manifest.saveSteps, writeAs]
  rw [ManifestStore.cut, ManifestStore.after, take_length, if_pos hlength, if_pos (by omega),
    hsaved, storeAfter, savedDir_concat, List.getLast?_concat]
  congr 1
  funext g
  by_cases hg : g = m.currentGeneration
  · subst hg
    rw [Function.update_self, if_neg (by omega), hgen, Nat.add_sub_cancel, List.getElem?_concat_length]
  · rw [Function.update_of_ne hg]
    show (if g = 0 then none else (saves ++ [m])[g - 1]?) = if g = 0 then none else saves[g - 1]?
    split
    · rfl
    · rcases lt_trichotomy (g - 1) saves.length with hlt | heq | hgt
      · rw [List.getElem?_append_left hlt]
      · omega
      · rw [List.getElem?_eq_none (by simp; omega), List.getElem?_eq_none (by omega)]

/-- **The store of the saves is in order.** -/
theorem storeOk_storeAfter (hJ : J.Lawful U) (hU : ∀ m ∈ saves, m.unsaved ∈ U)
    (hnum : Numbered 0 saves) :
    StoreOk J (storeAfter J saves) := by
  induction saves using List.reverseRecOn with
  | nil =>
    refine ⟨rfl, rfl, fun m hm => ?_, fun g hg => ?_, fun m hm => ?_⟩
    · cases hm
    · cases hg
    · rw [← Option.some.inj hm]
      rfl
  | append_singleton saves m ih =>
    obtain ⟨hinit, hgen⟩ := hnum.init
    have hok := ih (fun m' hm' => hU m' (mem_append_left _ hm')) hinit
    rw [storeAfter_snoc hnum]
    have hlength : 4 ≤ (m.unsaved.saveSteps J (savedDir J saves).keys).length := by
      simp [Manifest.saveSteps, writeAs]
    refine hok.after hJ (show (storeAfter J saves).mem = some (saves.getLast?.getD {}) from rfl) ?_
      (hU m (by simp))
      (saveCut ..) fun m' hm' => ?_
    · show m.currentGeneration - 1 = (saves.getLast?.getD {}).currentGeneration
      rw [hgen, currentGeneration_getLast hinit]
      rfl
    · rw [if_pos hlength, ← Option.some.inj hm', Manifest.unsaved, hgen]
      rfl

/-- `CURRENT` names the last save. -/
theorem currentGen_savedDir (hJ : J.Lawful U) (hU : ∀ m ∈ saves, m.unsaved ∈ U)
    (hnum : Numbered 0 saves) (hne : saves ≠ []) :
    (savedDir J saves).currentGen = some saves.length := by
  have hlast : saves.getLast? = some (saves.getLast hne) := List.getLast?_eq_getLast_of_ne_nil hne
  have hgen := currentGeneration_getLast hnum
  rw [hlast, Option.getD_some] at hgen
  rw [← hgen]
  have hok := storeOk_storeAfter hJ hU hnum
  refine currentGen_of_lookup (hok.current.trans ?_) (hok.present _ hlast).1.2
  rw [storeAfter, hlast]
  rfl

/-- The newest save and the one before it. -/
theorem exists_two_last (h : 2 ≤ saves.length) : ∃ init m' m, saves = init ++ [m'] ++ [m] := by
  rcases eq_nil_or_concat' saves with rfl | ⟨front, m, rfl⟩
  · simp at h
  rcases eq_nil_or_concat' front with rfl | ⟨init, m', rfl⟩
  · simp at h
  · exact ⟨init, m', m, rfl⟩

/-- The generation before the newest is there. -/
theorem previous_mem_savedDir (hJ : J.Lawful U) (hU : ∀ m ∈ saves, m.unsaved ∈ U)
    (hnum : Numbered 0 saves)
    (h : 2 ≤ saves.length) : generationFilename (saves.length - 1) ∈ savedDir J saves := by
  obtain ⟨init, m', m, rfl⟩ := exists_two_last h
  obtain ⟨hinit, hgen⟩ := hnum.init
  obtain ⟨-, hgen'⟩ := hinit.init
  have hok : StoreOk J (storeAfter J (init ++ [m'])) :=
    storeOk_storeAfter hJ (fun x hx => hU x (mem_append_left _ hx)) hinit
  have hthere := (hok.present m' (List.getLast?_concat ..)).2.1
  have hlen : (init ++ [m'] ++ [m]).length - 1 = init.length + 1 := by simp
  rw [length_append, length_singleton] at hgen
  have hkept : (savedDir J (init ++ [m'] ++ [m])).lookup (generationFilename (init.length + 1)) =
      (savedDir J (init ++ [m'])).lookup (generationFilename (init.length + 1)) := by
    rw [savedDir_concat (init ++ [m'])]
    refine lookup_saveSteps ?_ ?_
    · show init.length + 1 ≠ m.currentGeneration - 1 + 1
      omega
    · show m.currentGeneration - 1 + 1 < init.length + 1 + 10
      omega
  rw [hgen'] at hthere
  rw [hlen, ← AList.lookup_isSome, hkept]
  exact hthere

/-- **When the newest generation is damaged, the one before it is loaded.** -/
theorem load_previous (hJ : J.Lawful U) (hU : ∀ m ∈ saves, m.unsaved ∈ U)
    (hnum : Numbered 0 saves) {cur : ℕ}
    (hcur : (savedDir J saves).currentGen = some cur) (hold : ∃ g, 1 ≤ g ∧ g < cur ∧
      generationFilename g ∈ savedDir J saves)
    {root : ManifestRoot} (hdamaged : Damaged J ⟨savedDir J saves, none⟩ {cur} root)
    (listing : List String) :
    ∃ p, saves.dropLast.getLast? = some p ∧ root.load J listing = (.ok (some p), root) := by
  have hok := storeOk_storeAfter hJ hU hnum
  have hlength : cur = saves.length := by
    cases hlast : saves.getLast? with
    | none =>
      have hnone : (savedDir J saves).lookup CURRENT = none :=
        hok.current.trans (by rw [storeAfter, hlast]; rfl)
      rw [ManifestDir.currentGen, hnone] at hcur
      cases hcur
    | some m =>
      have hne : saves ≠ [] := fun h => by simp [h] at hlast
      exact Option.some.inj (hcur.symm.trans (currentGen_savedDir hJ hU hnum hne))
  subst hlength
  obtain ⟨g, hpos, hlt, -⟩ := hold
  have hprevious := previous_mem_savedDir hJ hU hnum (by omega)
  obtain ⟨init, m', m, rfl⟩ := exists_two_last (show 2 ≤ saves.length by omega)
  have hlen : (init ++ [m'] ++ [m]).length = init.length + 2 := by simp
  have hgen : m.currentGeneration = init.length + 2 := by
    rw [hnum.init.2]
    simp
  rw [hlen] at hprevious hdamaged
  have hgreatest :
      IsGreatest ((storeAfter J (init ++ [m'] ++ [m])).root.intactUpTo {init.length + 2}
        m.currentGeneration)
      (init.length + 1) := by
    rw [hgen]
    refine ⟨⟨by omega, by omega, ?_, hprevious⟩, fun g hg => ?_⟩
    · rw [Set.mem_singleton_iff]
      omega
    · have hne : g ≠ init.length + 2 := hg.2.2.1
      have hle := hg.2.1
      omega
  obtain ⟨p, hwritten, -, hload⟩ :=
    (hok.load_damaged (List.getLast?_concat ..) hdamaged listing).1 _ hgreatest
  have hfirst : (storeAfter J (init ++ [m'] ++ [m])).written (init.length + 1) = some m' := by
    show (if init.length + 1 = 0 then none else (init ++ [m'] ++ [m])[init.length + 1 - 1]?) = some m'
    simp
  obtain rfl := Option.some.inj (hfirst.symm.trans hwritten)
  exact ⟨m', by rw [dropLast_concat, List.getLast?_concat], hload⟩

end Directory

end UsageDb
