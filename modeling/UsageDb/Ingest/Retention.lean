import UsageDb.Ingest.Dedupe

/-!
# How long the dedupe cache remembers

Entries leave `HotDedupe` for two reasons, always from the front of its queue: `evict_expired` takes
them while they are too old, `commit` while there are too many. The queue need not be in the order
of time: recovery registers entries with any times, and more than there is room for, and the clock
may be set back.

Both loops take a number of entries from the front (`popFront`). `Ok` says how queue and map belong
together, and an entry that a commit has put at the end of the queue can be followed on its way to
the front (`Remembers`). `retention` is the guarantee: it stays for as long as its time has not
passed and fewer entries than there is room for came after it.
-/

namespace UsageDb

open Lib List

namespace HotDedupe

variable {d : HotDedupe} {h : EventHash} {evictNow : ℤ}

/-! ### Queue and map -/

/-- The queue has each id of the map once, with the time of its entry, and no other id. -/
structure Ok (d : HotDedupe) : Prop where
  /-- No id twice. -/
  nodup : (d.order.map (·.1)).Nodup
  /-- The same entries. -/
  entry : ∀ h t, (h, t) ∈ d.order ↔ ∃ p, d.cache.lookup h = some ⟨p, t⟩

theorem Ok.mem_iff (hd : d.Ok) : h ∈ d.order.map (·.1) ↔ h ∈ d.cache := by
  rw [← AList.lookup_isSome, Option.isSome_iff_exists, mem_map]
  constructor
  · rintro ⟨⟨_, t⟩, hx, rfl⟩
    obtain ⟨p, hp⟩ := (hd.entry _ t).1 hx
    exact ⟨_, hp⟩
  · rintro ⟨⟨p, t⟩, hx⟩
    exact ⟨(h, t), (hd.entry h t).2 ⟨p, hx⟩, rfl⟩

/-- So they are of one size. -/
theorem Ok.length (hd : d.Ok) : d.order.length = d.cache.entries.length := by
  have hperm : (d.order.map (·.1)).Perm d.cache.keys :=
    (perm_ext_iff_of_nodup hd.nodup d.cache.keys_nodup).2 fun h => hd.mem_iff
  have hlen := hperm.length_eq
  rwa [length_map, AList.keys, List.keys, length_map] at hlen

theorem ok_new (maxCapacity : ℕ) : (new maxCapacity).Ok :=
  ⟨nodup_nil, fun _ _ => ⟨fun hx => (nomatch hx), fun ⟨_, hp⟩ => (nomatch hp)⟩⟩

theorem Ok.insertKnown (hd : d.Ok) (i p : EventHash) (t : ℤ) : (d.insertKnown i p t).Ok := by
  unfold HotDedupe.insertKnown
  split
  · exact hd
  rename_i hi
  have hfree : i ∉ d.order.map (·.1) := fun hmem => hi (hd.mem_iff.1 hmem)
  constructor
  · rw [map_append, nodup_append]
    refine ⟨hd.nodup, nodup_singleton _, ?_⟩
    rintro a ha b hb rfl
    obtain rfl : a = i := mem_singleton.1 hb
    exact hfree ha
  · intro h t'
    rw [mem_append, mem_singleton, hd.entry]
    by_cases heq : h = i
    · subst heq
      rw [AList.lookup_insert, AList.lookup_eq_none.2 hi]
      simp [eq_comm]
    · rw [AList.lookup_insert_ne heq]
      simp [heq]

/-! ### Entries leave from the front -/

/-- Entries are taken out of the map. -/
def eraseAll (gone : List (EventHash × ℤ)) (cache : AList fun _ : EventHash => DedupeEntry) :
    AList fun _ : EventHash => DedupeEntry := gone.foldl (fun c x => c.erase x.1) cache

theorem lookup_eraseAll (gone : List (EventHash × ℤ))
    (cache : AList fun _ : EventHash => DedupeEntry) (h : EventHash) :
    (eraseAll gone cache).lookup h = if h ∈ gone.map (·.1) then none else cache.lookup h := by
  induction gone generalizing cache with
  | nil => rfl
  | cons x gone ih =>
    rw [eraseAll, foldl_cons, ← eraseAll, ih, map_cons]
    by_cases hx : h = x.1
    · rw [hx, AList.lookup_erase, if_pos mem_cons_self, ite_self]
    · rw [AList.lookup_erase_ne hx]
      simp only [mem_cons, hx, false_or]

/-- The first `n` entries of the queue are forgotten. -/
def popFront (d : HotDedupe) (n : ℕ) : HotDedupe :=
  { d with order := d.order.drop n, cache := eraseAll (d.order.take n) d.cache }

theorem Ok.not_popped (hd : d.Ok) {n : ℕ} {t : ℤ} (hx : (h, t) ∈ d.order.drop n) :
    h ∉ (d.order.take n).map (·.1) := by
  have hnodup := hd.nodup
  rw [← take_append_drop n d.order, map_append, nodup_append] at hnodup
  exact fun hmem => hnodup.2.2 h hmem h (mem_map_of_mem hx) rfl

/-- An entry that is not among them is still there. -/
theorem Ok.lookup_popFront (hd : d.Ok) {n : ℕ} {t : ℤ} (hx : (h, t) ∈ d.order.drop n) :
    (d.popFront n).cache.lookup h = d.cache.lookup h := by
  rw [popFront, lookup_eraseAll, if_neg (hd.not_popped hx)]

theorem Ok.popFront (hd : d.Ok) (n : ℕ) : (d.popFront n).Ok := by
  constructor
  · exact hd.nodup.sublist ((drop_sublist n d.order).map _)
  · intro h t
    constructor
    · intro hx
      rw [hd.lookup_popFront hx]
      exact (hd.entry h t).1 (mem_of_mem_drop hx)
    · rintro ⟨p, hp⟩
      rw [HotDedupe.popFront, lookup_eraseAll] at hp
      split at hp
      · cases hp
      · rename_i hstay
        have hx := (hd.entry h t).2 ⟨p, hp⟩
        rw [← take_append_drop n d.order, mem_append] at hx
        exact hx.resolve_left fun htake => hstay (mem_map_of_mem htake)

/-- How many entries `evict_expired` takes at `now`: those before the first that is not too old. -/
def expired (d : HotDedupe) (now : ℤ) : ℕ := (d.order.takeWhile fun x => x.2 < now - d.ttlMs).length

theorem evictLoop_eq (cutoff : ℤ) (order : List (EventHash × ℤ))
    (cache : AList fun _ : EventHash => DedupeEntry) :
    evictLoop cutoff order cache =
      (order.drop (order.takeWhile fun x => x.2 < cutoff).length,
        eraseAll (order.take (order.takeWhile fun x => x.2 < cutoff).length) cache) := by
  induction order generalizing cache with
  | nil => rfl
  | cons x order ih =>
    rw [evictLoop, takeWhile_cons]
    by_cases hx : cutoff ≤ x.2
    · simp [hx, not_lt.2 hx, eraseAll]
    · rw [if_neg hx, ih]
      simp [not_le.1 hx, eraseAll]

theorem evictExpired_eq (d : HotDedupe) (now : ℤ) :
    d.evictExpired now = d.popFront (d.expired now) := by
  rw [evictExpired, evictLoop_eq]
  rfl

/-- The loop of `commit` takes as many as there are too many. -/
theorem capacityLoop_eq (max : ℕ) {order : List (EventHash × ℤ)}
    {cache : AList fun _ : EventHash => DedupeEntry}
    (hnodup : (order.map (·.1)).Nodup) (hmem : ∀ x ∈ order, x.1 ∈ cache)
    (hlen : order.length = cache.entries.length) :
    capacityLoop max order cache =
      (order.drop (order.length - max), eraseAll (order.take (order.length - max)) cache) := by
  induction order generalizing cache with
  | nil => simp [capacityLoop, eraseAll]
  | cons x order ih =>
    rw [capacityLoop]
    split
    · rename_i hfull
      rw [map_cons, nodup_cons] at hnodup
      have hx : x.1 ∈ cache := hmem x mem_cons_self
      have hsize : (cache.erase x.1).entries.length + 1 = cache.entries.length := by
        have hkeys : (cache.erase x.1).keys.length + 1 = cache.keys.length := by
          rw [AList.keys_erase, length_erase_add_one hx]
        simpa [AList.keys, List.keys] using hkeys
      rw [length_cons] at hlen
      have hcount : (x :: order).length - max = (order.length - max) + 1 := by
        rw [length_cons]
        omega
      rw [ih hnodup.2 ?_ (by omega), hcount, drop_succ_cons, take_succ_cons]
      · rfl
      · intro y hy
        rw [AList.mem_erase]
        exact ⟨fun heq => hnodup.1 (heq ▸ mem_map_of_mem hy), hmem y (mem_cons_of_mem _ hy)⟩
    · rename_i hroom
      have hcount : (x :: order).length - max = 0 := by omega
      rw [hcount]
      rfl

/-- How many entries are too many. -/
def overfull (d : HotDedupe) : ℕ := d.order.length - d.maxCapacity

/-- **What a commit does**: the expired entries leave; a new id is put at the end, and as many
entries leave as there are too many. -/
theorem Ok.commit_eq (hd : d.Ok) (i p : EventHash) (evictNow now : ℤ) :
    d.commit i p evictNow now =
      let d' := d.popFront (d.expired evictNow)
      if i ∈ d'.cache then d'
      else (d'.insertKnown i p now).popFront (d'.insertKnown i p now).overfull := by
  rw [commit, evictExpired_eq]
  dsimp only
  split
  · rfl
  · have hd' := (hd.popFront (d.expired evictNow)).insertKnown i p now
    rw [capacityLoop_eq _ hd'.nodup (fun x hx => hd'.mem_iff.1 (mem_map_of_mem hx)) hd'.length]
    rfl

theorem Ok.commit (hd : d.Ok) (i p : EventHash) (evictNow now : ℤ) :
    (d.commit i p evictNow now).Ok := by
  rw [hd.commit_eq]
  dsimp only
  have hd' := hd.popFront (d.expired evictNow)
  split
  · exact hd'
  · exact (hd'.insertKnown i p now).popFront _

@[simp] theorem commit_ttlMs (i p : EventHash) (evictNow now : ℤ) :
    (d.commit i p evictNow now).ttlMs = d.ttlMs := by
  unfold HotDedupe.commit
  dsimp only
  split
  · rfl
  · exact insertKnown_ttlMs i p now

@[simp] theorem commit_maxCapacity (i p : EventHash) (evictNow now : ℤ) :
    (d.commit i p evictNow now).maxCapacity = d.maxCapacity := by
  unfold HotDedupe.commit
  dsimp only
  split
  · rfl
  · exact insertKnown_maxCapacity i p now

/-- After an insertion there are not too many. -/
theorem Ok.length_commit_le (hd : d.Ok) {i : EventHash} (p : EventHash) (now : ℤ)
    (hi : i ∉ (d.evictExpired evictNow).cache) : (d.commit i p evictNow now).cache.entries.length ≤
      d.maxCapacity := by
  rw [evictExpired_eq] at hi
  have hcap : ((d.popFront (d.expired evictNow)).insertKnown i p now).maxCapacity = d.maxCapacity :=
    insertKnown_maxCapacity i p now
  rw [← (hd.commit i p evictNow now).length, hd.commit_eq, if_neg hi, HotDedupe.popFront,
    length_drop, overfull, hcap]
  omega

/-! ### Calls -/

/-- `with_ttl`. -/
def withTtl (d : HotDedupe) (ttlMs : ℤ) : HotDedupe := { d with ttlMs }

/-- The calls, with the clock values they read. -/
inductive Call where
  | commit (eventIdHash payloadHash : EventHash) (evictNow now : ℤ)
  | insertKnown (eventIdHash payloadHash : EventHash) (firstSeenMs : ℤ)
  /-- `classify`, which changes nothing. -/
  | classify (eventIdHash payloadHash : EventHash)

/-- The cache after a call. -/
def Call.apply (d : HotDedupe) : Call → HotDedupe
  | .commit i p evictNow now => d.commit i p evictNow now
  | .insertKnown i p t => d.insertKnown i p t
  | .classify _ _ => d

/-- Whether a call is a commit that inserts. -/
def Call.inserts (d : HotDedupe) : Call → Bool
  | .commit i _ evictNow _ => i ∉ (d.evictExpired evictNow).cache
  | _ => false

/-- The number of commits among some calls that insert. -/
def inserting (d : HotDedupe) : List Call → ℕ
  | [] => 0
  | call :: calls => (if call.inserts d then 1 else 0) + inserting (call.apply d) calls

/-- A `classify`, or a `commit` that evicts at `limit` or before. -/
def Call.Until (limit : ℤ) : Call → Prop
  | .commit _ _ evictNow _ => evictNow ≤ limit
  | .insertKnown .. => False
  | .classify .. => True

theorem Ok.call (hd : d.Ok) (call : Call) : (call.apply d).Ok := by
  cases call with
  | commit i p evictNow now => exact hd.commit i p evictNow now
  | insertKnown i p t => exact hd.insertKnown i p t
  | classify i p => exact hd

theorem Ok.calls (hd : d.Ok) (calls : List Call) : (calls.foldl Call.apply d).Ok := by
  induction calls generalizing d with
  | nil => exact hd
  | cons call calls ih => exact ih (hd.call call)

theorem Call.apply_maxCapacity (call : Call) : (call.apply d).maxCapacity = d.maxCapacity := by
  cases call with
  | commit i p evictNow now => exact commit_maxCapacity i p evictNow now
  | insertKnown i p t => exact insertKnown_maxCapacity i p t
  | classify i p => rfl

theorem Call.apply_ttlMs (call : Call) : (call.apply d).ttlMs = d.ttlMs := by
  cases call with
  | commit i p evictNow now => exact commit_ttlMs i p evictNow now
  | insertKnown i p t => exact insertKnown_ttlMs i p t
  | classify i p => rfl

theorem foldl_apply_maxCapacity (calls : List Call) : (calls.foldl Call.apply d).maxCapacity =
    d.maxCapacity := by
  induction calls generalizing d with
  | nil => rfl
  | cons call calls ih => exact ih.trans call.apply_maxCapacity

theorem foldl_apply_ttlMs (calls : List Call) : (calls.foldl Call.apply d).ttlMs = d.ttlMs := by
  induction calls generalizing d with
  | nil => rfl
  | cons call calls ih => exact ih.trans call.apply_ttlMs

/-! ### An entry on its way to the front -/

variable {i p : EventHash} {t : ℤ} {k : ℕ}

/-- The entry of `i` is there, and at most `k` entries came after it. -/
structure Remembers (d : HotDedupe) (i p : EventHash) (t : ℤ) (k : ℕ) : Prop where
  /-- Queue and map belong together. -/
  ok : d.Ok
  /-- The entry. -/
  lookup : d.cache.lookup i = some ⟨p, t⟩
  /-- Its place in the queue. -/
  place : ∃ before after, d.order = before ++ (i, t) :: after ∧ after.length ≤ k

/-- It is still there when only entries before it leave. -/
theorem Remembers.popFront (h : d.Remembers i p t k) {before after : List (EventHash × ℤ)}
    (horder : d.order = before ++ (i, t) :: after) (hafter : after.length ≤ k) {n : ℕ}
    (hn : n ≤ before.length) :
    (d.popFront n).Remembers i p t k := by
  have hdrop : d.order.drop n = before.drop n ++ (i, t) :: after := by
    rw [horder, drop_append_of_le_length hn]
  refine ⟨h.ok.popFront n, ?_, before.drop n, after, hdrop, hafter⟩
  rw [h.ok.lookup_popFront (t := t) (by rw [hdrop]; simp), h.lookup]

theorem takeWhile_isPrefix_of_not {α : Type} {f : α → Bool} {x : α} (before after : List α)
    (hx : f x = false) :
    (before ++ x :: after).takeWhile f <+: before := by
  induction before with
  | nil =>
    rw [nil_append, takeWhile_cons, hx]
    exact prefix_rfl
  | cons y before ih =>
    rw [cons_append, takeWhile_cons]
    split
    · exact cons_prefix_cons.2 ⟨rfl, ih⟩
    · exact nil_prefix

/-- No entry expires before its time. -/
theorem Remembers.evict (h : d.Remembers i p t k) {now : ℤ} (hnow : now ≤ t + d.ttlMs) :
    (d.popFront (d.expired now)).Remembers i p t k := by
  obtain ⟨before, after, horder, hafter⟩ := h.place
  refine h.popFront horder hafter ?_
  have hstay : decide (t < now - d.ttlMs) = false := decide_eq_false (by omega)
  rw [expired, horder]
  exact (takeWhile_isPrefix_of_not before after hstay).length_le

/-- One more entry comes after it. -/
theorem Remembers.insertKnown (h : d.Remembers i p t k) {j : EventHash} (hj : j ∉ d.cache)
    (q : EventHash) (now : ℤ) :
    (d.insertKnown j q now).Remembers i p t (k + 1) := by
  obtain ⟨before, after, horder, hafter⟩ := h.place
  have hmem : i ∈ d.cache := AList.lookup_isSome.1 (by rw [h.lookup]; rfl)
  refine ⟨h.ok.insertKnown j q now, by rw [lookup_insertKnown_of_mem hmem, h.lookup], before,
    after ++ [(j, now)], ?_, ?_⟩
  · rw [HotDedupe.insertKnown, if_neg hj]
    simp [horder]
  · rw [length_append]
    exact Nat.succ_le_succ hafter

/-- It stays as long as there is room for it and what came after it. -/
theorem Remembers.commit (h : d.Remembers i p t k) {j : EventHash} (q : EventHash) (now : ℤ)
    (hnow : evictNow ≤ t + d.ttlMs) (hroom : j ∉ (d.evictExpired evictNow).cache →
      k + 1 < d.maxCapacity) :
    (d.commit j q evictNow now).Remembers i p t
      (k + if j ∉ (d.evictExpired evictNow).cache then 1 else 0) := by
  rw [evictExpired_eq] at hroom ⊢
  have hevict := h.evict hnow
  rw [h.ok.commit_eq]
  by_cases hj : j ∈ (d.popFront (d.expired evictNow)).cache
  · rw [if_pos hj, if_neg (not_not.2 hj)]
    exact hevict
  · rw [if_neg hj, if_pos hj]
    have hinsert := hevict.insertKnown hj q now
    obtain ⟨before, after, horder, hafter⟩ := hinsert.place
    refine hinsert.popFront horder hafter ?_
    have hcap : ((d.popFront (d.expired evictNow)).insertKnown j q now).maxCapacity = d.maxCapacity :=
      insertKnown_maxCapacity j q now
    rw [overfull, hcap, horder, length_append, length_cons]
    have hlt := hroom hj
    omega

/-- What a commit inserts is remembered, if there is room for anything. -/
theorem Ok.remembers_commit (hd : d.Ok) {i : EventHash} (p : EventHash) (t : ℤ)
    (hi : i ∉ (d.evictExpired evictNow).cache) (hcap : 0 < d.maxCapacity) :
    (d.commit i p evictNow t).Remembers i p t 0 := by
  rw [evictExpired_eq] at hi
  rw [hd.commit_eq]
  rw [if_neg hi]
  have hd' := hd.popFront (d.expired evictNow)
  have horder : ((d.popFront (d.expired evictNow)).insertKnown i p t).order =
      (d.popFront (d.expired evictNow)).order ++ [(i, t)] := by rw [HotDedupe.insertKnown, if_neg hi]
  have hmax : ((d.popFront (d.expired evictNow)).insertKnown i p t).maxCapacity = d.maxCapacity :=
    insertKnown_maxCapacity i p t
  have hnew : ((d.popFront (d.expired evictNow)).insertKnown i p t).Remembers i p t 0 :=
    ⟨hd'.insertKnown i p t, lookup_insertKnown_new hi, _, [], horder, le_rfl⟩
  refine hnew.popFront horder le_rfl ?_
  rw [overfull, hmax, horder, length_append, length_singleton]
  omega

/-- It is remembered over calls that are not too late and do not insert too much. -/
theorem Remembers.calls (h : d.Remembers i p t k) (calls : List Call)
    (huntil : ∀ call ∈ calls, call.Until (t + d.ttlMs))
    (hroom : k + inserting d calls < d.maxCapacity) :
    (calls.foldl Call.apply d).Remembers i p t (k + inserting d calls) := by
  induction calls generalizing d k with
  | nil => exact h
  | cons call calls ih =>
    have hcall : (call.apply d).Remembers i p t (k + if call.inserts d then 1 else 0) := by
      cases call with
      | commit j q evictNow now =>
        have hone := h.commit (j := j) q now (huntil _ mem_cons_self) fun hj => by
          rw [inserting, Call.inserts, if_pos (decide_eq_true hj)] at hroom
          omega
        simpa only [Call.apply, Call.inserts, decide_eq_true_eq] using hone
      | insertKnown j q t' => exact (huntil _ mem_cons_self).elim
      | classify j q => exact h
    rw [inserting, ← Nat.add_assoc] at hroom ⊢
    refine ih hcall (fun c hc => ?_) ?_
    · rw [call.apply_ttlMs]
      exact huntil c (mem_cons_of_mem _ hc)
    · rwa [call.apply_maxCapacity]

/-- **What the cache guarantees**, whatever is called with whatever clock values: the queue has the
entries of the map; a commit that inserts leaves no more entries than there is room for; and what it
inserted is recognised, with its payload and with any other, until its time has passed or as many
entries as there is room for have come after it. -/
theorem retention (maxCapacity : ℕ) (ttlMs : ℤ) (calls : List Call) :
    let d := calls.foldl Call.apply ((new maxCapacity).withTtl ttlMs)
    d.Ok ∧
    (∀ i p evictNow now, i ∉ (d.evictExpired evictNow).cache →
      (d.commit i p evictNow now).cache.entries.length ≤ maxCapacity) ∧
    ∀ i p evictNow t, i ∉ (d.evictExpired evictNow).cache → ∀ later : List Call,
      (∀ call ∈ later, call.Until (t + ttlMs)) →
        inserting (d.commit i p evictNow t) later < maxCapacity →
      let d' := later.foldl Call.apply (d.commit i p evictNow t)
      d'.classify i p = .exactDuplicate ∧ ∀ q ≠ p, d'.classify i q = .payloadConflict := by
  intro d
  have hnew : ((new maxCapacity).withTtl ttlMs).Ok := ⟨(ok_new maxCapacity).nodup,
    (ok_new maxCapacity).entry⟩
  have hok : d.Ok := hnew.calls calls
  have hcap : d.maxCapacity = maxCapacity := foldl_apply_maxCapacity calls
  have httl : d.ttlMs = ttlMs := foldl_apply_ttlMs calls
  refine ⟨hok, fun i p evictNow now hi => hcap ▸ hok.length_commit_le p now hi, ?_⟩
  intro i p evictNow t hi later huntil hfew d'
  have hremembers : d'.Remembers i p t (0 + inserting (d.commit i p evictNow t) later) := by
    refine (hok.remembers_commit p t hi (by omega)).calls later ?_ ?_
    · rw [commit_ttlMs, httl]
      exact huntil
    · rw [commit_maxCapacity, hcap, Nat.zero_add]
      exact hfew
  refine ⟨by rw [classify_of_lookup hremembers.lookup, if_pos rfl], fun q hq => ?_⟩
  rw [classify_of_lookup hremembers.lookup, if_neg hq.symm]

/-- Three entries out of order where there is room for two; a fourth is committed at 60 and is still
known after another commit at the end of its time. -/
theorem retention_of_recovered :
    let d := [Call.insertKnown 9 1 50, .insertKnown 8 1 10, .insertKnown 7 1 90].foldl Call.apply
      ((new 2).withTtl 100)
    let d' := [Call.classify 9 1, .commit 3 6 160 160].foldl Call.apply (d.commit 1 5 60 60)
    d'.cache.entries.length = 2 ∧ d'.classify 1 5 = .exactDuplicate ∧
        d'.classify 1 4 = .payloadConflict := by
  obtain ⟨-, -, hlater⟩ := retention 2 100 [Call.insertKnown 9 1 50, .insertKnown 8 1 10,
    .insertKnown 7 1 90]
  obtain ⟨hsame, hother⟩ := hlater 1 5 60 60 (by decide) [Call.classify 9 1, .commit 3 6 160 160]
    (by simp [Call.Until]) (by decide)
  exact ⟨by decide, hsame, hother 4 (by decide)⟩

end HotDedupe

end UsageDb
