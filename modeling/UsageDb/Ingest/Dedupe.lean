import UsageDb.Model.Event
import Mathlib.Data.List.AList

/-!
# The hot dedupe cache

`src/ingest/dedupe.rs`. `HotDedupe` remembers the hashes of the events accepted in
the last `ttl_ms`: a map from id hash to payload hash and a queue in the order of
insertion, from which entries leave when they are too old or too many.

The wall clock is an argument: `commit` reads it twice, once to evict and once to
stamp the new entry. `commit_eq_insertKnown` is what the rest of the development
uses of it: while nothing is old enough to expire and there is room, `commit` only
inserts.
-/

namespace UsageDb

open Lib

/-- `DEFAULT_TTL_MS`: seven days. -/
def DEFAULT_TTL_MS : ℤ := 7 * 24 * 3600 * 1000

/-- `DedupeEntry`. -/
structure DedupeEntry where
  payloadHash : EventHash
  firstSeenMs : ℤ
  deriving DecidableEq

/-- `DedupeResult`. -/
inductive DedupeResult where
  /-- The id is not in the cache. -/
  | newEvent
  /-- The id is there with this payload. -/
  | exactDuplicate
  /-- The id is there with another payload. -/
  | payloadConflict
  deriving DecidableEq, Repr

/-- `HotDedupe`. -/
structure HotDedupe where
  /-- The entries by id hash. -/
  cache : AList fun _ : EventHash => DedupeEntry
  /-- The id hashes in the order of insertion, with the time of it. -/
  order : List (EventHash × ℤ)
  maxCapacity : ℕ
  ttlMs : ℤ

namespace HotDedupe

variable {i p h : EventHash} {t : ℤ}

/-- `HotDedupe::new`. -/
def new (maxCapacity : ℕ) : HotDedupe := ⟨∅, [], maxCapacity, DEFAULT_TTL_MS⟩

/-- `classify`. -/
def classify (d : HotDedupe) (eventIdHash payloadHash : EventHash) : DedupeResult :=
  match d.cache.lookup eventIdHash with
  | some existing => if existing.payloadHash = payloadHash then .exactDuplicate else .payloadConflict
  | none => .newEvent

/-- The loop of `evict_expired`: entries leave from the front while they are older than
`cutoff`. -/
def evictLoop (cutoff : ℤ) : List (EventHash × ℤ) → (AList fun _ : EventHash => DedupeEntry) →
    List (EventHash × ℤ) × AList fun _ : EventHash => DedupeEntry
  | [], cache => ([], cache)
  | (hash, insertedAt) :: rest, cache =>
    if cutoff ≤ insertedAt then ((hash, insertedAt) :: rest, cache)
    else evictLoop cutoff rest (cache.erase hash)

/-- `evict_expired` at the clock value `now`. -/
def evictExpired (d : HotDedupe) (now : ℤ) : HotDedupe :=
  let r := evictLoop (now - d.ttlMs) d.order d.cache
  { d with order := r.1, cache := r.2 }

/-- The loop at the end of `commit`: entries leave from the front while there are more
than `max`. -/
def capacityLoop (max : ℕ) : List (EventHash × ℤ) → (AList fun _ : EventHash => DedupeEntry) →
    List (EventHash × ℤ) × AList fun _ : EventHash => DedupeEntry
  | [], cache => ([], cache)
  | (hash, insertedAt) :: rest, cache =>
    if max < cache.entries.length then capacityLoop max rest (cache.erase hash)
    else ((hash, insertedAt) :: rest, cache)

/-- `insert_known`. -/
def insertKnown (d : HotDedupe) (eventIdHash payloadHash : EventHash) (firstSeenMs : ℤ) : HotDedupe :=
  if eventIdHash ∈ d.cache then d
  else { d with
    cache := d.cache.insert eventIdHash ⟨payloadHash, firstSeenMs⟩
    order := d.order ++ [(eventIdHash, firstSeenMs)] }

/-- `commit`: `evictNow` is the clock that `evict_expired` reads, `now` the one stamped on
the entry. -/
def commit (d : HotDedupe) (eventIdHash payloadHash : EventHash) (evictNow now : ℤ) : HotDedupe :=
  let d := d.evictExpired evictNow
  if eventIdHash ∈ d.cache then d
  else
    let d := d.insertKnown eventIdHash payloadHash now
    let r := capacityLoop d.maxCapacity d.order d.cache
    { d with order := r.1, cache := r.2 }

/-! ### Insertion -/

variable {d : HotDedupe}

@[simp] theorem insertKnown_maxCapacity (i p : EventHash) (t : ℤ) :
    (d.insertKnown i p t).maxCapacity = d.maxCapacity := by
  unfold insertKnown; split <;> rfl

@[simp] theorem insertKnown_ttlMs (i p : EventHash) (t : ℤ) :
    (d.insertKnown i p t).ttlMs = d.ttlMs := by
  unfold insertKnown; split <;> rfl

theorem mem_insertKnown :
    h ∈ (d.insertKnown i p t).cache ↔ h = i ∨ h ∈ d.cache := by
  unfold insertKnown
  split
  · rename_i hi
    constructor
    · exact .inr
    · rintro (rfl | h)
      · exact hi
      · exact h
  · exact AList.mem_insert _

/-- What is in the cache stays as it is. -/
theorem lookup_insertKnown_of_mem (hm : h ∈ d.cache) :
    (d.insertKnown i p t).cache.lookup h = d.cache.lookup h := by
  unfold insertKnown
  split
  · rfl
  · rename_i hi
    exact AList.lookup_insert_ne fun e => hi (e ▸ hm)

theorem lookup_insertKnown_ne (hne : h ≠ i) :
    (d.insertKnown i p t).cache.lookup h = d.cache.lookup h := by
  unfold insertKnown
  split
  · rfl
  · exact AList.lookup_insert_ne hne

theorem lookup_insertKnown_new (hi : i ∉ d.cache) :
    (d.insertKnown i p t).cache.lookup i = some ⟨p, t⟩ := by
  rw [insertKnown, if_neg hi]
  exact AList.lookup_insert _

theorem classify_eq_newEvent : d.classify i p = .newEvent ↔ i ∉ d.cache := by
  rw [← AList.lookup_eq_none, classify]
  cases d.cache.lookup i with
  | none => simp
  | some x =>
    simp only [reduceCtorEq, iff_false]
    split <;> simp

theorem classify_of_lookup {x : DedupeEntry} (h : d.cache.lookup i = some x) :
    d.classify i p = if x.payloadHash = p then .exactDuplicate else .payloadConflict := by
  rw [classify, h]

/-! ### `commit` while nothing leaves -/

theorem evictExpired_of_fresh {now : ℤ} (h : ∀ x ∈ d.order, now - d.ttlMs ≤ x.2) :
    d.evictExpired now = d := by
  have hloop : evictLoop (now - d.ttlMs) d.order d.cache = (d.order, d.cache) := by
    cases ho : d.order with
    | nil => rfl
    | cons x rest =>
      obtain ⟨hash, t⟩ := x
      rw [evictLoop, if_pos (h (hash, t) (by simp [ho]))]
  rw [evictExpired, hloop]

theorem capacityLoop_of_room {max : ℕ} {order : List (EventHash × ℤ)}
    {cache : AList fun _ : EventHash => DedupeEntry} (h : cache.entries.length ≤ max) :
    capacityLoop max order cache = (order, cache) := by
  cases order with
  | nil => rfl
  | cons x rest => rw [capacityLoop, if_neg (by omega)]

/-- Nothing expired and room for one more: `commit` inserts. -/
theorem commit_eq_insertKnown {evictNow now : ℤ}
    (hfresh : ∀ x ∈ d.order, evictNow - d.ttlMs ≤ x.2)
    (hroom : i ∉ d.cache → d.cache.entries.length + 1 ≤ d.maxCapacity) :
    d.commit i p evictNow now = d.insertKnown i p now := by
  rw [commit, evictExpired_of_fresh hfresh]
  by_cases hi : i ∈ d.cache
  · rw [if_pos hi, insertKnown, if_pos hi]
  · have hlen : (d.insertKnown i p now).cache.entries.length ≤ (d.insertKnown i p now).maxCapacity := by
      rw [insertKnown_maxCapacity, insertKnown, if_neg hi]
      simp only [AList.entries_insert_of_notMem hi, List.length_cons]
      exact hroom hi
    simp only [if_neg hi, capacityLoop_of_room hlen]

theorem order_insertKnown {x : EventHash × ℤ}
    (hx : x ∈ (d.insertKnown i p t).order) : x ∈ d.order ∨ x = (i, t) := by
  unfold insertKnown at hx
  split at hx
  · exact .inl hx
  · simpa using hx

end HotDedupe

end UsageDb
