import UsageDb.Runtime.Preserve
import Mathlib.Data.Finset.Card

/-!
# The ledger

What the store is for, without files, caches or crashes: a set of billed events in which
an event id occurs once, and a set of closed periods. An event that is offered is rejected,
is a repetition of a billed one, is in conflict with one, or is billed.

`Ledger.apply` says what an operation of the store does to it. Flushes, rollups and
compactions do nothing; a request that is cut by a crash has either happened or not.
-/

namespace UsageDb

open Lib

/-- The billed events and the closed periods. -/
structure Ledger where
  /-- The billed events. -/
  events : Finset UsageEvent
  /-- An event id is billed once. -/
  unique : ∀ e ∈ events, ∀ e' ∈ events, e.eventId = e'.eventId → e = e'
  /-- The closed periods: account, year, month. -/
  closed : Finset (String × ℕ × ℕ)

namespace Ledger

/-- Nothing billed, nothing closed. -/
def empty : Ledger := ⟨∅, by simp, ∅⟩

/-- What an offered event is. -/
def classify (l : Ledger) (e : UsageEvent) : DedupeResult :=
  if ∃ e' ∈ l.events, e'.eventId = e.eventId ∧ e'.payload = e.payload then .exactDuplicate
  else if ∃ e' ∈ l.events, e'.eventId = e.eventId then .payloadConflict
  else .newEvent

/-- Bill an event; an id that is billed already is not billed again. -/
def add (l : Ledger) (e : UsageEvent) : Ledger :=
  if h : ∀ e' ∈ l.events, e'.eventId ≠ e.eventId then
    { l with
      events := insert e l.events
      unique := by
        intro a ha b hb hab
        rw [Finset.mem_insert] at ha hb
        rcases ha with rfl | ha
        · rcases hb with rfl | hb
          · rfl
          · exact absurd hab.symm (h b hb)
        · rcases hb with rfl | hb
          · exact absurd hab (h a ha)
          · exact l.unique a ha b hb hab }
  else l

/-- Whether an event may be billed: it is well formed, and not usage of a closed period. -/
def admits (X : Extern) (l : Ledger) (e : UsageEvent) : Bool :=
  e.Valid && !(e.kind = .usage && (X.periodForTs e.timestampMs).any
    fun p => (e.accountId, p.1, p.2) ∈ l.closed)

/-- One offered event. -/
def offer (X : Extern) (now : I64) (x : Ledger × IngestBatchResponse) (e : UsageEvent) :
    Ledger × IngestBatchResponse :=
  if x.1.admits X e then
    match x.1.classify e with
    | .newEvent => (x.1.add (e.stamp now), { x.2 with accepted := x.2.accepted + 1 })
    | .exactDuplicate => (x.1, { x.2 with duplicates := x.2.duplicates + 1 })
    | .payloadConflict => (x.1, { x.2 with conflicts := x.2.conflicts + 1 })
  else (x.1, { x.2 with rejected := x.2.rejected + 1 })

/-- A request: its events are offered one by one. -/
def ingest (X : Extern) (now : I64) (events : List UsageEvent) (l : Ledger) :
    Ledger × IngestBatchResponse :=
  events.foldl (offer X now) (l, ⟨0, 0, 0, 0⟩)

/-- What an operation does to the ledger. -/
def apply (X : Extern) (l : Ledger) : Op → Ledger
  | .ingest clk events => (l.ingest X clk.now events).1
  | .closePeriod account year month _ =>
    if (periodBounds X year month).isSome
      then { l with closed := insert (account, year, month) l.closed } else l
  | .reopenPeriod account year month => { l with closed := l.closed.erase (account, year, month) }
  | _ => l

/-- What a step of the system does to the ledger: an operation that is cut before its first
durable step has not happened. -/
def step (X : Extern) (l : Ledger) : Label → Ledger
  | .run op => l.apply X op
  | .cut op k => if k = 0 then l else l.apply X op
  | _ => l

/-- The ledger after a run. -/
def after (X : Extern) (ls : List Label) : Ledger := ls.foldl (step X) empty

/-! ### What the ledger says of an event -/

variable {X : Extern} {l : Ledger} {e : UsageEvent}

theorem classify_of_mem {e' : UsageEvent} (he' : e' ∈ l.events) (hid : e'.eventId = e.eventId) :
    l.classify e = if e'.payload = e.payload then .exactDuplicate else .payloadConflict := by
  have hsome : ∃ e' ∈ l.events, e'.eventId = e.eventId := ⟨e', he', hid⟩
  rw [classify, if_pos hsome]
  by_cases hp : e'.payload = e.payload
  · rw [if_pos ⟨e', he', hid, hp⟩, if_pos hp]
  · rw [if_neg hp, if_neg]
    rintro ⟨e'', he'', hid'', hp''⟩
    rw [l.unique e'' he'' e' he' (hid''.trans hid.symm)] at hp''
    exact hp hp''

theorem classify_of_forall_ne (h : ∀ e' ∈ l.events, e'.eventId ≠ e.eventId) :
    l.classify e = .newEvent := by
  rw [classify, if_neg, if_neg]
  · rintro ⟨e', he', hid⟩
    exact h e' he' hid
  · rintro ⟨e', he', hid, -⟩
    exact h e' he' hid

theorem forall_ne_of_classify (h : l.classify e = .newEvent) : ∀ e' ∈ l.events, e'.eventId ≠
    e.eventId := by
  intro e' he' hid
  rw [classify_of_mem he' hid] at h
  split at h <;> cases h

theorem add_val (h : ∀ e' ∈ l.events, e'.eventId ≠ e.eventId) :
    (l.add e).events.val = l.events.val + {e} := by
  rw [add, dif_pos h]
  have hmem : e ∉ l.events := fun he => h e he rfl
  simp only [Finset.insert_val_of_notMem hmem]
  rw [Multiset.add_comm, Multiset.singleton_add]

@[simp] theorem add_closed : (l.add e).closed = l.closed := by
  rw [add]
  split <;> rfl

theorem subset_add : l.events ⊆ (l.add e).events := by
  rw [add]
  split
  · exact Finset.subset_insert _ _
  · exact Finset.Subset.refl _

theorem distinctIds : DistinctIds l.events.val := by
  exact (Multiset.nodup_map_iff_inj_on l.events.nodup).2 fun a ha b hb hab => l.unique a ha b hb hab

/-! ### The ledger grows -/

theorem subset_offer (now : I64) (x : Ledger × IngestBatchResponse) :
    x.1.events ⊆ (offer X now x e).1.events := by
  rw [offer]
  split
  · split
    · exact subset_add
    · exact Finset.Subset.refl _
    · exact Finset.Subset.refl _
  · exact Finset.Subset.refl _

theorem subset_foldl_offer (now : I64) (events : List UsageEvent) (x : Ledger × IngestBatchResponse) :
    x.1.events ⊆ (events.foldl (offer X now) x).1.events := by
  induction events generalizing x with
  | nil => exact Finset.Subset.refl _
  | cons e es ih => exact (subset_offer now x).trans (ih _)

theorem subset_apply (op : Op) : l.events ⊆ (l.apply X op).events := by
  cases op with
  | ingest clk events => exact subset_foldl_offer _ _ (l, _)
  | closePeriod account year month now =>
    rw [apply]
    split <;> exact Finset.Subset.refl _
  | _ => exact Finset.Subset.refl _

/-- Nothing that has been billed is forgotten. -/
theorem subset_step (lab : Label) : l.events ⊆ (l.step X lab).events := by
  cases lab with
  | run op => exact subset_apply op
  | cut op k =>
    rw [step]
    split
    · exact Finset.Subset.refl _
    · exact subset_apply op
  | _ => exact Finset.Subset.refl _

end Ledger

end UsageDb
