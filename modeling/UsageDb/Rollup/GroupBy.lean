import UsageDb.Rollup.Builder
import Mathlib.Order.Bounds.Basic

/-!
# A rollup does not depend on the order of the events

What the builder makes of a list of events is determined by what its records say of the events of
each key (`Aggregates.eq_of_key`): the exact sum, the count, the first and the last time. None of it
sees the order of the list, so neither do the records (`mem_buildRecords_perm`); and the records of
two lists, one after the other, are those of each, put together key by key (`recordAt_append`).

The key is the account, subscription, product, meter, model, source and unit of an event, its hour
and its dimensions, these through their JSON text (`keyOf_eq_iff`). -/

namespace UsageDb

open Lib List

namespace RollupBuilder

variable {X : Extern} {l l' : List UsageEvent} {rs rs' : List HourlyRollupRecord}
  {e e' : UsageEvent} {r : HourlyRollupRecord} {k : HourlyRollupKey}

/-- What the events of a record have in common. -/
structure SameGroup (e e' : UsageEvent) : Prop where
  accountId : e.accountId = e'.accountId
  subscriptionId : e.subscriptionId = e'.subscriptionId
  productId : e.productId = e'.productId
  meterId : e.meterId = e'.meterId
  modelId : e.modelId = e'.modelId
  source : e.source = e'.source
  unit : e.unit = e'.unit
  /-- The hour, rounded down. -/
  hour : (e.timestampMs : ℤ) / 3600000 = (e'.timestampMs : ℤ) / 3600000
  dimensions : e.dimensions = e'.dimensions

/-- After 1970 the hour of an event is rounded down. -/
theorem hourMs_eq_iff (he : 0 < (e.timestampMs : ℤ)) (he' : 0 < (e'.timestampMs : ℤ)) :
    e.hourMs = e'.hourMs ↔ (e.timestampMs : ℤ) / 3600000 = (e'.timestampMs : ℤ) / 3600000 := by
  rw [UsageEvent.hourMs, UsageEvent.hourMs, Int.tdiv_eq_ediv_of_nonneg he.le,
    Int.tdiv_eq_ediv_of_nonneg he'.le]
  omega

/-- **Which events have one key.** -/
theorem keyOf_eq_iff (hjson : Function.Injective X.dimsToJson) (he : 0 < (e.timestampMs : ℤ))
    (he' : 0 < (e'.timestampMs : ℤ)) : keyOf X e = keyOf X e' ↔ SameGroup e e' := by
  have hhour := hourMs_eq_iff he he'
  constructor
  · intro h
    simp only [keyOf, HourlyRollupKey.mk.injEq] at h
    obtain ⟨h1, h2, h3, h4, h5, h6, h7, h8, h9⟩ := h
    exact ⟨h1, h2, h3, h4, h5, h6, h7, hhour.1 h8, hjson h9⟩
  · rintro ⟨h1, h2, h3, h4, h5, h6, h7, h8, h9⟩
    simp only [keyOf, HourlyRollupKey.mk.injEq]
    exact ⟨h1, h2, h3, h4, h5, h6, h7, hhour.2 h8, congrArg _ h9⟩

/-! ### The records are determined by the events of each key -/

theorem record_ext {r' : HourlyRollupRecord} (hkey : r.key = r'.key)
    (hsum : (r.quantitySum : ℤ) = r'.quantitySum)
    (hcount : r.eventCount = r'.eventCount) (hfirst : r.firstEventMs = r'.firstEventMs)
    (hlast : r.lastEventMs = r'.lastEventMs) : r = r' := by
  obtain ⟨key, quantitySum, eventCount, firstEventMs, lastEventMs⟩ := r
  obtain ⟨key', quantitySum', eventCount', firstEventMs', lastEventMs'⟩ := r'
  dsimp only at hkey hsum hcount hfirst hlast
  rw [hkey, Subtype.ext hsum, hcount, hfirst, hlast]

/-- A record is determined by its key and the events of it. -/
theorem Aggregates.eq_of_key (h : Aggregates X l rs) (h' : Aggregates X l' rs')
    {r' : HourlyRollupRecord} (hr : r ∈ rs) (hr' : r' ∈ rs') (hkey : r.key = r'.key)
    (hgroup : (l.filter fun e => keyOf X e = r.key).Perm (l'.filter fun e => keyOf X e = r'.key)) :
      r = r' := by
  have htimes : {t | ∃ e ∈ l, keyOf X e = r.key ∧ e.timestampMs = t} =
      {t | ∃ e ∈ l', keyOf X e = r'.key ∧ e.timestampMs = t} := by
    ext t
    have hmem : ∀ e, e ∈ l ∧ keyOf X e = r.key ↔ e ∈ l' ∧ keyOf X e = r'.key := by
      intro e
      simpa using hgroup.mem_iff (a := e)
    simp only [Set.mem_ofPred_eq, ← and_assoc, hmem]
  refine record_ext hkey ?_ ?_ ?_ ?_
  · rw [h.sum r hr, h'.sum r' hr', sumQuantity_perm hgroup]
  · rw [h.count r hr, h'.count r' hr', hgroup.length_eq]
  · have hfirst := h'.first r' hr'
    rw [← htimes] at hfirst
    exact (h.first r hr).unique hfirst
  · have hlast := h'.last r' hr'
    rw [← htimes] at hlast
    exact (h.last r hr).unique hlast

/-- Every record of one list is a record of the other. -/
theorem Aggregates.mem_of_mem (h : Aggregates X l rs) (h' : Aggregates X l' rs') (hperm : l.Perm l')
    (hr : r ∈ rs) : r ∈ rs' := by
  obtain ⟨e, he, hkey⟩ := (h.keys r.key).1 (mem_map_of_mem hr)
  obtain ⟨r', hr', hkey'⟩ := mem_map.1 ((h'.keys r.key).2 ⟨e, hperm.mem_iff.1 he, hkey⟩)
  have hgroup : (l.filter fun e => keyOf X e = r.key).Perm (l'.filter fun e => keyOf X e = r'.key) := by
    rw [hkey']
    exact hperm.filter _
  rwa [h.eq_of_key h' hr hr' hkey'.symm hgroup]

/-- **The order of the events does not matter.** -/
theorem mem_buildRecords_perm (hperm : l.Perm l') (habs : absQuantity l < 2 ^ 127)
    (r : HourlyRollupRecord) :
    r ∈ buildRecords X l ↔ r ∈ buildRecords X l' := by
  have h := aggregates_buildRecords X habs
  have h' := aggregates_buildRecords X (l := l') (by rwa [← absQuantity_perm hperm])
  exact ⟨h.mem_of_mem h' hperm, h'.mem_of_mem h hperm.symm⟩

/-! ### The record of an event -/

/-- The record that `process_event` updates for an event, after the events of the list. -/
def recordFor (X : Extern) (l : List UsageEvent) (e : UsageEvent) : Option HourlyRollupRecord :=
  (l.foldl (processEvent X) ∅).lookup (keyOf X e)

/-- An event is in the record of its key. -/
theorem recordFor_eq_some_iff :
    recordFor X l e = some r ↔ r ∈ buildRecords X l ∧ r.key = keyOf X e := by
  rw [recordFor, foldl_processEvent, buildRecords, foldl_processEvent, finalize, mem_map]
  constructor
  · intro h
    have hs := AList.mem_lookup_iff.1 h
    exact ⟨⟨_, hs, rfl⟩, (recordOf_entry X hs).1⟩
  · rintro ⟨⟨s, hs, rfl⟩, hkey⟩
    refine AList.mem_lookup_iff.2 ?_
    rw [← hkey, (recordOf_entry X hs).1]
    exact hs

theorem exists_recordFor (he : e ∈ l) : ∃ r, recordFor X l e = some r := by
  obtain ⟨r, hr, hkey⟩ := mem_map.1 ((mem_keys_buildRecords X).2 ⟨e, he, rfl⟩)
  exact ⟨r, recordFor_eq_some_iff.2 ⟨hr, hkey⟩⟩

/-- Two events of the list are in one record exactly if they have one key. -/
theorem recordFor_eq_iff (he : e ∈ l) : recordFor X l e = recordFor X l e' ↔
    keyOf X e = keyOf X e' := by
  constructor
  · intro h
    obtain ⟨r, hr⟩ := exists_recordFor (X := X) he
    rw [← (recordFor_eq_some_iff.1 hr).2, (recordFor_eq_some_iff.1 (h ▸ hr)).2]
  · intro h
    rw [recordFor, recordFor, h]

/-! ### Two lists, one after the other -/

/-- Two records of one key, put together. -/
def mergeRecord (r r' : HourlyRollupRecord) : HourlyRollupRecord where
  key := r.key
  quantitySum := SInt.satAdd r.quantitySum r'.quantitySum
  eventCount := r.eventCount + r'.eventCount
  firstEventMs := min r.firstEventMs r'.firstEventMs
  lastEventMs := max r.lastEventMs r'.lastEventMs

/-- The record of a key. -/
def recordAt (records : List HourlyRollupRecord) (k : HourlyRollupKey) : Option HourlyRollupRecord :=
  records.find? fun r => r.key = k

theorem recordAt_eq_some_iff :
    recordAt (buildRecords X l) k = some r ↔ r ∈ buildRecords X l ∧ r.key = k := by
  constructor
  · intro h
    exact ⟨mem_of_find?_eq_some h, by simpa using List.find?_some h⟩
  · rintro ⟨hr, hkey⟩
    obtain ⟨r', hr'⟩ := Option.isSome_iff_exists.1 (List.find?_isSome (p := fun r => r.key = k).2
      ⟨r, hr, decide_eq_true hkey⟩)
    have hkey' : r'.key = k := by simpa using List.find?_some hr'
    rw [recordAt, hr', inj_on_of_nodup_map (nodup_keys_buildRecords X l) (mem_of_find?_eq_some hr') hr
      (hkey'.trans hkey.symm)]

theorem recordAt_eq_none_iff :
    recordAt (buildRecords X l) k = none ↔ (l.filter fun e => keyOf X e = k) = [] := by
  have hkeys : (∃ r ∈ buildRecords X l, r.key = k) ↔ ∃ e ∈ l, keyOf X e = k := by
    rw [← mem_map, mem_keys_buildRecords]
  rw [recordAt, List.find?_eq_none, filter_eq_nil_iff]
  simpa using not_congr hkeys

/-- The record of a key depends on the events of the key only. -/
theorem recordAt_congr (habs : absQuantity l < 2 ^ 127) (habs' : absQuantity l' < 2 ^ 127)
    (hgroup : (l.filter fun e => keyOf X e = k).Perm (l'.filter fun e => keyOf X e = k)) :
    recordAt (buildRecords X l) k = recordAt (buildRecords X l') k := by
  cases hr : recordAt (buildRecords X l) k with
  | none =>
    rw [recordAt_eq_none_iff] at hr
    rw [hr, nil_perm] at hgroup
    exact (recordAt_eq_none_iff.2 hgroup).symm
  | some r =>
    cases hr' : recordAt (buildRecords X l') k with
    | none =>
      rw [recordAt_eq_none_iff] at hr'
      rw [hr', perm_nil, ← recordAt_eq_none_iff (X := X), hr] at hgroup
      cases hgroup
    | some r' =>
      obtain ⟨hmem, hkey⟩ := recordAt_eq_some_iff.1 hr
      obtain ⟨hmem', hkey'⟩ := recordAt_eq_some_iff.1 hr'
      rw [(aggregates_buildRecords X habs).eq_of_key (aggregates_buildRecords X habs') hmem hmem'
        (hkey.trans hkey'.symm) (by rwa [hkey, hkey'])]

/-- What two groups come to. -/
theorem eq_mergeRecord (habs : absQuantity (l ++ l') < 2 ^ 127) {r₁ r₂ : HourlyRollupRecord}
    (hr : r ∈ buildRecords X (l ++ l')) (hr₁ : r₁ ∈ buildRecords X l) (hr₂ : r₂ ∈ buildRecords X l')
    (hkey₁ : r₁.key = r.key) (hkey₂ : r₂.key = r.key) : r = mergeRecord r₁ r₂ := by
  have h := aggregates_buildRecords X habs
  have h₁ := aggregates_buildRecords X ((absQuantity_sublist (sublist_append_left l l')).trans_lt habs)
  have h₂ := aggregates_buildRecords X ((absQuantity_sublist (sublist_append_right l l')).trans_lt habs)
  have htimes : {t | ∃ e ∈ l ++ l', keyOf X e = r.key ∧ e.timestampMs = t} =
      {t | ∃ e ∈ l, keyOf X e = r₁.key ∧ e.timestampMs = t} ∪
        {t | ∃ e ∈ l', keyOf X e = r₂.key ∧ e.timestampMs = t} := by
    ext t
    simp only [hkey₁, hkey₂, Set.mem_union, Set.mem_ofPred_eq, mem_append, or_and_right, exists_or]
  have hsum : (r.quantitySum : ℤ) = r₁.quantitySum + r₂.quantitySum := by
    rw [h.sum r hr, h₁.sum r₁ hr₁, h₂.sum r₂ hr₂, hkey₁, hkey₂, filter_append, sumQuantity_append]
  refine record_ext hkey₁.symm ?_ ?_ ?_ ?_
  · have hfit : InRange 127 ((r₁.quantitySum : ℤ) + r₂.quantitySum) := by
      rw [← hsum]
      exact r.quantitySum.2
    rw [mergeRecord, SInt.satAdd_val hfit, hsum]
  · rw [mergeRecord, h.count r hr, h₁.count r₁ hr₁, h₂.count r₂ hr₂, hkey₁, hkey₂, filter_append,
      length_append]
  · have hfirst := h.first r hr
    rw [htimes] at hfirst
    exact hfirst.unique ((h₁.first r₁ hr₁).union (h₂.first r₂ hr₂))
  · have hlast := h.last r hr
    rw [htimes] at hlast
    exact hlast.unique ((h₁.last r₁ hr₁).union (h₂.last r₂ hr₂))

/-- **The records of a list after a list** are those of each, put together key by key. -/
theorem recordAt_append (habs : absQuantity (l ++ l') < 2 ^ 127) (k : HourlyRollupKey) :
    recordAt (buildRecords X (l ++ l')) k =
      Option.merge mergeRecord (recordAt (buildRecords X l) k) (recordAt (buildRecords X l') k) := by
  have habs₁ := (absQuantity_sublist (sublist_append_left l l')).trans_lt habs
  have habs₂ := (absQuantity_sublist (sublist_append_right l l')).trans_lt habs
  cases hr₁ : recordAt (buildRecords X l) k with
  | none =>
    -- the events of the key are in the second list
    rw [Option.merge_none_left]
    refine recordAt_congr habs habs₂ (.of_eq ?_)
    rw [filter_append, recordAt_eq_none_iff.1 hr₁, nil_append]
  | some r₁ =>
    cases hr₂ : recordAt (buildRecords X l') k with
    | none =>
      rw [Option.merge_none_right, ← hr₁]
      refine recordAt_congr habs habs₁ (.of_eq ?_)
      rw [filter_append, recordAt_eq_none_iff.1 hr₂, append_nil]
    | some r₂ =>
      obtain ⟨hmem₁, hkey₁⟩ := recordAt_eq_some_iff.1 hr₁
      obtain ⟨hmem₂, hkey₂⟩ := recordAt_eq_some_iff.1 hr₂
      cases hr : recordAt (buildRecords X (l ++ l')) k with
      | none =>
        have hnil := recordAt_eq_none_iff.1 hr
        rw [filter_append, append_eq_nil_iff, ← recordAt_eq_none_iff (X := X), hr₁] at hnil
        cases hnil.1
      | some r =>
        obtain ⟨hmem, hkey⟩ := recordAt_eq_some_iff.1 hr
        rw [Option.merge_some_some, eq_mergeRecord habs hmem hmem₁ hmem₂ (hkey₁.trans hkey.symm)
          (hkey₂.trans hkey.symm)]

/-- **The builder is a grouping.** For events after 1970 whose absolute quantities fit, the records
are the same in any order of the events; their keys are different; two events are in one record
exactly if they are of one group; a record has the exact sum, the number, and the first and last
time of its events; and the records of a list after a list are those of each, put together key by
key. -/
theorem rollup_groups_events (hjson : Function.Injective X.dimsToJson) {l : List UsageEvent}
    (hpos : ∀ e ∈ l, 0 < (e.timestampMs : ℤ)) (habs : absQuantity l < 2 ^ 127) :
    (∀ l', l.Perm l' → ∀ r, r ∈ buildRecords X l ↔ r ∈ buildRecords X l') ∧
    ((buildRecords X l).map (·.key)).Nodup ∧
    (∀ e ∈ l, ∃ r ∈ buildRecords X l, recordFor X l e = some r) ∧
    (∀ e ∈ l, ∀ e' ∈ l, recordFor X l e = recordFor X l e' ↔ SameGroup e e') ∧
    (∀ r ∈ buildRecords X l,
      r.quantitySum = sumQuantity (l.filter fun e => recordFor X l e = some r) ∧
      r.eventCount = (l.filter fun e => recordFor X l e = some r).length ∧
      IsLeast {t | ∃ e ∈ l, recordFor X l e = some r ∧ e.timestampMs = t} r.firstEventMs ∧
      IsGreatest {t | ∃ e ∈ l, recordFor X l e = some r ∧ e.timestampMs = t} r.lastEventMs) ∧
    ∀ l₁ l₂, l = l₁ ++ l₂ → ∀ k, recordAt (buildRecords X l) k =
      Option.merge mergeRecord (recordAt (buildRecords X l₁) k) (recordAt (buildRecords X l₂) k) := by
  have h := aggregates_buildRecords X habs
  refine ⟨fun l' hperm => mem_buildRecords_perm hperm habs, nodup_keys_buildRecords X l,
    fun e he => ?_, fun e he e' he' => ?_, fun r hr => ?_, ?_⟩
  · obtain ⟨r, hr⟩ := exists_recordFor (X := X) he
    exact ⟨r, (recordFor_eq_some_iff.1 hr).1, hr⟩
  · rw [recordFor_eq_iff he, keyOf_eq_iff hjson (hpos e he) (hpos e' he')]
  · -- the events of the record are those of its key
    have hits : ∀ e, recordFor X l e = some r ↔ keyOf X e = r.key := by
      intro e
      rw [recordFor_eq_some_iff, and_iff_right hr, eq_comm]
    simp only [hits]
    exact ⟨h.sum r hr, h.count r hr, h.first r hr, h.last r hr⟩
  · rintro l₁ l₂ rfl k
    exact recordAt_append habs k

/-! ### A stand-in with different texts for different dimensions -/

/-- A text after its length. -/
def counted (s : List Char) : List Char := List.replicate s.length '1' ++ '0' :: s

theorem replicate_append_inj {m n : ℕ} {r r' : List Char}
    (h : List.replicate m '1' ++ '0' :: r = List.replicate n '1' ++ '0' :: r') : m = n ∧ r = r' := by
  induction m generalizing n with
  | zero =>
    cases n with
    | zero => simpa using h
    | succ n => simp [replicate_succ] at h
  | succ m ih =>
    cases n with
    | zero => simp [replicate_succ] at h
    | succ n =>
      obtain ⟨hmn, hr⟩ := ih (n := n) (by simpa [replicate_succ] using h)
      exact ⟨congrArg Nat.succ hmn, hr⟩

theorem counted_append_inj {s s' r r' : List Char} (h : counted s ++ r = counted s' ++ r') :
    s = s' ∧ r = r' := by
  rw [counted, counted, append_assoc, append_assoc, cons_append, cons_append] at h
  obtain ⟨hlen, htail⟩ := replicate_append_inj h
  exact append_inj htail hlen

/-- The text of no dimensions, and some text of others. -/
def dimsText (d : SmallDimensions) : String :=
  if d = .new then "\x7b\"inner\":\x7b\x7d\x7d"
  else String.ofList (d.inner.flatMap fun x => counted x.1.toList ++ counted x.2.toList)

theorem flatMap_counted_inj {xs ys : List (String × String)}
    (h : (xs.flatMap fun x => counted x.1.toList ++ counted x.2.toList) =
      ys.flatMap fun y => counted y.1.toList ++ counted y.2.toList) : xs = ys := by
  have hne : ∀ (x : String × String) (r : List Char), counted x.1.toList ++
      counted x.2.toList ++ r ≠ [] := by
    intro x r
    simp [counted]
  induction xs generalizing ys with
  | nil =>
    cases ys with
    | nil => rfl
    | cons y ys => exact absurd h.symm (hne y _)
  | cons x xs ih =>
    cases ys with
    | nil => exact absurd h (hne x _)
    | cons y ys =>
      rw [flatMap_cons, flatMap_cons, append_assoc, append_assoc] at h
      obtain ⟨hkey, h⟩ := counted_append_inj h
      obtain ⟨hvalue, h⟩ := counted_append_inj h
      rw [ih h, Prod.ext (String.toList_injective hkey) (String.toList_injective hvalue)]

theorem dimsText_injective : Function.Injective dimsText := by
  -- no other text begins like that of no dimensions
  have hbrace : ∀ d : SmallDimensions,
      String.ofList (d.inner.flatMap fun x => counted x.1.toList ++ counted x.2.toList) ≠
        "\x7b\"inner\":\x7b\x7d\x7d" := by
    intro d h
    have hlist := congrArg String.toList h
    rw [String.toList_ofList] at hlist
    cases hd : d.inner with
    | nil =>
      rw [hd] at hlist
      exact absurd hlist (by decide)
    | cons x xs =>
      rw [hd, flatMap_cons, counted] at hlist
      cases hx : x.1.toList.length with
      | zero =>
        rw [hx] at hlist
        exact absurd (congrArg List.head? hlist) (by simp)
      | succ n =>
        rw [hx, replicate_succ] at hlist
        exact absurd (congrArg List.head? hlist) (by simp)
  intro d d' h
  rw [dimsText, dimsText] at h
  split_ifs at h with hd hd' hd'
  · rw [hd, hd']
  · exact absurd h.symm (hbrace d')
  · exact absurd h (hbrace d)
  · have hinner := flatMap_counted_inj (String.ofList_injective h)
    obtain ⟨inner, sorted⟩ := d
    obtain ⟨inner', sorted'⟩ := d'
    subst hinner
    rfl

/-- Three events: two of one hour, and one of another. -/
def threeEvents : List UsageEvent :=
  [sampleEvent "a" "acme" 7300000 5, sampleEvent "b" "acme" 7200000 (-2),
    sampleEvent "c" "acme" 3600000 1]

theorem rollup_groups_events_of_three :
    let X := { Extern.sample with dimsToJson := dimsText }
    (∀ r, r ∈ buildRecords X threeEvents ↔ r ∈ buildRecords X threeEvents.reverse) ∧
      (buildRecords X threeEvents).map
        (fun r => ((r.quantitySum : ℤ), r.eventCount, (r.firstEventMs : ℤ), (r.lastEventMs : ℤ))) =
        [(1, 1, 3600000, 3600000), (3, 2, 7200000, 7300000)] := by
  intro X
  have hgroups := rollup_groups_events (X := X) dimsText_injective (l := threeEvents)
    (by decide) (by decide)
  exact ⟨hgroups.1 _ (reverse_perm _).symm, by decide +kernel⟩

end RollupBuilder

end UsageDb
