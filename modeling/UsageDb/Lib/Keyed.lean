import Mathlib.Data.List.AList
import Mathlib.Data.List.Forall2
import Mathlib.Data.List.Sort
import Mathlib.Data.List.Induction

/-!
# Grouping by key

A loop that goes through a list and, for each item, inserts or updates the entry
of a map at the item's key. Maps are Mathlib's `AList`. The one fact about such a
loop is `lookup_groupFold`: the entry at `k` is the fold of the items of key `k`,
in order, started from what the first of them gives. Everything else about a
grouping follows: which keys there are, and that the groups are the list itself,
rearranged (`perm_flatMap_filter`).

Parts that were each made from a list of items (`List.Forall₂`) can be taken apart again: a part
has its items, an item its part (`forall₂_exists`). `MadeBy` says that the items were used once
each; the parts that are kept were then made from the items that belong to them
(`MadeBy.filter`). -/

namespace UsageDb.Lib

open List

universe u v w

variable {α : Type u} {κ : Type v} {β : Type w} [DecidableEq κ]

/-- Go through the list, updating at each item the entry of its key: `step` from what
is there, or from `init` of the item when the key is new. -/
def groupFold (key : α → κ) (init : α → β) (step : β → α → β) (l : List α) : AList fun _ : κ => β :=
  l.foldl (fun m a => m.insert (key a) (step ((m.lookup (key a)).getD (init a)) a)) ∅

/-- The fold of one group, started by its first item. -/
def foldGroup (init : α → β) (step : β → α → β) : List α → Option β
  | [] => none
  | a :: as => some ((a :: as).foldl step (init a))

theorem foldGroup_concat (init : α → β) (step : β → α → β) (l : List α) (a : α) :
    foldGroup init step (l ++ [a]) = some (step ((foldGroup init step l).getD (init a)) a) := by
  cases l with
  | nil => rfl
  | cons b l => simp [foldGroup, foldl_append]

section

variable (key : α → κ) (init : α → β) (step : β → α → β)

theorem groupFold_concat (l : List α) (a : α) :
    groupFold key init step (l ++ [a]) =
      (groupFold key init step l).insert (key a)
        (step (((groupFold key init step l).lookup (key a)).getD (init a)) a) := by
  simp [groupFold, foldl_append]

/-- **The entry at a key** is the fold of the items of that key. -/
theorem lookup_groupFold (l : List α) (k : κ) :
    (groupFold key init step l).lookup k = foldGroup init step (l.filter fun a => key a = k) := by
  induction l using List.reverseRecOn with
  | nil => rfl
  | append_singleton l a ih =>
    rw [groupFold_concat, filter_append]
    by_cases hk : k = key a
    · subst hk
      have hone : ([a].filter fun b => key b = key a) = [a] := by simp
      rw [AList.lookup_insert, hone, foldGroup_concat, ih]
    · have hnone : ([a].filter fun b => key b = k) = [] := by simp [Ne.symm hk]
      rw [AList.lookup_insert_ne hk, ih, hnone, append_nil]

theorem mem_groupFold {l : List α} {k : κ} : k ∈ groupFold key init step l ↔ ∃ a ∈ l, key a = k := by
  rw [← AList.lookup_isSome, lookup_groupFold]
  have hmem : (∃ a ∈ l, key a = k) ↔ ∃ a, a ∈ l.filter fun a => key a = k := by simp
  rw [hmem]
  cases l.filter fun a => key a = k <;> simp [foldGroup]

/-- An entry of the map is its key's group, folded. -/
theorem foldGroup_of_mem_entries {l : List α} {s : Sigma fun _ : κ => β}
    (hs : s ∈ (groupFold key init step l).entries) :
    foldGroup init step (l.filter fun a => key a = s.1) = some s.2 := by
  rw [← lookup_groupFold]
  exact mem_dlookup_iff (groupFold key init step l).nodupKeys |>.2 hs

end

/-! ### The groups are the list, rearranged -/

/-- A list is its groups put one after another, for keys that are different and cover it. -/
theorem perm_flatMap_filter (key : α → κ) {ks : List κ} (hks : ks.Nodup) {l : List α}
    (hcov : ∀ a ∈ l, key a ∈ ks) : l.Perm (ks.flatMap fun k => l.filter fun a => key a = k) := by
  induction l with
  | nil => simp
  | cons a l ih =>
    have ih := ih fun b hb => hcov b (by simp [hb])
    obtain ⟨xs, ys, rfl⟩ := append_of_mem (hcov a (by simp))
    have hout : ∀ k ∈ xs ++ ys,
        (List.filter (fun b => key b = k) (a :: l)) = l.filter fun b => key b = k := by
      intro k hk
      rw [filter_cons_of_neg]
      simp only [decide_eq_true_eq]
      rintro rfl
      rw [nodup_middle] at hks
      exact (nodup_cons.mp hks).1 hk
    have hx : (xs.flatMap fun k => List.filter (fun b => key b = k) (a :: l)) =
        xs.flatMap fun k => l.filter fun b => key b = k :=
      flatMap_congr fun k hk => hout k (by simp [hk])
    have hy : (ys.flatMap fun k => List.filter (fun b => key b = k) (a :: l)) =
        ys.flatMap fun k => l.filter fun b => key b = k :=
      flatMap_congr fun k hk => hout k (by simp [hk])
    rw [flatMap_append, flatMap_cons, hx, hy, filter_cons_of_pos (by simp)]
    rw [flatMap_append, flatMap_cons] at ih
    calc a :: l
      _ |>.Perm (a :: (xs.flatMap (fun k => l.filter fun b => key b = k) ++
            ((l.filter fun b => key b = key a) ++ ys.flatMap fun k =>
              l.filter fun b => key b = k))) := ih.cons a
      _ |>.Perm _ := perm_middle.symm

/-! ### Maps read in key order -/

section Sorted

variable {γ : Type v} [LinearOrder γ]

/-- The entries of a map in the order of their keys, as an ordered map gives them. -/
def sortedEntries (m : AList fun _ : γ => β) : List (γ × β) :=
  (m.entries.map fun s => (s.1, s.2)).insertionSort fun x y => x.1 ≤ y.1

theorem perm_sortedEntries (m : AList fun _ : γ => β) :
    (sortedEntries m).Perm (m.entries.map fun s => (s.1, s.2)) :=
  perm_insertionSort _ _

theorem mem_sortedEntries {m : AList fun _ : γ => β} {k : γ} {b : β} :
    (k, b) ∈ sortedEntries m ↔ m.lookup k = some b := by
  rw [(perm_sortedEntries m).mem_iff, ← Option.mem_def, AList.mem_lookup_iff]
  constructor
  · intro h
    obtain ⟨⟨k', b'⟩, hs, he⟩ := mem_map.1 h
    cases he
    exact hs
  · intro h
    exact mem_map.2 ⟨⟨k, b⟩, h, rfl⟩

theorem pairwise_sortedEntries (m : AList fun _ : γ => β) :
    (sortedEntries m).Pairwise fun x y => x.1 ≤ y.1 := by
  have : Std.Total fun x y : γ × β => x.1 ≤ y.1 := ⟨fun x y => le_total x.1 y.1⟩
  have : IsTrans (γ × β) fun x y => x.1 ≤ y.1 := ⟨fun _ _ _ h h' => le_trans h h'⟩
  exact pairwise_insertionSort _ _

/-- Two maps with the same entries are read the same. -/
theorem sortedEntries_congr [i : DecidableEq γ] {m m' : AList fun _ : γ => β}
    (h : ∀ k, m.lookup k = m'.lookup k) : sortedEntries m = sortedEntries m' := by
  obtain rfl : i = LinearOrder.toDecidableEq := Subsingleton.elim _ _
  have hperm : m.entries.Perm m'.entries :=
    lookup_ext m.nodupKeys m'.nodupKeys fun k b => by
      have := h k
      simp only [AList.lookup] at this
      rw [this]
  have hsorted := (perm_sortedEntries m).trans
    ((hperm.map _).trans (perm_sortedEntries m').symm)
  refine hsorted.eq_of_pairwise ?_ (pairwise_sortedEntries m) (pairwise_sortedEntries m')
  rintro ⟨k, b⟩ ⟨k', b'⟩ hx hy hle hge
  obtain rfl : k = k' := le_antisymm hle hge
  rw [mem_sortedEntries] at hx hy
  rw [← h k, hx] at hy
  rw [Option.some.inj hy]

/-! ### The groups of a list, in key order -/

/-- The groups of a list, each with its key, in the order of the keys. -/
def groups (key : α → γ) (l : List α) : List (γ × List α) :=
  sortedEntries (groupFold key (fun _ => []) (fun g a => g ++ [a]) l)

variable {key : α → γ} {l : List α}

theorem foldGroup_concatAll (l : List α) :
    foldGroup (fun _ : α => []) (fun (g : List α) a => g ++ [a]) l =
      if l = [] then none else some l := by
  have hfold : ∀ g : List α, l.foldl (fun (g : List α) a => g ++ [a]) g = g ++ l := by
    induction l with
    | nil => simp
    | cons b l ih => intro g; rw [foldl_cons, ih]; simp
  cases l with
  | nil => rfl
  | cons a l => rw [if_neg (by simp), foldGroup, hfold, nil_append]

/-- A group is what the list has of its key, in order, and is not empty. -/
theorem mem_groups [i : DecidableEq γ] {k : γ} {g : List α} :
    (k, g) ∈ groups key l ↔ g = (l.filter fun a => key a = k) ∧ g ≠ [] := by
  obtain rfl : i = LinearOrder.toDecidableEq := Subsingleton.elim _ _
  rw [groups, mem_sortedEntries, lookup_groupFold, foldGroup_concatAll]
  constructor
  · intro h
    split at h
    · cases h
    · rename_i hne
      rw [Option.some.injEq] at h
      exact ⟨h.symm, h ▸ hne⟩
  · rintro ⟨rfl, hne⟩
    rw [if_neg hne]

theorem sortedEntries_keys (m : AList fun _ : γ => β) : ((sortedEntries m).map (·.1)).Perm m.keys := by
  have h := (perm_sortedEntries m).map (·.1)
  rw [map_map] at h
  exact h

/-- The keys ascend strictly. -/
theorem sortedEntries_lt (m : AList fun _ : γ => β) :
    (sortedEntries m).Pairwise fun x y => x.1 < y.1 := by
  have hne : (sortedEntries m).Pairwise fun x y => x.1 ≠ y.1 :=
    pairwise_map.1 ((sortedEntries_keys m).nodup_iff.2 m.keys_nodup)
  exact ((pairwise_sortedEntries m).and hne).imp fun h => lt_of_le_of_ne h.1 h.2

theorem groups_lt : (groups key l).Pairwise fun x y => x.1 < y.1 := sortedEntries_lt _

theorem groups_nodup : ((groups key l).map (·.1)).Nodup :=
  pairwise_map.2 (groups_lt.imp fun h => h.ne)

/-- There is one group of a key, if the list has items of it. -/
theorem filter_groups (k : γ) :
    ((groups key l).filter fun g => g.1 = k) =
      if (l.filter fun a => key a = k) = [] then [] else [(k, l.filter fun a => key a = k)] := by
  split
  · rename_i hnil
    rw [filter_eq_nil_iff]
    rintro ⟨k', g⟩ hg hk
    obtain rfl : k' = k := of_decide_eq_true hk
    obtain ⟨rfl, hne⟩ := mem_groups.1 hg
    exact hne hnil
  · rename_i hne
    obtain ⟨xs, ys, hsplit⟩ := append_of_mem (mem_groups.2 ⟨rfl, hne⟩)
    have hnodup : ((groups key l).map (·.1)).Nodup := groups_nodup
    rw [hsplit, map_append, map_cons, nodup_middle, nodup_cons, ← map_append] at hnodup
    have hother : ∀ g ∈ xs ++ ys, ¬ decide (g.1 = k) := by
      intro g hg hk
      have hin : g.1 ∈ (xs ++ ys).map (·.1) := mem_map_of_mem hg
      rw [of_decide_eq_true hk] at hin
      exact hnodup.1 hin
    rw [hsplit, filter_append, filter_cons_of_pos (by simp),
      filter_eq_nil_iff.2 fun g hg => hother g (mem_append_left _ hg),
      filter_eq_nil_iff.2 fun g hg => hother g (mem_append_right _ hg), nil_append]

theorem lookup_eq_head_filter [BEq γ] [LawfulBEq γ] (l : List (γ × β)) (k : γ) :
    l.lookup k = (l.filter fun g => g.1 = k).head?.map (·.2) := by
  induction l with
  | nil => rfl
  | cons g l ih =>
    rw [lookup_cons, filter_cons]
    by_cases hk : g.1 = k
    · simp [hk]
    · rw [if_neg (by simpa using hk), ← ih, beq_false_of_ne (Ne.symm hk)]

/-- Looking up what is made of the group of a key. -/
theorem lookup_groups [i : DecidableEq γ] [BEq γ] [LawfulBEq γ] (f : List α → β) (k : γ) :
    ((groups key l).map fun g => (g.1, f g.2)).lookup k =
      if (l.filter fun a => key a = k) = [] then none else some (f (l.filter fun a => key a = k)) := by
  obtain rfl : i = LinearOrder.toDecidableEq := Subsingleton.elim _ _
  have hfilter : (((groups key l).map fun g => (g.1, f g.2)).filter fun g => g.1 = k) =
      ((groups key l).filter fun g => g.1 = k).map fun g => (g.1, f g.2) := by
    rw [filter_map]
    rfl
  rw [lookup_eq_head_filter, hfilter, filter_groups]
  split <;> rfl

/-- **The groups are the list, rearranged.** -/
theorem perm_groups (key : α → γ) (l : List α) : ((groups key l).flatMap (·.2)).Perm l := by
  have hval : ∀ x ∈ groups key l, x.2 = l.filter fun a => key a = x.1 := fun x hx => (mem_groups.1 hx).1
  have hcov : ∀ a ∈ l, key a ∈ (groups key l).map (·.1) := by
    intro a ha
    rw [groups, (sortedEntries_keys _).mem_iff, ← AList.mem_keys, mem_groupFold]
    exact ⟨a, ha, rfl⟩
  have h := perm_flatMap_filter key groups_nodup hcov
  rw [flatMap_map] at h
  rw [flatMap_congr hval]
  exact h.symm

/-- Items that all have one key are one group. -/
theorem groups_of_const {k : γ} (hkey : ∀ a ∈ l, key a = k) :
    groups key l = if l = [] then [] else [(k, l)] := by
  have hall : ((groups key l).filter fun g => g.1 = k) = groups key l := by
    refine filter_eq_self.2 fun g hg => ?_
    obtain ⟨hval, hne⟩ := mem_groups.1 hg
    obtain ⟨a, ha⟩ := exists_mem_of_ne_nil _ hne
    rw [hval, mem_filter, decide_eq_true_eq] at ha
    exact decide_eq_true (ha.2.symm.trans (hkey a ha.1))
  have hself : (l.filter fun a => key a = k) = l :=
    filter_eq_self.2 fun a ha => decide_eq_true (hkey a ha)
  rw [← hall, filter_groups, hself]

/-- A grouping read in key order is the groups, each folded. -/
theorem sortedEntries_groupFold [i : DecidableEq γ] (c : β) (step : β → α → β) :
    sortedEntries (groupFold key (fun _ => c) step l) =
      (groups key l).map fun g => (g.1, g.2.foldl step c) := by
  obtain rfl : i = LinearOrder.toDecidableEq := Subsingleton.elim _ _
  have hlt : ((groups key l).map fun g => (g.1, g.2.foldl step c)).Pairwise fun x y => x.1 < y.1 :=
    pairwise_map.2 groups_lt
  have hmem : ∀ x, x ∈ sortedEntries (groupFold key (fun _ => c) step l) ↔
      x ∈ (groups key l).map fun g => (g.1, g.2.foldl step c) := by
    rintro ⟨k, b⟩
    rw [mem_sortedEntries, lookup_groupFold, mem_map]
    constructor
    · intro h
      cases hg : l.filter fun a => key a = k with
      | nil => rw [hg] at h; cases h
      | cons a as =>
        rw [hg, foldGroup, Option.some.injEq] at h
        exact ⟨(k, a :: as), mem_groups.2 ⟨hg.symm, by simp⟩, by rw [h]⟩
    · rintro ⟨⟨k', g⟩, hg, he⟩
      cases he
      obtain ⟨rfl, hne⟩ := mem_groups.1 hg
      obtain ⟨a, as, hcons⟩ := exists_cons_of_ne_nil hne
      rw [hcons, foldGroup]
  have hnodup : (sortedEntries (groupFold key (fun _ => c) step l)).Nodup :=
    (sortedEntries_lt _).imp fun h he => h.ne (congrArg Prod.fst he)
  have hperm := (perm_ext_iff_of_nodup hnodup (hlt.imp fun h he => h.ne (congrArg Prod.fst he))).2 hmem
  exact hperm.eq_of_pairwise
    (fun x y _ _ h h' => absurd (h.trans h') (lt_irrefl _)) (sortedEntries_lt _) hlt

end Sorted

/-! ### Parts and the items they were made from -/

section Parts

variable {R : β → List α → Prop} {parts : List β} {srcs : List (List α)}

/-- Every part has a list of items, and every list its part. -/
theorem forall₂_exists (h : List.Forall₂ R parts srcs) :
    (∀ p ∈ parts, ∃ src ∈ srcs, R p src) ∧ ∀ src ∈ srcs, ∃ p ∈ parts, R p src := by
  induction h with
  | nil => exact ⟨fun p hp => absurd hp not_mem_nil, fun src hsrc => absurd hsrc not_mem_nil⟩
  | @cons p src parts srcs hp _ ih =>
    refine ⟨fun p' hp' => ?_, fun src' hsrc' => ?_⟩
    · rcases mem_cons.1 hp' with rfl | hmem
      · exact ⟨src, mem_cons_self, hp⟩
      · obtain ⟨src', hsrc', hof⟩ := ih.1 p' hmem
        exact ⟨src', mem_cons_of_mem _ hsrc', hof⟩
    · rcases mem_cons.1 hsrc' with rfl | hmem
      · exact ⟨p, mem_cons_self, hp⟩
      · obtain ⟨p', hp', hof⟩ := ih.2 src' hmem
        exact ⟨p', mem_cons_of_mem _ hp', hof⟩

/-- The parts were made from the items, each used once. -/
def MadeBy (R : β → List α → Prop) (parts : List β) (items : List α) : Prop :=
  ∃ srcs, List.Forall₂ R parts srcs ∧ srcs.flatten.Perm items

namespace MadeBy

variable {parts' : List β} {items items' : List α}

theorem append (h : MadeBy R parts items) (h' : MadeBy R parts' items') :
    MadeBy R (parts ++ parts') (items ++ items') := by
  obtain ⟨srcs, hof, hperm⟩ := h
  obtain ⟨srcs', hof', hperm'⟩ := h'
  refine ⟨srcs ++ srcs', rel_append hof hof', ?_⟩
  rw [flatten_append]
  exact hperm.append hperm'

theorem perm (h : MadeBy R parts items) (hperm : items.Perm items') : MadeBy R parts items' := by
  obtain ⟨srcs, hof, hsrcs⟩ := h
  exact ⟨srcs, hof, hsrcs.trans hperm⟩

theorem imp {R' : β → List α → Prop} (h : MadeBy R parts items)
    (himp : ∀ p src, R p src → (∀ a ∈ src, a ∈ items) → R' p src) : MadeBy R' parts items := by
  obtain ⟨srcs, hof, hperm⟩ := h
  have hitems : ∀ src ∈ srcs, ∀ a ∈ src, a ∈ items := fun src hsrc a ha =>
    hperm.mem_iff.1 (mem_flatten.2 ⟨src, hsrc, ha⟩)
  refine ⟨srcs, ?_, hperm⟩
  clear hperm
  induction hof with
  | nil => exact .nil
  | cons hp _ ih =>
    exact .cons (himp _ _ hp (hitems _ mem_cons_self)) (ih fun src hsrc =>
      hitems src (mem_cons_of_mem _ hsrc))

/-- Every part has its items, … -/
theorem exists_src (h : MadeBy R parts items) {p : β} (hp : p ∈ parts) :
    ∃ src, R p src ∧ ∀ a ∈ src, a ∈ items := by
  obtain ⟨srcs, hof, hperm⟩ := h
  obtain ⟨src, hsrc, hR⟩ := (forall₂_exists hof).1 p hp
  exact ⟨src, hR, fun a ha => hperm.mem_iff.1 (mem_flatten.2 ⟨src, hsrc, ha⟩)⟩

/-- … and every item its part. -/
theorem exists_part (h : MadeBy R parts items) {a : α} (ha : a ∈ items) :
    ∃ p ∈ parts, ∃ src, R p src ∧ a ∈ src := by
  obtain ⟨srcs, hof, hperm⟩ := h
  obtain ⟨src, hsrc, hmem⟩ := mem_flatten.1 (hperm.mem_iff.2 ha)
  obtain ⟨p, hp, hR⟩ := (forall₂_exists hof).2 src hsrc
  exact ⟨p, hp, src, hR, hmem⟩

/-- The parts that are kept, when a part is kept exactly if its items are. -/
theorem filter (h : MadeBy R parts items) {keep : β → Bool} {keepItem : α → Bool}
    (hkeep : ∀ p ∈ parts, ∀ src, R p src → ∀ a ∈ src, a ∈ items → keepItem a = keep p) :
    MadeBy R (parts.filter keep) (items.filter keepItem) := by
  obtain ⟨srcs, hof, hperm⟩ := h
  have hitems : ∀ src ∈ srcs, ∀ a ∈ src, a ∈ items := fun src hsrc a ha =>
    hperm.mem_iff.1 (mem_flatten.2 ⟨src, hsrc, ha⟩)
  refine MadeBy.perm ?_ (hperm.filter keepItem)
  clear hperm
  induction hof with
  | nil => exact ⟨[], .nil, .nil⟩
  | @cons p src parts srcs hp _ ih =>
    obtain ⟨srcs', hof, hflat⟩ := ih (fun p' hp' => hkeep p' (mem_cons_of_mem _ hp'))
      fun src' hsrc' => hitems src' (mem_cons_of_mem _ hsrc')
    have hsame : ∀ a ∈ src, keepItem a = keep p := fun a ha =>
      hkeep p mem_cons_self src hp a ha (hitems src mem_cons_self a ha)
    rw [flatten_cons, filter_append]
    cases hk : keep p with
    | true =>
      refine ⟨src :: srcs', by rw [filter_cons_of_pos hk]; exact .cons hp hof, ?_⟩
      rw [flatten_cons, filter_eq_self.2 fun a ha => by rw [hsame a ha, hk]]
      exact hflat.append_left src
    | false =>
      refine ⟨srcs', by rw [filter_cons_of_neg (by simp [hk])]; exact hof, ?_⟩
      rw [filter_eq_nil_iff.2 fun a ha => by simp [hsame a ha, hk], nil_append]
      exact hflat

end MadeBy

end Parts

end UsageDb.Lib
