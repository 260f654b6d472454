import Mathlib.Data.List.Infix

/-!
# Runs and their prefixes

Two rules that every argument about a system over time comes back to. `Run` is a
run of a labelled transition relation, one step after another; what holds at the
start and is kept by every step holds where the run ends (`Run.invariant`).

`EveryPrefix` is for a sequence of durable writes that may be cut anywhere: a
property of the store holds after every prefix of the sequence.
-/

namespace UsageDb.Lib

open List

universe u v w

variable {σ : Type u} {ι : Type v} {α : Type w}

/-- A run of the relation `step`, with the labels it took. -/
inductive Run (step : σ → ι → σ → Prop) : σ → List ι → σ → Prop where
  /-- No step. -/
  | nil (s : σ) : Run step s [] s
  /-- A run and one more step. -/
  | snoc {s t u : σ} {ls : List ι} {l : ι} : Run step s ls t → step t l u → Run step s (ls ++ [l]) u

/-- What holds at the start and is kept by every step holds at the end. -/
theorem Run.invariant {step : σ → ι → σ → Prop} {I : σ → Prop}
    (hstep : ∀ s l t, I s → step s l t → I t) {s t : σ} {ls : List ι} (hrun : Run step s ls t)
    (hs : I s) : I t := by
  induction hrun with
  | nil => exact hs
  | snoc _ h ih => exact hstep _ _ _ ih h

/-- What is seen of a run is a run. -/
theorem Run.map {step : σ → ι → σ → Prop} {τ : Type w} {step' : τ → ι → τ → Prop} (f : σ → τ)
    (h : ∀ s l t, step s l t → step' (f s) l (f t)) {s t : σ} {ls : List ι} (hrun : Run step s ls t) :
    Run step' (f s) ls (f t) := by
  induction hrun with
  | nil => exact .nil _
  | snoc _ hs ih => exact .snoc ih (h _ _ _ hs)

/-- Weaker steps, same run. -/
theorem Run.mono {step step' : σ → ι → σ → Prop} (h : ∀ s l t, step s l t → step' s l t) {s t : σ}
    {ls : List ι} (hrun : Run step s ls t) : Run step' s ls t := hrun.map id h

/-- The labels of a run are those of its steps. -/
theorem Run.labels {step : σ → ι → σ → Prop} {s t : σ} {ls : List ι} (hrun : Run step s ls t) :
    Run (fun a l b => step a l b ∧ l ∈ ls) s ls t := by
  induction hrun with
  | nil => exact .nil _
  | snoc _ hs ih =>
    refine .snoc (ih.mono fun _ _ _ h => ⟨h.1, mem_append_left _ h.2⟩) ⟨hs, ?_⟩
    exact mem_append_right _ mem_cons_self

/-- One step is a run. -/
theorem Run.single {step : σ → ι → σ → Prop} {s t : σ} {l : ι} (h : step s l t) :
    Run step s [l] t := .snoc (.nil s) h

/-- One run after another. -/
theorem Run.append {step : σ → ι → σ → Prop} {s t u : σ} {ls ls' : List ι} (hrun : Run step s ls t)
    (hrun' : Run step t ls' u) : Run step s (ls ++ ls') u := by
  induction hrun' with
  | nil => rwa [append_nil]
  | snoc _ hs ih =>
    rw [← append_assoc]
    exact .snoc ih hs

/-- The steps of a step function, one after another. -/
def runAll (next : σ → ι → Option σ) : σ → List ι → Option σ
  | s, [] => some s
  | s, l :: ls => (next s l).bind fun t => runAll next t ls

/-- What `runAll` computes is a run. -/
theorem Run.of_runAll {step : σ → ι → σ → Prop} {next : σ → ι → Option σ} {ls : List ι}
    (h : ∀ l ∈ ls, ∀ s t, next s l = some t → step s l t) {s t : σ} (hall : runAll next s ls = some t) :
    Run step s ls t := by
  induction ls generalizing s with
  | nil =>
    cases hall
    exact .nil _
  | cons l ls ih =>
    obtain ⟨u, hnext, hrest⟩ := Option.bind_eq_some_iff.1 hall
    exact Run.append (.single (h l (by simp) s u hnext)) (ih (fun l' hl' => h l' (by simp [hl'])) hrest)

/-- `P` holds of the store `s` after every prefix of the writes `ws`. -/
def EveryPrefix (apply : σ → ι → σ) (P : σ → Prop) (s : σ) (ws : List ι) : Prop :=
  ∀ k, P ((ws.take k).foldl apply s)

namespace EveryPrefix

variable {apply : σ → ι → σ} {P : σ → Prop} {s : σ}

theorem nil (h : P s) : EveryPrefix apply P s [] := fun k => by simpa using h

theorem cons {x : ι} {ws : List ι} (h : P s) (hw : EveryPrefix apply P (apply s x) ws) :
    EveryPrefix apply P s (x :: ws) := by
  intro k
  cases k with
  | zero => simpa using h
  | succ k => simpa using hw k

/-- The whole sequence is one of its prefixes. -/
theorem all {ws : List ι} (h : EveryPrefix apply P s ws) : P (ws.foldl apply s) := by
  simpa using h ws.length

theorem append {ws vs : List ι} (h : EveryPrefix apply P s ws)
    (h' : EveryPrefix apply P (ws.foldl apply s) vs) : EveryPrefix apply P s (ws ++ vs) := by
  intro k
  rw [take_append, foldl_append]
  by_cases hk : k ≤ ws.length
  · rw [Nat.sub_eq_zero_of_le hk]
    simpa using h k
  · rw [take_of_length_le (by omega)]
    exact h' _

/-- Writes that each keep `P` keep it after every prefix. -/
theorem of_forall {ws : List ι} (h : P s) (hw : ∀ t, ∀ x ∈ ws, P t → P (apply t x)) :
    EveryPrefix apply P s ws := by
  induction ws generalizing s with
  | nil => exact nil h
  | cons x ws ih =>
    exact cons h (ih (hw s x (by simp) h) fun t y hy => hw t y (by simp [hy]))

theorem mono {Q : σ → Prop} {ws : List ι} (hPQ : ∀ t, P t → Q t) (h : EveryPrefix apply P s ws) :
    EveryPrefix apply Q s ws := fun k => hPQ _ (h k)

end EveryPrefix

end UsageDb.Lib
