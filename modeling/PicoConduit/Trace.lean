import Mathlib.Data.List.Basic

namespace Trace
set_option autoImplicit true

/-- The runs of a system whose steps carry labels, the latest label first. -/
inductive Run (step : σ → ι → σ → Prop) (s₀ : σ) : List ι → σ → Prop
  | start : Run step s₀ [] s₀
  | next (h : Run step s₀ past s) (hs : step s x s') : Run step s₀ (x :: past) s'

variable {step : σ → ι → σ → Prop}

/-- A relation between past and state that every step extends holds at the end of a run. -/
theorem Run.relates {Rel : List ι → σ → Prop} (h : Run step s₀ past s) (hstart : Rel [] s₀)
    (hstep : ∀ past s x s', Rel past s → step s x s' → Rel (x :: past) s') : Rel past s := by
  induction h with
  | start => exact hstart
  | next _ hs ih => exact hstep _ _ _ _ ih hs

theorem Run.invariant {Inv : σ → Prop} (h : Run step s₀ past s) (hstart : Inv s₀)
    (hstep : ∀ s x s', Inv s → step s x s' → Inv s') : Inv s :=
  Run.relates h (hstart : (fun _ => Inv) [] s₀) fun _ s x s' => hstep s x s'

/-- A run is followed by another system, which does nothing at labels that it does not see. -/
theorem Run.simulate {step' : τ → κ → τ → Prop} (h : Run step s₀ past s) (R : σ → τ → Prop)
    (g : ι → Option κ) (hstart : R s₀ a₀)
    (hsome : ∀ s x s' a y, R s a → step s x s' → g x = some y → ∃ a', step' a y a' ∧ R s' a')
    (hnone : ∀ s x s' a, R s a → step s x s' → g x = none → R s' a) :
    ∃ a, Run step' a₀ (past.filterMap g) a ∧ R s a := by
  induction h with
  | start => exact ⟨a₀, .start, hstart⟩
  | @next _ _ x _ _ hs ih =>
    obtain ⟨a, hrun, hR⟩ := ih
    cases hx : g x with
    | none =>
      rw [List.filterMap_cons_none hx]
      exact ⟨a, hrun, hnone _ _ _ _ hR hs hx⟩
    | some y =>
      obtain ⟨a', hstep, hR'⟩ := hsome _ _ _ _ _ hR hs hx
      rw [List.filterMap_cons_some hx]
      exact ⟨a', .next hrun hstep, hR'⟩

/-- A run seen through maps of states and labels, where a step whose label is not seen changes
nothing that is. -/
theorem Run.project {step' : τ → κ → τ → Prop} (h : Run step s₀ past s) (f : σ → τ)
    (g : ι → Option κ) (hsome : ∀ s x s' y, step s x s' → g x = some y → step' (f s) y (f s'))
    (hnone : ∀ s x s', step s x s' → g x = none → f s' = f s) :
    Run step' (f s₀) (past.filterMap g) (f s) := by
  have hfollow : ∃ a, Run step' (f s₀) (past.filterMap g) a ∧ f s = a := by
    refine h.simulate (fun s a => f s = a) g rfl ?_ ?_
    · rintro s x s' _ y rfl hs hx
      exact ⟨_, hsome s x s' y hs hx, rfl⟩
    · rintro s x s' _ rfl hs hx
      exact hnone s x s' hs hx
  obtain ⟨_, hrun, rfl⟩ := hfollow
  exact hrun

theorem run_nil : Run step s₀ [] s ↔ s = s₀ := by
  constructor
  · rintro ⟨⟩
    rfl
  · rintro rfl
    exact .start

theorem run_cons : Run step s₀ (x :: past) s' ↔ ∃ s, Run step s₀ past s ∧ step s x s' := by
  constructor
  · rintro ⟨⟩
    exact ⟨_, ‹_›, ‹_›⟩
  · rintro ⟨s, h, hs⟩
    exact .next h hs

theorem run_append : Run step s₀ (later ++ past) s' ↔
    ∃ s, Run step s₀ past s ∧ Run step s later s' := by
  induction later generalizing s' with
  | nil => simp [run_nil]
  | cons x later ih =>
    simp only [List.cons_append, run_cons, ih]
    constructor
    · rintro ⟨t, ⟨s, hpast, hlater⟩, hs⟩
      exact ⟨s, hpast, t, hlater, hs⟩
    · rintro ⟨s, hpast, t, hlater, hs⟩
      exact ⟨t, ⟨s, hpast, hlater⟩, hs⟩

/-- The latest label of some kind, as far as it is of interest. -/
def latest (mark : ι → Option κ) (past : List ι) : Option κ := past.findSome? mark

@[simp] theorem latest_nil (mark : ι → Option κ) : latest mark [] = none := rfl

theorem latest_cons_of_some {mark : ι → Option κ} (h : mark x = some k) (past : List ι) :
    latest mark (x :: past) = some k := by
  rw [latest, List.findSome?_cons, h]

theorem latest_cons_of_none {mark : ι → Option κ} (h : mark x = none) (past : List ι) :
    latest mark (x :: past) = latest mark past := by
  rw [latest, List.findSome?_cons, h]
  rfl

theorem latest_append_of_none {mark : ι → Option κ} (h : ∀ x ∈ later, mark x = none)
    (past : List ι) : latest mark (later ++ past) = latest mark past := by
  induction later with
  | nil => rfl
  | cons x later ih =>
    rw [List.cons_append, latest_cons_of_none (h x List.mem_cons_self)]
    exact ih fun y hy => h y (List.mem_cons_of_mem x hy)

theorem mem_of_latest {mark : ι → Option κ} (h : latest mark past = some k) :
    ∃ x ∈ past, mark x = some k := List.exists_of_findSome?_eq_some h

end Trace
