import Mathlib.Data.List.Basic

namespace Transducer
set_option autoImplicit true

/-- Feed inputs to a step function that answers each of them or fails for good. -/
def run (step : σ → ι → Except ε (ω × σ)) : σ → List ι → Except ε (List ω × σ)
  | s, [] => .ok ([], s)
  | s, x :: xs =>
    match step s x with
    | .error e => .error e
    | .ok (o, s') =>
      match run step s' xs with
      | .error e => .error e
      | .ok (os, s'') => .ok (o :: os, s'')

/-- A run without failure, with the answer to each input in the state its predecessors left. -/
inductive Steps (step : σ → ι → Except ε (ω × σ)) : σ → List ι → List ω → σ → Prop
  | nil : Steps step s [] [] s
  | cons (h : step s x = .ok (o, s')) (hr : Steps step s' xs os s'') :
      Steps step s (x :: xs) (o :: os) s''

variable {step : σ → ι → Except ε (ω × σ)} {P Q : σ → ι → Prop} {Inv : σ → Prop}

theorem run_eq_ok : run step s xs = .ok (os, s') ↔ Steps step s xs os s' := by
  constructor
  · intro h
    induction xs generalizing s os with
    | nil =>
      simp only [run, Except.ok.injEq, Prod.mk.injEq] at h
      obtain ⟨rfl, rfl⟩ := h
      exact .nil
    | cons x xs ih =>
      simp only [run] at h
      split at h
      · cases h
      · rename_i o s₁ hs
        split at h
        · cases h
        · rename_i os₁ s₂ hr
          simp only [Except.ok.injEq, Prod.mk.injEq] at h
          obtain ⟨rfl, rfl⟩ := h
          exact .cons hs (ih hr)
  · intro h
    induction h with
    | nil => rfl
    | cons hs hr ih => simp only [run, hs, ih]

theorem run_ne_error : (∀ e, run step s xs ≠ .error e) ↔ ∃ os s', Steps step s xs os s' := by
  cases h : run step s xs with
  | error e =>
    simp only [ne_eq, Except.error.injEq, forall_eq', false_iff]
    intro hx
    obtain ⟨os, s', hr⟩ := hx
    rw [run_eq_ok.2 hr] at h
    cases h
  | ok x =>
    simp only [ne_eq, reduceCtorEq, not_false_eq_true, implies_true, true_iff]
    exact ⟨x.1, x.2, run_eq_ok.1 h⟩

theorem Steps.length_eq (h : Steps step s xs os s') : os.length = xs.length := by
  induction h with
  | nil => rfl
  | cons hs hr ih => simp only [List.length_cons, ih]

theorem Steps.deterministic (h : Steps step s xs os s') (h' : Steps step s xs os' s'') :
    os = os' ∧ s' = s'' := by
  have he := (run_eq_ok.2 h).symm.trans (run_eq_ok.2 h')
  simpa only [Except.ok.injEq, Prod.mk.injEq] using he

theorem Steps.append (h : Steps step s xs os s') (h' : Steps step s' ys os' s'') :
    Steps step s (xs ++ ys) (os ++ os') s'' := by
  induction h with
  | nil => exact h'
  | cons hs hr ih => exact .cons hs (ih h')

theorem steps_append : Steps step s (xs ++ ys) zs s'' ↔
    ∃ os os' s', zs = os ++ os' ∧ Steps step s xs os s' ∧ Steps step s' ys os' s'' := by
  constructor
  · intro h
    induction xs generalizing s zs with
    | nil => exact ⟨[], zs, s, rfl, .nil, h⟩
    | cons x xs ih =>
      cases h with
      | cons hs hr =>
        obtain ⟨os, os', s', rfl, hx, hy⟩ := ih hr
        exact ⟨_, os', s', rfl, .cons hs hx, hy⟩
  · intro hex
    obtain ⟨os, os', s', rfl, hx, hy⟩ := hex
    exact hx.append hy

theorem steps_singleton : Steps step s [x] os s' ↔ ∃ o, os = [o] ∧ step s x = .ok (o, s') := by
  constructor
  · intro h
    cases h with
    | cons hs hr => cases hr; exact ⟨_, rfl, hs⟩
  · intro hx
    obtain ⟨o, rfl, hs⟩ := hx
    exact .cons hs .nil

/-- The condition holds of every input in the state that meets it, up to a first failure. -/
def Along (step : σ → ι → Except ε (ω × σ)) (P : σ → ι → Prop) : σ → List ι → Prop
  | _, [] => True
  | s, x :: xs => P s x ∧ ∀ o s', step s x = .ok (o, s') → Along step P s' xs

theorem along_iff : Along step P s xs ↔
    ∀ pre x post, xs = pre ++ x :: post → ∀ os s', Steps step s pre os s' → P s' x := by
  induction xs generalizing s with
  | nil => simp [Along]
  | cons y ys ih =>
    simp only [Along, ih]
    constructor
    · rintro ⟨hy, hys⟩ pre x post he os s' hr
      cases hr with
      | nil =>
        obtain ⟨rfl, rfl⟩ := List.cons.inj he
        exact hy
      | cons hs hr =>
        obtain ⟨rfl, rfl⟩ := List.cons.inj he
        exact hys _ _ hs _ _ _ rfl _ _ hr
    · intro h
      refine ⟨h [] y ys rfl [] s .nil, ?_⟩
      rintro o s' hs pre x post rfl os s'' hr
      exact h (y :: pre) x post rfl _ _ (.cons hs hr)

theorem Along.mono (h : Along step P s xs) (hPQ : ∀ s x, P s x → Q s x) : Along step Q s xs := by
  rw [along_iff] at h ⊢
  exact fun pre x post he os s' hr => hPQ _ _ (h pre x post he os s' hr)

theorem Along.take (h : Along step P s (xs ++ ys)) : Along step P s xs := by
  rw [along_iff] at h ⊢
  rintro pre x post rfl os s' hr
  exact h pre x (post ++ ys) (List.append_assoc _ _ _) os s' hr

/-- Two conditions agree along a run if they agree wherever an invariant holds that the
second condition preserves. -/
theorem along_congr (hPQ : ∀ s x, Inv s → (P s x ↔ Q s x))
    (hstep : ∀ s x o s', Inv s → Q s x → step s x = .ok (o, s') → Inv s') (hs : Inv s) :
    Along step P s xs ↔ Along step Q s xs := by
  induction xs generalizing s with
  | nil => exact Iff.rfl
  | cons x xs ih =>
    simp only [Along, hPQ s x hs]
    apply and_congr_right
    intro hq
    exact forall_congr' fun o => forall_congr' fun s' => imp_congr_right fun ho =>
      ih (hstep s x o s' hs hq ho)

theorem Steps.invariant (h : Steps step s xs os s') (hP : Along step P s xs)
    (hstep : ∀ s x o s', Inv s → P s x → step s x = .ok (o, s') → Inv s') (hs : Inv s) :
    Inv s' := by
  induction h with
  | nil => exact hs
  | cons ho hr ih => exact ih (hP.2 _ _ ho) (hstep _ _ _ _ hs hP.1 ho)

/-- A run reaches its end exactly when no step along it fails. -/
theorem exists_steps_iff : (∃ os s', Steps step s xs os s') ↔
    Along step (fun s x => ∃ o s', step s x = .ok (o, s')) s xs := by
  induction xs generalizing s with
  | nil => exact ⟨fun _ => trivial, fun _ => ⟨[], s, .nil⟩⟩
  | cons x xs ih =>
    constructor
    · intro hx
      obtain ⟨os, s', hr⟩ := hx
      cases hr with
      | cons ho hr =>
        refine ⟨⟨_, _, ho⟩, ?_⟩
        intro o s₁ ho'
        obtain ⟨rfl, rfl⟩ := Prod.mk.inj (Except.ok.inj (ho.symm.trans ho'))
        exact ih.1 ⟨_, _, hr⟩
    · intro hx
      obtain ⟨⟨o, s₁, ho⟩, hr⟩ := hx
      obtain ⟨os, s', h⟩ := ih.2 (hr _ _ ho)
      exact ⟨_, _, .cons ho h⟩

/-- A condition that each step decides by its answer holds along a run exactly when it holds of
all the answers. -/
theorem Steps.along_iff {R : ω → Prop} (h : Steps step s xs os s')
    (hP : ∀ s x o s', step s x = .ok (o, s') → (P s x ↔ R o)) :
    Along step P s xs ↔ ∀ o ∈ os, R o := by
  induction h with
  | nil => simp [Along]
  | cons ho hr ih =>
    rw [List.forall_mem_cons, ← hP _ _ _ _ ho, ← ih]
    refine and_congr_right fun _ => ⟨fun h => h _ _ ho, fun h o s' ho' => ?_⟩
    obtain ⟨rfl, rfl⟩ := Prod.mk.inj (Except.ok.inj (ho.symm.trans ho'))
    exact h

theorem Steps.forall₂ {R : ι → ω → Prop} (h : Steps step s xs os s')
    (hR : ∀ s x o s', step s x = .ok (o, s') → R x o) : List.Forall₂ R xs os := by
  induction h with
  | nil => exact .nil
  | cons ho hr ih => exact .cons (hR _ _ _ _ ho) ih

/-- A mark that steps only ever add is set at the end of a run exactly when it was set at the
start or some input of the run sets it. -/
theorem Steps.marked {mark : σ → κ → Prop} {sets : ι → κ → Prop}
    (h : Steps step s xs os s')
    (hstep : ∀ s x o s', step s x = .ok (o, s') → ∀ k, mark s' k ↔ mark s k ∨ sets x k) (k : κ) :
    mark s' k ↔ mark s k ∨ ∃ x ∈ xs, sets x k := by
  induction h with
  | nil => simp
  | cons ho hr ih =>
    rw [ih, hstep _ _ _ _ ho k]
    simp only [List.exists_mem_cons_iff, or_assoc]

theorem along_true : Along step (fun _ _ => True) s xs := by
  rw [along_iff]
  intros
  trivial

/-- A relation between the exchanges so far and the state, which every step that meets the
condition extends, holds of the exchanges of a run along which the condition holds. -/
theorem Steps.history_along (h : Steps step s xs os s') (hP : Along step P s xs)
    (Rel : List (ι × ω) → σ → Prop)
    (hstep : ∀ past s x o s', Rel past s → P s x → step s x = .ok (o, s') →
      Rel (past ++ [(x, o)]) s')
    (hs : Rel past s) : Rel (past ++ xs.zip os) s' := by
  induction h generalizing past with
  | nil => rwa [List.zip_nil_left, List.append_nil]
  | cons ho hr ih =>
    have hnext := ih (hP.2 _ _ ho) (hstep past _ _ _ _ hs hP.1 ho)
    rwa [List.append_assoc] at hnext

theorem Steps.history (h : Steps step s xs os s') (Rel : List (ι × ω) → σ → Prop)
    (hstep : ∀ past s x o s', Rel past s → step s x = .ok (o, s') → Rel (past ++ [(x, o)]) s')
    (hs : Rel past s) : Rel (past ++ xs.zip os) s' :=
  h.history_along along_true Rel (fun past s x o s' hr _ => hstep past s x o s' hr) hs

/-- If the condition is what one step needs to keep a relation between past and state, then the
relation holds in every state of a run exactly when the condition holds along it. -/
theorem always_iff (Rel : List (ι × ω) → σ → Prop)
    (hstep : ∀ past s x o s', Rel past s → step s x = .ok (o, s') →
      (Rel (past ++ [(x, o)]) s' ↔ P s x))
    (hfail : ∀ s x e, step s x = .error e → P s x) (hs : Rel [] s) :
    (∀ pre post os s', xs = pre ++ post → Steps step s pre os s' → Rel (pre.zip os) s') ↔
      Along step P s xs := by
  constructor
  · intro h
    rw [along_iff]
    intro pre x post he os s' hr
    cases hx : step s' x with
    | error e => exact hfail s' x e hx
    | ok y =>
      have hrel := h pre (x :: post) os s' he hr
      have hnext := h (pre ++ [x]) post (os ++ [y.1]) y.2 (by rw [he, List.append_assoc]; rfl)
        (hr.append (steps_singleton.2 ⟨y.1, rfl, hx⟩))
      rw [List.zip_append hr.length_eq.symm] at hnext
      exact (hstep _ _ _ _ _ hrel hx).1 hnext
  · intro h pre post os s' he hr
    rw [he] at h
    exact hr.history_along h.take Rel (fun past s x o s' hrel hp ho =>
      (hstep past s x o s' hrel ho).2 hp) hs

theorem Steps.split (h : Steps step s xs os s') (he : xs.zip os = pre ++ (x, o) :: post) :
    ∃ t t', Steps step s (pre.map Prod.fst) (pre.map Prod.snd) t ∧ step t x = .ok (o, t') ∧
      Steps step t' (post.map Prod.fst) (post.map Prod.snd) s' := by
  have hxs : xs = (pre ++ (x, o) :: post).map Prod.fst := by
    rw [← he, List.map_fst_zip (Nat.le_of_eq h.length_eq.symm)]
  have hos : os = (pre ++ (x, o) :: post).map Prod.snd := by
    rw [← he, List.map_snd_zip (Nat.le_of_eq h.length_eq)]
  rw [hxs, hos, List.map_append, List.map_append, List.map_cons, List.map_cons] at h
  obtain ⟨os₁, os₂, t, hsplit, hpre, hrest⟩ := steps_append.1 h
  have hlen : (pre.map Prod.snd).length = os₁.length := by
    rw [hpre.length_eq, List.length_map, List.length_map]
  obtain ⟨rfl, rfl⟩ := List.append_inj hsplit hlen
  cases hrest with
  | cons ho hpost => exact ⟨t, _, hpre, ho, hpost⟩

section Blocks
variable {block : κ → List ι} {bigStep : σ → κ → Except ε (υ × σ)}

/-- Inputs grouped into blocks that are executed one after the other. -/
def RunsBlocks (step : σ → ι → Except ε (ω × σ)) (block : κ → List ι)
    (bigStep : σ → κ → Except ε (υ × σ)) : Prop :=
  ∀ s b s', (∃ u, bigStep s b = .ok (u, s')) ↔ ∃ os, Steps step s (block b) os s'

theorem RunsBlocks.steps_iff (hb : RunsBlocks step block bigStep) :
    (∃ us, Steps bigStep s bs us s') ↔ ∃ os, Steps step s (bs.flatMap block) os s' := by
  induction bs generalizing s with
  | nil =>
    constructor
    · intro h
      obtain ⟨us, hr⟩ := h
      cases hr
      exact ⟨[], .nil⟩
    · intro h
      obtain ⟨os, hr⟩ := h
      cases hr
      exact ⟨[], .nil⟩
  | cons b bs ih =>
    rw [List.flatMap_cons]
    constructor
    · intro h
      obtain ⟨us, hr⟩ := h
      cases hr with
      | cons ho hr =>
        obtain ⟨os, hx⟩ := (hb _ _ _).1 ⟨_, ho⟩
        obtain ⟨os', hy⟩ := ih.1 ⟨_, hr⟩
        exact ⟨_, hx.append hy⟩
    · intro h
      obtain ⟨zs, hr⟩ := h
      obtain ⟨os, os', s₁, rfl, hx, hy⟩ := steps_append.1 hr
      obtain ⟨u, ho⟩ := (hb _ _ _).2 ⟨_, hx⟩
      obtain ⟨us, hr⟩ := ih.2 ⟨_, hy⟩
      exact ⟨_, .cons ho hr⟩

theorem Steps.blocks {answers : υ → List ω}
    (hb : ∀ s b u s', bigStep s b = .ok (u, s') → Steps step s (block b) (answers u) s')
    (h : Steps bigStep s bs us s') : Steps step s (bs.flatMap block) (us.flatMap answers) s' := by
  induction h with
  | nil => exact .nil
  | cons ho hr ih =>
    rw [List.flatMap_cons, List.flatMap_cons]
    exact (hb _ _ _ _ ho).append ih

end Blocks

end Transducer
