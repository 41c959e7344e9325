import PicoConduit.Trace
import PicoConduit.Transducer

namespace Calls
open Trace Transducer
set_option autoImplicit true

/-- A call, or the return from it. -/
inductive Act (ι : Type u) (ω : Type v)
  | call (x : ι)
  | ret (o : ω)
  deriving DecidableEq

def Act.argument : Act ι ω → Option ι
  | .call x => some x
  | .ret _ => none

def Act.answer : Act ι ω → Option ω
  | .call _ => none
  | .ret o => some o

/-- A caller of a step function that waits for each answer; the step takes effect when its answer
is returned. -/
inductive Step (step : σ → ι → Except ε (ω × σ)) : σ × Option ι → Act ι ω → σ × Option ι → Prop
  | call : Step step (s, none) (.call x) (s, some x)
  | ret (h : step s x = .ok (o, s')) : Step step (s, some x) (.ret o) (s', none)

/-- The arguments of the calls, from the first one on. -/
def arguments (past : List (Act ι ω)) : List ι := (past.filterMap Act.argument).reverse

def answers (past : List (Act ι ω)) : List ω := (past.filterMap Act.answer).reverse

@[simp] theorem arguments_call (x : ι) (past : List (Act ι ω)) :
    arguments (.call x :: past) = arguments past ++ [x] := List.reverse_cons

@[simp] theorem arguments_ret (o : ω) (past : List (Act ι ω)) :
    arguments (.ret o :: past) = arguments past := rfl

@[simp] theorem answers_call (x : ι) (past : List (Act ι ω)) :
    answers (.call x :: past) = answers past := rfl

@[simp] theorem answers_ret (o : ω) (past : List (Act ι ω)) :
    answers (.ret o :: past) = answers past ++ [o] := List.reverse_cons

/-- The calls that have returned are a run of the step function, and at most one has not. -/
def Served (step : σ → ι → Except ε (ω × σ)) (s₀ : σ) (past : List (Act ι ω))
    (x : σ × Option ι) : Prop :=
  ∃ xs, arguments past = xs ++ x.2.toList ∧ Steps step s₀ xs (answers past) x.1

theorem run_served {step : σ → ι → Except ε (ω × σ)} (h : Run (Step step) (s₀, none) past x) :
    Served step s₀ past x := by
  induction h with
  | start => exact ⟨[], rfl, .nil⟩
  | next _ hs ih =>
    obtain ⟨xs, hcalls, hsteps⟩ := ih
    cases hs with
    | call =>
      refine ⟨xs, ?_, hsteps⟩
      rw [arguments_call, hcalls]
      simp
    | @ret s x o s' hstep =>
      refine ⟨xs ++ [x], ?_, ?_⟩
      · rw [arguments_ret, hcalls]
        simp
      · rw [answers_ret]
        exact hsteps.append (steps_singleton.2 ⟨o, rfl, hstep⟩)

end Calls
