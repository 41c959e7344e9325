import PicoConduit.Execution

namespace PicoConduit
open Checked Heapless Utf8 Transducer
set_option autoImplicit true

/-- The inner commands of a batch; an absent list counts as an empty one. -/
def Command.inner (cmd : Command) : List CommandInner :=
  match cmd.commands with
  | none => []
  | some cmds => cmds.toList

/-- The batch loop collects the responses of the run, as long as there is room for them. -/
theorem dispatchInner_eq_ok (h : rs.toList.length + inners.length ≤ maxBatchSize) :
    dispatchInner rs s inners = .ok (rs', s') ↔
      ∃ os, Steps execute s (inners.map CommandInner.toCommand) os s' ∧
        rs'.toList = rs.toList ++ os := by
  induction inners generalizing rs s with
  | nil =>
    constructor
    · intro h
      cases h
      exact ⟨[], .nil, (List.append_nil _).symm⟩
    · intro hx
      obtain ⟨os, hs, he⟩ := hx
      cases hs
      rw [List.append_nil] at he
      rw [HVec.ext_toList he]
      rfl
  | cons c cs ih =>
    simp only [List.length_cons] at h
    simp only [dispatchInner, List.map_cons]
    cases hc : execute s c.toCommand with
    | error p =>
      simp only [error_bind, reduceCtorEq, false_iff]
      intro hx
      obtain ⟨os, hs, -⟩ := hx
      cases hs with
      | cons ho hr =>
        rw [hc] at ho
        cases ho
    | ok x =>
      obtain ⟨w, hw, hlist⟩ := HVec.push_of_lt (show rs.toList.length < maxBatchSize by omega) x.1
      simp only [ok_bind, hw, Option.getD_some]
      rw [ih (by rw [hlist, List.length_append, List.length_singleton]; omega)]
      constructor
      · intro hx
        obtain ⟨os, hs, he⟩ := hx
        exact ⟨x.1 :: os, .cons hc hs, by rw [he, hlist, List.append_assoc]; rfl⟩
      · intro hx
        obtain ⟨os, hs, he⟩ := hx
        cases hs with
        | cons ho hr =>
          rw [hc] at ho
          cases ho
          exact ⟨_, hr, by rw [he, hlist, List.append_assoc]; rfl⟩

theorem Command.inner_of_some {cmd : Command} (hc : cmd.commands = some cmds) :
    cmd.inner = cmds.toList := by
  simp only [Command.inner, hc]

theorem Command.inner_of_none {cmd : Command} (hc : cmd.commands = none) : cmd.inner = [] := by
  simp only [Command.inner, hc]

theorem dispatchBatch_empty (h : cmd.inner = []) :
    dispatchBatch s cmd = .ok (⟨cmd.id, false, .empty, some .batchEmpty⟩, s) := by
  cases hc : cmd.commands with
  | none => simp only [dispatchBatch, hc, pure_eq]
  | some cmds =>
    rw [Command.inner_of_some hc] at h
    simp only [dispatchBatch, hc, h, List.isEmpty_nil, ↓reduceIte, pure_eq]

theorem dispatchBatch_tooLarge (h : maxBatchSize < cmd.inner.length) :
    dispatchBatch s cmd = .ok (⟨cmd.id, false, .empty, some .batchTooLarge⟩, s) := by
  cases hc : cmd.commands with
  | none =>
    rw [Command.inner_of_none hc] at h
    cases h
  | some cmds =>
    rw [Command.inner_of_some hc] at h
    have hne : cmds.toList.isEmpty = false := by
      rw [List.isEmpty_eq_false_iff, ← List.length_pos_iff]
      omega
    simp only [dispatchBatch, hc, hne, HVec.length_eq, h, Bool.false_eq_true, ↓reduceIte, pure_eq]

theorem dispatchBatch_eq_ok (h₁ : 1 ≤ cmd.inner.length) (h₂ : cmd.inner.length ≤ maxBatchSize) :
    dispatchBatch s cmd = .ok (b, s') ↔
      (b.id = cmd.id ∧ b.ok = true ∧ b.error = none) ∧
        Steps execute s (cmd.inner.map CommandInner.toCommand) b.responses.toList s' := by
  obtain ⟨cmds, hc, hi⟩ : ∃ cmds, cmd.commands = some cmds ∧ cmd.inner = cmds.toList := by
    cases hc : cmd.commands with
    | none =>
      rw [Command.inner_of_none hc] at h₁
      cases h₁
    | some cmds => exact ⟨cmds, rfl, Command.inner_of_some hc⟩
  rw [hi] at h₁ h₂ ⊢
  have hne : cmds.toList.isEmpty = false := by
    rw [List.isEmpty_eq_false_iff, ← List.length_pos_iff]
    exact h₁
  have hspec : dispatchInner .empty s cmds.toList = .ok (b.responses, s') ↔
      Steps execute s (cmds.toList.map CommandInner.toCommand) b.responses.toList s' := by
    rw [dispatchInner_eq_ok (by simpa using h₂)]
    simp only [HVec.empty_toList, List.nil_append, exists_eq_right']
  rw [← hspec]
  simp only [dispatchBatch, hc, hne, HVec.length_eq, Nat.not_lt.2 h₂, Bool.false_eq_true,
    ↓reduceIte]
  cases dispatchInner .empty s cmds.toList with
  | error p => simp
  | ok x =>
    obtain ⟨id, ok, responses, error⟩ := b
    simp only [ok_bind, pure_eq, Except.ok.injEq, Prod.ext_iff, BatchResponse.mk.injEq]
    tauto

/-- A batch is the left fold of the execution of its inner commands. -/
structure BatchFolds (s : DeviceState) (cmd : Command) : Prop where
  folded : 1 ≤ cmd.inner.length → cmd.inner.length ≤ maxBatchSize →
    ∃ b s', dispatchBatch s cmd = .ok (b, s') ∧
      (b.id = cmd.id ∧ b.ok = true ∧ b.error = none) ∧
      b.responses.toList.length = cmd.inner.length ∧
      b.responses.toList.map (·.id) = cmd.inner.map (·.id) ∧
      Steps execute s (cmd.inner.map CommandInner.toCommand) b.responses.toList s' ∧
      ∀ pre c post os r os', cmd.inner = pre ++ c :: post →
        b.responses.toList = os ++ r :: os' → os.length = pre.length → r.ok = false →
        Steps execute s ((pre ++ post).map CommandInner.toCommand) (os ++ os') s'
  nested : ∀ c ∈ cmd.inner, c.interface = some "batch" → c.action = some "run" →
    ∀ s, execute s c.toCommand = .ok (.failure c.id .unknownInterface, s)
  empty : cmd.inner = [] →
    dispatchBatch s cmd = .ok (⟨cmd.id, false, .empty, some .batchEmpty⟩, s)
  tooLarge : maxBatchSize < cmd.inner.length →
    dispatchBatch s cmd = .ok (⟨cmd.id, false, .empty, some .batchTooLarge⟩, s)

theorem execute_batch_run (hi : cmd.interface = some "batch") (ha : cmd.action = some "run") :
    execute s cmd = .ok (.failure cmd.id .unknownInterface, s) := by
  simp only [execute, validateRoute, hi, ha]
  rfl

theorem steps_ids (h : Steps execute s cmds rs s') : rs.map (·.id) = cmds.map (·.id) := by
  induction h with
  | nil => rfl
  | cons ho hr ih => rw [List.map_cons, List.map_cons, ih, execute_id ho]

/-- A batch folds exactly when none of its inner commands overruns the decoding buffer. -/
theorem batch_folds_iff (s : DeviceState) (cmd : Command) :
    BatchFolds s cmd ↔ (cmd.inner.length ≤ maxBatchSize →
      NoOverrun s (cmd.inner.map CommandInner.toCommand)) := by
  constructor
  · intro h hn
    rw [← steps_execute_iff]
    cases hc : cmd.inner with
    | nil => exact ⟨[], s, .nil⟩
    | cons c cs =>
      have h₁ : 1 ≤ cmd.inner.length := by simp [hc]
      obtain ⟨b, s', -, -, -, -, hs, -⟩ := h.folded h₁ hn
      rw [hc] at hs
      exact ⟨_, _, hs⟩
  · intro h
    refine ⟨fun h₁ h₂ => ?_, fun c _ hi ha s => execute_batch_run hi ha, dispatchBatch_empty,
      dispatchBatch_tooLarge⟩
    obtain ⟨rs, s', hs⟩ := steps_execute_iff.2 (h h₂)
    have hlen : rs.length = cmd.inner.length := by rw [hs.length_eq, List.length_map]
    refine ⟨⟨cmd.id, true, ⟨rs, by omega⟩, none⟩, s',
      (dispatchBatch_eq_ok h₁ h₂).2 ⟨⟨rfl, rfl, rfl⟩, hs⟩, ⟨rfl, rfl, rfl⟩, hlen, ?_, hs, ?_⟩
    · rw [steps_ids hs, List.map_map]
      rfl
    · intro pre c post os r os' hc hr hl hok
      simp only at hr
      rw [hc, hr, List.map_append, List.map_cons] at hs
      rw [List.map_append]
      exact steps_without_refused hs (by rw [hl, List.length_map]) hok

/-- A device whose first serial port has been configured. -/
def configuredState : DeviceState := (DeviceState.default false).store (indexOf 0) (.uart {})

def overrunInner : CommandInner where
  version := some 1
  id := "w"
  interface := some "uart"
  action := some "write"
  uart := some 0
  bytes := some (String.ofList (List.replicate 684 'A'))

def overrunBatch : Command where
  version := some 1
  id := "b"
  interface := some "batch"
  action := some "run"
  commands := some ⟨[overrunInner], by decide⟩

theorem overrunInner_overruns : .uart 0 ∈ overrunInner.toCommand.operation.overruns := by
  have ho : overrunInner.toCommand.operation =
      .write (.uart 0) (.ok ()) (some (String.ofList (List.replicate 684 'A'))) := rfl
  rw [ho, Operation.overruns_write (overlong_replicate (Nat.le_refl 684))]
  rfl

theorem overrunBatch_not_folds : ¬ BatchFolds configuredState overrunBatch := by
  intro h
  obtain ⟨b, s', -, -, -, -, hs, -⟩ := h.folded (by decide) (by decide)
  have hn := steps_execute_iff.1 ⟨_, _, hs⟩ [] _ [] rfl (.uart 0) overrunInner_overruns
  exact hn.1 rfl

end PicoConduit
