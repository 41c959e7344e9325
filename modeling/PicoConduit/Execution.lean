import PicoConduit.Inversion
import PicoConduit.Transducer

namespace PicoConduit
open Checked Heapless Utf8 Transducer
set_option autoImplicit true

theorem execute_eq_ok : execute s cmd = .ok (r, s') ↔
    ∃ a, cmd.operation.apply cmd.id s = .ok (a, s') ∧ r = a.respond cmd.id := by
  rw [execute_refines]
  cases h : cmd.operation.apply cmd.id s with
  | error q => simp [Operation.execute, h]
  | ok x => simp [Operation.execute, h, Prod.ext_iff, eq_comm, and_comm]

theorem execute_effect (h : execute s cmd = .ok (r, s')) :
    ∃ a, r = a.respond cmd.id ∧ cmd.operation.Effect cmd.id s a s' := by
  obtain ⟨a, ha, rfl⟩ := execute_eq_ok.1 h
  exact ⟨a, rfl, Operation.apply_effect ha⟩

theorem execute_due (h : execute s cmd = .ok (r, s')) :
    r = (cmd.operation.due s).respond cmd.id := by
  obtain ⟨a, ha, rfl⟩ := execute_eq_ok.1 h
  rw [Operation.apply_due ha]

/-- The only way to stop the device is a write that overruns the decoding buffer. -/
theorem execute_eq_error : execute s cmd = .error q ↔
    q = .index ∧ ∃ port ∈ cmd.operation.overruns, s.configured port := by
  rw [execute_refines, ← Operation.apply_eq_error cmd.id]
  cases h : cmd.operation.apply cmd.id s <;> simp [Operation.execute, h]

theorem execute_returns : (∃ r s', execute s cmd = .ok (r, s')) ↔
    ∀ port ∈ cmd.operation.overruns, ¬ s.configured port := by
  cases h : execute s cmd with
  | error q =>
    obtain ⟨-, port, hp, hc⟩ := execute_eq_error.1 h
    simp only [reduceCtorEq, exists_false, false_iff]
    exact fun hall => hall port hp hc
  | ok x =>
    refine ⟨fun _ port hp hc => ?_, fun _ => ⟨x.1, x.2, rfl⟩⟩
    have he := execute_eq_error.2 ⟨rfl, port, hp, hc⟩
    rw [h] at he
    cases he

/-- A command that is executed is not refused for its version. -/
theorem execute_unversioned (h : execute s cmd = .ok (r, s')) (he : r.error = some e) :
    e.ofVersion = false := by
  have hdue := execute_due h
  by_cases hop : cmd.operation = .reportConfig
  · rw [hop] at hdue
    rw [hdue] at he
    cases he
  · have hplain := (operation_asks cmd).due_plain s hop
    generalize cmd.operation.due s = a at hdue hplain
    rw [hdue] at he
    cases hplain with
    | done | version => cases he
    | refused hv =>
      cases he
      exact hv

theorem execute_id (h : execute s cmd = .ok (r, s')) : r.id = cmd.id := by
  obtain ⟨a, rfl, -⟩ := execute_effect h
  cases a <;> rfl

/-- A refused command leaves the state as it was. -/
theorem execute_unchanged (h : execute s cmd = .ok (r, s')) (hr : r.ok = false) : s' = s := by
  obtain ⟨a, rfl, he⟩ := execute_effect h
  cases a with
  | ok data => cases hr
  | error e => exact he.unchanged

/-- No command of a run writes a payload that the decoding buffer cannot hold to a port that was
configured from the start or that an earlier command of the run configures. -/
def NoOverrun (s : DeviceState) (cmds : List Command) : Prop :=
  ∀ pre cmd post, cmds = pre ++ cmd :: post → ∀ port ∈ cmd.operation.overruns,
    ¬ s.configured port ∧ ∀ c ∈ pre, port ∉ c.operation.configures

/-- Which ports are configured after a run depends on the commands alone. -/
theorem configured_after (h : Steps execute s cmds rs s') (port : Port) :
    s'.configured port ↔ s.configured port ∨ ∃ c ∈ cmds, port ∈ c.operation.configures := by
  have hstep : ∀ s cmd r s', execute s cmd = .ok (r, s') → ∀ port,
      s'.configured port ↔ s.configured port ∨ port ∈ cmd.operation.configures := by
    intro s cmd r s' he port
    obtain ⟨a, -, ha⟩ := execute_effect he
    exact ha.configured_iff port
  exact h.marked hstep port

/-- A run reaches its end exactly when it overruns no buffer. -/
theorem steps_execute_iff : (∃ rs s', Steps execute s cmds rs s') ↔ NoOverrun s cmds := by
  constructor
  · rintro ⟨rs, s', h⟩ pre cmd post rfl port hp
    obtain ⟨_, _, s₁, _, hpre, hrest⟩ := steps_append.1 h
    cases hrest with
    | cons hcmd hpost =>
      have hn := execute_returns.1 ⟨_, _, hcmd⟩ port hp
      rw [configured_after hpre port, not_or] at hn
      exact ⟨hn.1, fun c hc hport => hn.2 ⟨c, hc, hport⟩⟩
  · intro h
    rw [exists_steps_iff, along_iff]
    intro pre cmd post he rs s' hs
    rw [execute_returns]
    intro port hp hc
    obtain ⟨hn, hpre⟩ := h pre cmd post he port hp
    rcases (configured_after hs port).1 hc with hc | ⟨c, hcm, hc⟩
    · exact hn hc
    · exact hpre c hcm hc

/-- A refused command can be left out of a run: the other responses and the final state are
the same without it. -/
theorem steps_without_refused (h : Steps execute s (pre ++ cmd :: post) (os ++ r :: os') s')
    (hl : os.length = pre.length) (hr : r.ok = false) :
    Steps execute s (pre ++ post) (os ++ os') s' := by
  obtain ⟨os₁, os₂, s₁, he, hpre, hrest⟩ := steps_append.1 h
  obtain ⟨rfl, rfl⟩ := List.append_inj he (hl.trans hpre.length_eq.symm)
  cases hrest with
  | cons hcmd hpost =>
    obtain rfl := execute_unchanged hcmd hr
    exact hpre.append hpost

def Command.isReboot (cmd : Command) : Bool :=
  cmd.interface == some "system" && cmd.action == some "reboot_to_bootloader"

theorem operation_reboot (cmd : Command) : cmd.operation = .reboot ↔ cmd.isReboot = true := by
  simp only [Command.isReboot, Bool.and_eq_true, beq_iff_eq]
  constructor
  · intro h
    have hask := operation_asks cmd
    rw [h] at hask
    cases hask with
    | rebooting hi ha => exact ⟨hi, ha⟩
  · intro hx
    obtain ⟨hi, ha⟩ := hx
    simp only [Command.operation, validateRoute, hi, ha]
    rfl

/-- A device waits for its reboot exactly from the first reboot command on. -/
theorem execute_pendingReboot (h : execute s cmd = .ok (r, s')) :
    s'.pendingReboot = (s.pendingReboot || cmd.isReboot) := by
  obtain ⟨a, -, he⟩ := execute_effect h
  rw [Bool.eq_iff_iff, he.pendingReboot_iff, operation_reboot, Bool.or_eq_true]

end PicoConduit
