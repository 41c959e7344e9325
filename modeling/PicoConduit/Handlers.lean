import PicoConduit.Operation

namespace PicoConduit
open Checked Heapless Utf8
set_option autoImplicit true

variable {id : String} {cmd : Command} {α β κ : Type}

def UartParity.text : UartParity → String
  | .none => "none"
  | .odd => "odd"
  | .even => "even"

/-- The parameters are those a configure command gives, with the defaults for what it omits. -/
def Setting.Requested (cmd : Command) : Setting → Prop
  | .uart cfg => cmd.baud = some cfg.baud ∧ cfg.dataBits = cmd.dataBits.getD 8 ∧
      cfg.parity.text = cmd.parity.getD "none" ∧ cfg.stopBits = cmd.stopBits.getD 1
  | .spi cfg => cmd.freqHz = some cfg.freqHz ∧ cfg.cpol = cmd.cpol.getD 0 ∧
      cfg.cpha = cmd.cpha.getD 0
  | .i2c cfg => cmd.freqHz = some cfg.freqHz

/-- The parameters lie in the ranges of their bus. -/
def Setting.InRange : Setting → Prop
  | .uart cfg => 0 < cfg.baud ∧ (cfg.dataBits = 7 ∨ cfg.dataBits = 8) ∧
      (cfg.stopBits = 1 ∨ cfg.stopBits = 2)
  | .spi cfg => 0 < cfg.freqHz ∧ cfg.cpol ≤ 1 ∧ cfg.cpha ≤ 1
  | .i2c cfg => cfg.freqHz = 100000 ∨ cfg.freqHz = 400000

/-- The error is one of those with which the version check refuses a command. -/
def ErrorCode.ofVersion : ErrorCode → Bool
  | .missingVersion | .unsupportedVersion => true
  | _ => false

/-- What a check or a handler accepts satisfies the condition, and whatever it refuses is an
error response under the given id, with an error that is not about the version. -/
def Handles (id : String) (Q : α → Prop) : Except Response α → Prop
  | .ok x => Q x
  | .error r => ∃ e, e.ofVersion = false ∧ r = .failure id e

theorem Handles.failure {Q : α → Prop} (he : e.ofVersion = false) :
    Handles id Q (.error (.failure id e)) := ⟨e, he, rfl⟩

theorem Handles.bind {m : Except Response α} {f : α → Except Response β} (hm : Handles id P m)
    (hf : ∀ x, P x → Handles id Q (f x)) : Handles id Q (m >>= f) := by
  cases m with
  | error r => exact hm
  | ok x => exact hf x hm

theorem Handles.mono {m : Except Response α} (hm : Handles id P m) (h : ∀ x, P x → Q x) :
    Handles id Q m := by
  cases m with
  | error r => exact hm
  | ok x => exact h x hm

theorem Handles.answer {m : Except Response α} (hm : Handles id Q m) (h : m = .error r) :
    r.answer.respond id = r := by
  subst h
  obtain ⟨e, -, rfl⟩ := hm
  rfl

theorem validateIndex_handles (cmd : Command) (field : Option UInt8) (limit : UInt8) :
    Handles cmd.id (fun idx => field = some idx ∧ idx ≤ limit)
      (validateIndex cmd field limit) := by
  simp only [validateIndex]
  split
  · exact .failure rfl
  · split
    · exact .failure rfl
    · exact ⟨rfl, UInt8.not_lt.1 ‹_›⟩

theorem requireField_handles {valid : α → Bool} :
    Handles cmd.id (fun v => field = some v ∧ valid v = true) (requireField cmd field valid) := by
  simp only [requireField]
  split
  · split
    · exact ⟨rfl, ‹_›⟩
    · exact .failure rfl
  · exact .failure rfl

theorem fieldOr_handles {valid : α → Bool} (hd : valid d = true) :
    Handles cmd.id (fun v => v = field.getD d ∧ valid v = true) (fieldOr cmd d field valid) := by
  simp only [fieldOr]
  split
  · split
    · exact ⟨rfl, ‹_›⟩
    · exact .failure rfl
  · exact ⟨rfl, hd⟩

theorem Uart.parseParity_handles :
    Handles cmd.id (fun p => p.text = cmd.parity.getD "none") (Uart.parseParity cmd) := by
  simp only [Uart.parseParity]
  split
  · rename_i h
    rw [h]
    rfl
  · rename_i h
    rw [h]
    rfl
  · rename_i h
    rw [h]
    rfl
  · rename_i h
    rw [h]
    rfl
  · exact .failure rfl

/-- What a configure handler accepts: an index of the bus, and parameters that the command
requests, within their ranges, marked as configured. -/
structure Accepts (cmd : Command) (field : Option UInt8) (setting : Setting) (configured : Bool) :
    Prop where
  index : ∃ idx, field = some idx ∧ idx ≤ 1
  requested : setting.Requested cmd
  inRange : setting.InRange
  marked : configured = true

theorem Uart.handleConfigure_handles :
    Handles cmd.id (fun cfg => Accepts cmd cmd.uart (.uart cfg) cfg.configured)
      (Uart.handleConfigure cmd) := by
  refine .bind (validateIndex_handles ..) fun idx hi => .bind requireField_handles fun baud hb =>
    .bind (fieldOr_handles rfl) fun bits hd => .bind Uart.parseParity_handles fun parity hp =>
    .bind (fieldOr_handles rfl) fun stop hs => ⟨⟨idx, hi⟩, ⟨hb.1, hd.1, hp, hs.1⟩, ?_, rfl⟩
  refine ⟨of_decide_eq_true hb.2, ?_, ?_⟩
  · simpa only [Bool.or_eq_true, beq_iff_eq] using hd.2
  · simpa only [Bool.or_eq_true, beq_iff_eq] using hs.2

theorem Spi.handleConfigure_handles :
    Handles cmd.id (fun cfg => Accepts cmd cmd.spi (.spi cfg) cfg.configured)
      (Spi.handleConfigure cmd) := by
  refine .bind (validateIndex_handles ..) fun idx hi => .bind requireField_handles fun freq hf =>
    .bind (fieldOr_handles rfl) fun cpol hl => .bind (fieldOr_handles rfl) fun cpha hh =>
    ⟨⟨idx, hi⟩, ⟨hf.1, hl.1, hh.1⟩, ?_, rfl⟩
  exact ⟨of_decide_eq_true hf.2, of_decide_eq_true hl.2, of_decide_eq_true hh.2⟩

theorem I2c.handleConfigure_handles :
    Handles cmd.id (fun cfg => Accepts cmd cmd.i2c (.i2c cfg) cfg.configured)
      (I2c.handleConfigure cmd) := by
  refine .bind (validateIndex_handles ..) fun idx hi => .bind requireField_handles fun freq hf =>
    ⟨⟨idx, hi⟩, hf.1, ?_, rfl⟩
  have hfreq : freq = 100000 ∨ freq = 400000 := by
    simpa only [Bool.or_eq_true, beq_iff_eq] using hf.2
  exact hfreq

theorem toNat_lt_two {idx : UInt8} (h : idx ≤ 1) : idx.toNat < 2 :=
  Nat.lt_succ_of_le (UInt8.le_iff_toNat_le.1 h)

theorem Accepts.index_lt (h : Accepts cmd field setting flag) : (field.getD 0).toNat < 2 := by
  obtain ⟨idx, rfl, hi⟩ := h.index
  exact toNat_lt_two hi

end PicoConduit
