import PicoConduit.Batch

namespace PicoConduit
open Checked Heapless Utf8 Transducer
set_option autoImplicit true

/-- The function to which a parsed command is handed. -/
inductive Executor
  | dispatch
  | dispatchBatch
  deriving DecidableEq, Repr

inductive Reply
  | single (r : Response)
  | batch (b : BatchResponse)
  deriving DecidableEq

/-- A command handed to one of the two functions. -/
structure Call where
  cmd : Command
  executor : Executor
  deriving DecidableEq

def callStep (s : DeviceState) (call : Call) : Exec (Reply × DeviceState) :=
  match call.executor with
  | .dispatch => do
    let (r, s) ← execute s call.cmd
    pure (.single r, s)
  | .dispatchBatch => do
    let (b, s) ← dispatchBatch s call.cmd
    pure (.batch b, s)

/-- A frame that reaches the device, and what executes the command in it. -/
structure Delivery where
  frame : Bytes
  executor : Executor
  deriving DecidableEq

/-- One frame of a session, for a JSON library that reads a command from a frame or rejects it. -/
def sessionStep (fromSlice : Bytes → Option Command) (s : DeviceState) (d : Delivery) :
    Exec (Reply × DeviceState) :=
  match parseCommand fromSlice d.frame with
  | .error e => pure (.single (.failure "" e), s)
  | .ok cmd => callStep s ⟨cmd, d.executor⟩

/-- The commands that a batch executes: all of them, or none when there are too many. -/
def Command.batched (cmd : Command) : List Command :=
  if cmd.inner.length ≤ maxBatchSize then cmd.inner.map CommandInner.toCommand else []

/-- The commands that a call has executed, one after the other. -/
def Call.commands (call : Call) : List Command :=
  match call.executor with
  | .dispatch => [call.cmd]
  | .dispatchBatch => call.cmd.batched

def Delivery.commands (fromSlice : Bytes → Option Command) (d : Delivery) : List Command :=
  match parseCommand fromSlice d.frame with
  | .error _ => []
  | .ok cmd => Call.commands ⟨cmd, d.executor⟩

theorem steps_nil_iff (b : β) : (∃ b', (Except.ok (b, s) : Exec (β × DeviceState)) = .ok (b', s')) ↔
    ∃ rs, Steps execute s [] rs s' := by
  constructor
  · intro h
    obtain ⟨b', hb⟩ := h
    cases hb
    exact ⟨[], .nil⟩
  · intro h
    obtain ⟨rs, hs⟩ := h
    cases hs
    exact ⟨b, rfl⟩

/-- The responses of a batch are those of the commands that it executes. -/
theorem dispatchBatch_answers (h : dispatchBatch s cmd = .ok (b, s')) :
    Steps execute s cmd.batched b.responses.toList s' := by
  simp only [Command.batched]
  split
  · rename_i h₂
    by_cases h₁ : 1 ≤ cmd.inner.length
    · exact ((dispatchBatch_eq_ok h₁ h₂).1 h).2
    · have hnil : cmd.inner = [] := List.length_eq_zero_iff.1 (by omega)
      rw [dispatchBatch_empty hnil] at h
      cases h
      rw [hnil]
      exact .nil
  · rw [dispatchBatch_tooLarge (Nat.lt_of_not_le ‹_›)] at h
    cases h
    exact .nil

theorem dispatchBatch_runs : (∃ b, dispatchBatch s cmd = .ok (b, s')) ↔
    ∃ rs, Steps execute s cmd.batched rs s' := by
  constructor
  · intro hx
    obtain ⟨b, hb⟩ := hx
    exact ⟨_, dispatchBatch_answers hb⟩
  · intro hx
    obtain ⟨rs, hs⟩ := hx
    simp only [Command.batched] at hs
    split at hs
    · rename_i h₂
      by_cases h₁ : 1 ≤ cmd.inner.length
      · have hlen : rs.length = cmd.inner.length := by rw [hs.length_eq, List.length_map]
        exact ⟨⟨cmd.id, true, ⟨rs, by omega⟩, none⟩,
          (dispatchBatch_eq_ok h₁ h₂).2 ⟨⟨rfl, rfl, rfl⟩, hs⟩⟩
      · have hnil : cmd.inner = [] := List.length_eq_zero_iff.1 (by omega)
        rw [hnil] at hs
        cases hs
        exact ⟨_, dispatchBatch_empty hnil⟩
    · cases hs
      exact ⟨_, dispatchBatch_tooLarge (Nat.lt_of_not_le ‹_›)⟩

theorem reply_iff {m : Exec (β × DeviceState)} {f : β → Reply} :
    (∃ u, (do let (b, s) ← m; pure (f b, s) : Exec (Reply × DeviceState)) = .ok (u, s')) ↔
      ∃ b, m = .ok (b, s') := by
  constructor
  · intro h
    obtain ⟨u, hu⟩ := h
    obtain ⟨x, hx, he⟩ := bind_eq_ok.1 hu
    cases he
    exact ⟨x.1, hx⟩
  · intro h
    obtain ⟨b, rfl⟩ := h
    exact ⟨f b, rfl⟩

/-- A sequence of calls is the run of their commands. -/
theorem callStep_runs : RunsBlocks execute Call.commands callStep := by
  rintro s ⟨cmd, executor⟩ s'
  cases executor with
  | dispatch =>
    simp only [callStep, Call.commands, reply_iff, steps_singleton]
    constructor
    · intro h
      obtain ⟨r, hr⟩ := h
      exact ⟨[r], r, rfl, hr⟩
    · intro h
      obtain ⟨rs, r, -, hr⟩ := h
      exact ⟨r, hr⟩
  | dispatchBatch => simp only [callStep, Call.commands, reply_iff, dispatchBatch_runs]

/-- The responses in a reply, one for each command that the call has executed. -/
def Reply.responses : Reply → List Response
  | .single r => [r]
  | .batch b => b.responses.toList

theorem callStep_answers (h : callStep s call = .ok (u, s')) :
    Steps execute s call.commands u.responses s' := by
  obtain ⟨cmd, executor⟩ := call
  cases executor with
  | dispatch =>
    obtain ⟨x, hx, he⟩ := bind_eq_ok.1 h
    cases he
    exact steps_singleton.2 ⟨_, rfl, hx⟩
  | dispatchBatch =>
    obtain ⟨x, hx, he⟩ := bind_eq_ok.1 h
    cases he
    exact dispatchBatch_answers hx

/-- The commands that a sequence of calls has executed, each with its response. -/
def exchanges (calls : List Call) (replies : List Reply) : List (Command × Response) :=
  (calls.flatMap Call.commands).zip (replies.flatMap Reply.responses)

theorem callStep_exchanges (h : Steps callStep s calls us s') :
    Steps execute s (calls.flatMap Call.commands) (us.flatMap Reply.responses) s' :=
  h.blocks fun _ _ _ _ => callStep_answers

/-- A session is the run of the commands of its frames. -/
theorem sessionStep_runs (fromSlice : Bytes → Option Command) :
    RunsBlocks execute (Delivery.commands fromSlice) (sessionStep fromSlice) := by
  intro s d s'
  simp only [sessionStep, Delivery.commands]
  cases parseCommand fromSlice d.frame with
  | error e => exact steps_nil_iff _
  | ok cmd => exact callStep_runs s _ s'

theorem session_steps_iff : (∃ rs s', Steps (sessionStep fromSlice) s ds rs s') ↔
    NoOverrun s (ds.flatMap (Delivery.commands fromSlice)) := by
  rw [← steps_execute_iff]
  constructor
  · intro h
    obtain ⟨us, s', hr⟩ := h
    obtain ⟨rs, hs⟩ := (sessionStep_runs fromSlice).steps_iff.1 ⟨us, hr⟩
    exact ⟨rs, s', hs⟩
  · intro h
    obtain ⟨rs, s', hs⟩ := h
    obtain ⟨us, hr⟩ := (sessionStep_runs fromSlice).steps_iff.2 ⟨rs, hs⟩
    exact ⟨us, s', hr⟩

/-- A session stops the device exactly when one of its commands writes a payload that overruns
the decoding buffer to a port that an earlier one has configured. -/
theorem session_safe_iff (fromSlice : Bytes → Option Command) (transportMqtt : Bool)
    (ds : List Delivery) :
    (∀ q, run (sessionStep fromSlice) (.default transportMqtt) ds ≠ .error q) ↔
      NoOverrun (.default transportMqtt) (ds.flatMap (Delivery.commands fromSlice)) := by
  rw [run_ne_error, session_steps_iff]

def configureFrame : Bytes :=
  asBytes ("\x7b\"version\":1,\"id\":\"c\",\"interface\":\"uart\",\"action\":\"configure\"," ++
    "\"uart\":0,\"baud\":115200\x7d")

def configureCommand : Command where
  version := some 1
  id := "c"
  interface := some "uart"
  action := some "configure"
  uart := some 0
  baud := some 115200

def overrunFrame : Bytes :=
  asBytes ("\x7b\"version\":1,\"id\":\"w\",\"interface\":\"uart\",\"action\":\"write\"," ++
    "\"uart\":0,\"bytes\":\"") ++
    (asBytes (String.ofList (List.replicate 684 'A')) ++ asBytes "\"\x7d")

/-- A JSON library as far as the two frames are concerned. -/
def overrunParser (frame : Bytes) : Option Command :=
  if frame = configureFrame then some configureCommand
  else if frame = overrunFrame then some overrunInner.toCommand
  else none

def overrunSession : List Delivery := [⟨configureFrame, .dispatch⟩, ⟨overrunFrame, .dispatch⟩]

theorem configureFrame_length : configureFrame.length = 85 := rfl

theorem overrunFrame_length : overrunFrame.length = 762 := by
  have hc : String.utf8EncodeChar 'A' = ['A'.toUInt8] := rfl
  rw [overrunFrame, List.length_append, List.length_append, asBytes_replicate 684 hc,
    List.length_replicate]
  rfl

theorem parseCommand_configureFrame :
    parseCommand overrunParser configureFrame = .ok configureCommand :=
  parseCommand_eq_ok.2 ⟨by rw [configureFrame_length]; decide, if_pos rfl, rfl⟩

theorem parseCommand_overrunFrame :
    parseCommand overrunParser overrunFrame = .ok overrunInner.toCommand := by
  have hne : overrunFrame ≠ configureFrame := by
    intro h
    have hl := congrArg List.length h
    rw [overrunFrame_length, configureFrame_length] at hl
    cases hl
  have hparse : overrunParser overrunFrame = some overrunInner.toCommand := by
    rw [overrunParser, if_neg hne, if_pos rfl]
  exact parseCommand_eq_ok.2 ⟨by rw [overrunFrame_length]; decide, hparse, rfl⟩

theorem overrunSession_panics : (∀ d ∈ overrunSession, d.frame.length ≤ maxMsgLen) ∧
    ¬ ∀ q, run (sessionStep overrunParser) (.default false) overrunSession ≠ .error q := by
  constructor
  · simp only [overrunSession, List.forall_mem_cons, configureFrame_length, overrunFrame_length]
    decide
  · rw [run_ne_error, session_steps_iff]
    have hcmds : overrunSession.flatMap (Delivery.commands overrunParser) =
        [configureCommand, overrunInner.toCommand] := by
      simp only [overrunSession, List.flatMap_cons, List.flatMap_nil, Delivery.commands,
        Call.commands, parseCommand_configureFrame, parseCommand_overrunFrame, List.cons_append,
        List.nil_append]
    rw [hcmds]
    intro h
    obtain ⟨-, hpre⟩ := h [configureCommand] _ [] rfl (.uart 0) overrunInner_overruns
    exact hpre configureCommand List.mem_cons_self rfl

end PicoConduit
